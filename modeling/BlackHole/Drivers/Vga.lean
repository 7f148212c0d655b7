import BlackHole.Lib.Loop
import Mathlib.Data.Int.Basic
import Mathlib.Logic.Function.Basic

set_option autoImplicit false

/-! # The VGA text-mode driver

The text buffer is a function from offsets to bytes; the driver computes the offsets as C `int`s and
checks none of them, so they are integers here. A cell is a pair of bytes, the character and its
colour. -/

namespace BlackHole

/-- `VGA_WIDTH`. -/
def vgaWidth : ℕ := 80

/-- `VGA_HEIGHT`. -/
def vgaHeight : ℕ := 25

/-- The text buffer and the static variables of the driver, with two histories that the source does
    not have: the offsets stored to, latest first, and the number of calls of `vga_scroll`. -/
structure Vga where
  buffer : ℤ → UInt8
  cursorRow : ℤ
  cursorCol : ℤ
  currentColor : UInt8
  stored : List ℤ
  scrolls : ℕ

/-! ## The driver's functions -/

def vgaOffset (row col : ℤ) : ℤ := (row * vgaWidth + col) * 2

/-- One store into the text buffer. -/
def vgaStore (s : Vga) (off : ℤ) (v : UInt8) : Vga :=
  { s with buffer := Function.update s.buffer off v, stored := off :: s.stored }

/-- The two stores that show a character in the current colour. -/
def vgaStoreCell (s : Vga) (off : ℤ) (c : UInt8) : Vga :=
  vgaStore (vgaStore s off c) (off + 1) s.currentColor

/-- The body of the copying loops of `vga_scroll`: the cell at `row`, `col` moves one row up. -/
def vgaMoveCell (s : Vga) (row col : ℤ) : Vga :=
  let src := vgaOffset row col
  let dst := vgaOffset (row - 1) col
  let s := vgaStore s dst (s.buffer src)
  vgaStore s (dst + 1) (s.buffer (src + 1))

/-- `vga_scroll`. -/
def vgaScroll (s : Vga) : Vga :=
  let moved := (List.range (vgaHeight - 1)).foldl (fun s (i : ℕ) =>
    (List.range vgaWidth).foldl (fun s (col : ℕ) => vgaMoveCell s (i + 1) col) s) s
  let cleared := (List.range vgaWidth).foldl (fun s (col : ℕ) =>
    vgaStoreCell s (vgaOffset (vgaHeight - 1) col) 32) moved
  { cleared with scrolls := s.scrolls + 1 }

/-- `vga_clear`. -/
def vgaClear (s : Vga) : Vga :=
  let cleared := (List.range (vgaWidth * vgaHeight)).foldl
    (fun s (i : ℕ) => vgaStoreCell s (2 * i) 32) s
  { cleared with cursorRow := 0, cursorCol := 0 }

/-- `vga_init`; the colour is light green on black. -/
def vgaInit (s : Vga) : Vga :=
  vgaClear { s with currentColor := 0x0A, cursorRow := 0, cursorCol := 0 }

/-- `vga_set_color`. -/
def vgaSetColor (s : Vga) (fg bg : UInt8) : Vga :=
  { s with currentColor := (bg <<< 4) ||| (fg &&& 0x0F) }

/-- `vga_set_cursor`: each coordinate is taken if it is on the screen. -/
def vgaSetCursor (s : Vga) (row col : ℤ) : Vga :=
  let s : Vga := if row ≥ 0 ∧ row < vgaHeight then { s with cursorRow := row } else s
  if col ≥ 0 ∧ col < vgaWidth then { s with cursorCol := col } else s

/-- `vga_newline`. -/
def vgaNewline (s : Vga) : Vga :=
  let s : Vga := { s with cursorCol := 0, cursorRow := s.cursorRow + 1 }
  if s.cursorRow ≥ vgaHeight then { vgaScroll s with cursorRow := vgaHeight - 1 } else s

/-- The `while` loop of a tab: blanks up to the column `next` or to the end of the row. -/
def vgaTabFill (next : ℤ) (s : Vga) : Vga :=
  if s.cursorCol < next ∧ s.cursorCol < vgaWidth then
    vgaTabFill next
      { vgaStoreCell s (vgaOffset s.cursorRow s.cursorCol) 32 with cursorCol := s.cursorCol + 1 }
  else s
termination_by (next - s.cursorCol).toNat
decreasing_by
  show (next - (s.cursorCol + 1)).toNat < (next - s.cursorCol).toNat
  omega

/-- A row that is full is left. -/
def vgaWrap (s : Vga) : Vga := if s.cursorCol ≥ vgaWidth then vgaNewline s else s

/-- `vga_putchar`. -/
def vgaPutchar (s : Vga) (c : UInt8) : Vga :=
  if c = 8 then
    -- backspace: one position back, on the first column to the end of the row above
    if s.cursorCol > 0 then { s with cursorCol := s.cursorCol - 1 }
    else if s.cursorRow > 0 then { s with cursorRow := s.cursorRow - 1, cursorCol := vgaWidth - 1 }
    else s
  else if c = 10 then vgaNewline s
  else if c = 13 then { s with cursorCol := 0 }
  else if c = 9 then
    -- tab: `(cursor_col + 4) & ~3`
    vgaWrap (vgaTabFill ((s.cursorCol + 4) / 4 * 4) s)
  else
    let s := vgaStoreCell s (vgaOffset s.cursorRow s.cursorCol) c
    vgaWrap { s with cursorCol := s.cursorCol + 1 }

/-- `vga_print` of the characters before the terminating NUL. -/
def vgaPrint (s : Vga) (str : List UInt8) : Vga := (str.takeWhile (· ≠ 0)).foldl vgaPutchar s

/-- `vga_print_at`. -/
def vgaPrintAt (s : Vga) (str : List UInt8) (row col : ℤ) : Vga :=
  vgaPrint (vgaSetCursor s row col) str

/-! ## What the loops leave in the buffer -/

/-- `t` differs from `s` in the buffer at most, where it holds `f`; the stores were on the screen. -/
structure Vga.Paints (s t : Vga) (f : ℤ → UInt8) : Prop where
  row : t.cursorRow = s.cursorRow
  col : t.cursorCol = s.cursorCol
  color : t.currentColor = s.currentColor
  scrolls : t.scrolls = s.scrolls
  buffer : ∀ k, t.buffer k = f k
  stored : ∀ o ∈ t.stored, o ∈ s.stored ∨ 0 ≤ o ∧ o < 4000

theorem Vga.Paints.self (s : Vga) : s.Paints s s.buffer :=
  ⟨rfl, rfl, rfl, rfl, fun _ => rfl, fun _ ho => Or.inl ho⟩

theorem Vga.Paints.store {s t : Vga} {f g : ℤ → UInt8} (h : s.Paints t f) {off : ℤ} {v : UInt8}
    (hoff : 0 ≤ off ∧ off < 4000) (hg : ∀ k, Function.update f off v k = g k) :
    s.Paints (vgaStore t off v) g where
  row := h.row
  col := h.col
  color := h.color
  scrolls := h.scrolls
  buffer := by
    intro k
    rw [← hg k, ← funext h.buffer]
    rfl
  stored := by
    intro o ho
    rcases List.mem_cons.1 ho with rfl | ho
    · exact Or.inr hoff
    · exact h.stored o ho

theorem Vga.Paints.congr {s t : Vga} {f g : ℤ → UInt8} (h : s.Paints t f) (hfg : ∀ k, f k = g k) :
    s.Paints t g :=
  ⟨h.row, h.col, h.color, h.scrolls, fun k => (h.buffer k).trans (hfg k), h.stored⟩

/-- The two bytes of a cell. -/
theorem Vga.Paints.storeCell {s t : Vga} {f g : ℤ → UInt8} (h : s.Paints t f) {off : ℤ} {c : UInt8}
    (hoff : 0 ≤ off ∧ off + 1 < 4000)
    (hg : ∀ k, (if k = off + 1 then s.currentColor else if k = off then c else f k) = g k) :
    s.Paints (vgaStoreCell t off c) g := by
  have hfirst : s.Paints (vgaStore t off c) (Function.update f off c) :=
    h.store ⟨hoff.1, by omega⟩ fun _ => rfl
  refine hfirst.store ⟨by omega, hoff.2⟩ fun k => ?_
  rw [← hg k, h.color, Function.update_apply, Function.update_apply]

/-- The buffer while `vga_scroll` copies: the first `n` bytes have moved one row up. -/
def shifted (f : ℤ → UInt8) (n k : ℤ) : UInt8 := if 0 ≤ k ∧ k < n then f (k + 160) else f k

theorem shifted_store {f : ℤ → UInt8} {n : ℤ} (hn : 0 ≤ n) (k : ℤ) :
    Function.update (shifted f n) n (shifted f n (n + 160)) k = shifted f (n + 1) k := by
  have hsrc : shifted f n (n + 160) = f (n + 160) := if_neg (by omega)
  rw [Function.update_apply, hsrc]
  by_cases hk : k = n
  · rw [if_pos hk, hk]
    exact (if_pos (by omega)).symm
  · rw [if_neg hk]
    unfold shifted
    by_cases hin : 0 ≤ k ∧ k < n
    · rw [if_pos hin, if_pos (by omega)]
    · rw [if_neg hin, if_neg (by omega)]

theorem Vga.Paints.moveCell {s t : Vga} {row col : ℤ} (hrow : 1 ≤ row ∧ row < 25)
    (hcol : 0 ≤ col ∧ col < 80)
    (h : s.Paints t (shifted s.buffer ((row - 1) * 160 + 2 * col))) :
    s.Paints (vgaMoveCell t row col) (shifted s.buffer ((row - 1) * 160 + 2 * (col + 1))) := by
  have hdst : vgaOffset (row - 1) col = (row - 1) * 160 + 2 * col := by
    simp only [vgaOffset, vgaWidth]
    omega
  have hsrc : vgaOffset row col = (row - 1) * 160 + 2 * col + 160 := by
    simp only [vgaOffset, vgaWidth]
    omega
  unfold vgaMoveCell
  simp only [hdst, hsrc]
  set n := (row - 1) * 160 + 2 * col with hn
  have hfirst : s.Paints (vgaStore t n (t.buffer (n + 160))) (shifted s.buffer (n + 1)) := by
    refine h.store ⟨by omega, by omega⟩ fun k => ?_
    rw [h.buffer]
    exact shifted_store (by omega) k
  refine hfirst.store ⟨by omega, by omega⟩ fun k => ?_
  rw [hfirst.buffer, show n + 160 + 1 = n + 1 + 160 by omega, shifted_store (by omega),
    show n + 1 + 1 = (row - 1) * 160 + 2 * (col + 1) by omega]

theorem vgaScroll_moved (s : Vga) :
    s.Paints ((List.range (vgaHeight - 1)).foldl (fun s (i : ℕ) =>
      (List.range vgaWidth).foldl (fun s (col : ℕ) => vgaMoveCell s (i + 1) col) s) s)
      (shifted s.buffer 3840) := by
  have hrows := Loop.foldl_range_invariant
    (fun i t => s.Paints t (shifted s.buffer (i * 160))) (n := vgaHeight - 1) (s := s)
    (f := fun s (i : ℕ) =>
      (List.range vgaWidth).foldl (fun s (col : ℕ) => vgaMoveCell s (i + 1) col) s) ?_ ?_
  · exact hrows
  · exact (Vga.Paints.self s).congr fun k => (if_neg (by omega)).symm
  · intro i t hi ht
    have hrow : 1 ≤ (i : ℤ) + 1 ∧ (i : ℤ) + 1 < 25 := by
      unfold vgaHeight at hi
      omega
    have hcols := Loop.foldl_range_invariant (n := vgaWidth) (s := t)
      (f := fun s (col : ℕ) => vgaMoveCell s (i + 1) col)
      (fun col t => s.Paints t (shifted s.buffer (((i : ℤ) + 1 - 1) * 160 + 2 * col))) ?_ ?_
    · exact hcols.congr fun k => by
        rw [show ((i : ℤ) + 1 - 1) * 160 + 2 * ((vgaWidth : ℕ) : ℤ) = ((i + 1 : ℕ) : ℤ) * 160 by
          simp only [vgaWidth]; omega]
    · exact ht.congr fun k => by
        rw [show ((i : ℤ) + 1 - 1) * 160 + 2 * ((0 : ℕ) : ℤ) = (i : ℤ) * 160 by omega]
    · intro col u hcol hu
      unfold vgaWidth at hcol
      exact (hu.moveCell hrow ⟨by omega, by omega⟩).congr fun k => by
        rw [show (col : ℤ) + 1 = ((col + 1 : ℕ) : ℤ) by omega]

/-- The buffer while blanks are stored: the `n` bytes from `base` on are blank cells. -/
def blanked (f : ℤ → UInt8) (color : UInt8) (base n k : ℤ) : UInt8 :=
  if base ≤ k ∧ k < base + n then (if (k - base) % 2 = 0 then 32 else color) else f k

/-- Blanks stored right behind blanks. -/
theorem blanked_append {f : ℤ → UInt8} {color : UInt8} {base m n k : ℤ} (hm : 0 ≤ m)
    (hn : 0 ≤ n) (heven : m % 2 = 0) :
    blanked (blanked f color base m) color (base + m) n k = blanked f color base (m + n) k := by
  unfold blanked
  by_cases hnew : base + m ≤ k ∧ k < base + m + n
  · have hpar : (k - (base + m)) % 2 = (k - base) % 2 := by omega
    rw [if_pos hnew, if_pos (show base ≤ k ∧ k < base + (m + n) by omega), hpar]
  · rw [if_neg hnew]
    by_cases hold : base ≤ k ∧ k < base + m
    · rw [if_pos hold, if_pos (show base ≤ k ∧ k < base + (m + n) by omega)]
    · rw [if_neg hold, if_neg (by omega)]

theorem Vga.Paints.blankCell {s t : Vga} {f : ℤ → UInt8} {base n : ℤ} (hn : 0 ≤ n)
    (heven : n % 2 = 0) (hbase : 0 ≤ base ∧ base + n + 2 ≤ 4000)
    (h : s.Paints t (blanked f s.currentColor base n)) :
    s.Paints (vgaStoreCell t (base + n) 32) (blanked f s.currentColor base (n + 2)) := by
  refine h.storeCell ⟨by omega, by omega⟩ fun k => ?_
  unfold blanked
  by_cases h1 : k = base + n + 1
  · rw [if_pos h1, if_pos (by omega), if_neg (by omega)]
  by_cases h0 : k = base + n
  · rw [if_neg h1, if_pos h0, if_pos (by omega), if_pos (by omega)]
  · rw [if_neg h1, if_neg h0]
    by_cases hin : base ≤ k ∧ k < base + n
    · rw [if_pos hin, if_pos (show base ≤ k ∧ k < base + (n + 2) by omega)]
    · rw [if_neg hin, if_neg (by omega)]

/-- A counted loop that stores `n` blank cells one after the other. -/
theorem Vga.Paints.blanks {s t : Vga} {f : ℤ → UInt8} {n : ℕ} (h : s.Paints t f) (base : ℤ)
    (off : ℕ → ℤ) (hbase : 0 ≤ base ∧ base + 2 * n ≤ 4000)
    (hoff : ∀ i < n, off i = base + 2 * i) :
    s.Paints ((List.range n).foldl (fun s i => vgaStoreCell s (off i) 32) t)
      (blanked f s.currentColor base (2 * n)) := by
  refine Loop.foldl_range_invariant
    (fun i t => s.Paints t (blanked f s.currentColor base (2 * (i : ℕ)))) ?_ ?_
  · exact h.congr fun k => (if_neg (by omega)).symm
  · intro i t hi ht
    rw [hoff i hi]
    exact (ht.blankCell (by omega) (by omega) ⟨by omega, by omega⟩).congr fun k => by
      rw [show 2 * (i : ℤ) + 2 = 2 * ((i + 1 : ℕ) : ℤ) by omega]

theorem Vga.Paints.withScrolls {s t : Vga} {f : ℤ → UInt8} (h : s.Paints t f) (n : ℕ) :
    ({ s with scrolls := n } : Vga).Paints { t with scrolls := n } f :=
  ⟨h.row, h.col, h.color, rfl, h.buffer, h.stored⟩

theorem Vga.Paints.withCursor {s t : Vga} {f : ℤ → UInt8} (h : s.Paints t f) (row col : ℤ) :
    ({ s with cursorRow := row, cursorCol := col } : Vga).Paints
      { t with cursorRow := row, cursorCol := col } f :=
  ⟨rfl, rfl, h.color, h.scrolls, h.buffer, h.stored⟩

theorem Vga.Paints.withRow {s t : Vga} {f : ℤ → UInt8} (h : s.Paints t f) (row : ℤ) :
    ({ s with cursorRow := row } : Vga).Paints { t with cursorRow := row } f :=
  ⟨rfl, h.col, h.color, h.scrolls, h.buffer, h.stored⟩

/-- `vga_scroll` moves rows 1..24 up and blanks the last one. -/
theorem vgaScroll_paints (s : Vga) :
    ({ s with scrolls := s.scrolls + 1 } : Vga).Paints (vgaScroll s)
      (blanked (shifted s.buffer 3840) s.currentColor 3840 160) := by
  have hclear := (vgaScroll_moved s).blanks (n := vgaWidth) 3840
    (fun col => vgaOffset (vgaHeight - 1) col) (by simp [vgaWidth])
    (fun i _ => by simp only [vgaOffset, vgaWidth, vgaHeight]; omega)
  exact hclear.withScrolls (s.scrolls + 1)

/-- `vga_clear` blanks the screen and takes the cursor home. -/
theorem vgaClear_paints (s : Vga) :
    ({ s with cursorRow := 0, cursorCol := 0 } : Vga).Paints (vgaClear s)
      (blanked s.buffer s.currentColor 0 4000) := by
  have hclear := (Vga.Paints.self s).blanks (n := vgaWidth * vgaHeight) 0
    (fun i => 2 * (i : ℤ)) (by simp [vgaWidth, vgaHeight]) (fun i _ => by omega)
  exact hclear.withCursor 0 0

/-! ## Spec lemmas -/

theorem vgaOffset_eq (row col : ℤ) : vgaOffset row col = 160 * row + 2 * col := by
  simp only [vgaOffset, vgaWidth]
  omega

/-- A newline above the last row. -/
theorem vgaNewline_above {s : Vga} (h : s.cursorRow < 24) :
    vgaNewline s = { s with cursorRow := s.cursorRow + 1, cursorCol := 0 } := by
  unfold vgaNewline
  exact if_neg (by simp only [vgaHeight]; omega)

/-- A newline on the last row scrolls. -/
theorem vgaNewline_last {s : Vga} (h : s.cursorRow = 24) :
    ({ s with cursorRow := 24, cursorCol := 0, scrolls := s.scrolls + 1 } : Vga).Paints
      (vgaNewline s) (blanked (shifted s.buffer 3840) s.currentColor 3840 160) := by
  have hscroll := vgaScroll_paints { s with cursorCol := 0, cursorRow := s.cursorRow + 1 }
  unfold vgaNewline
  rw [if_pos (by simp only [vgaHeight]; omega)]
  exact hscroll.withRow 24

/-- A tab blanks the cells from the cursor to the tab stop and moves the cursor there. -/
theorem vgaTabFill_paints {next : ℤ} (hnext : next ≤ 80) :
    ∀ (n : ℕ) (s : Vga), 0 ≤ s.cursorRow → s.cursorRow < 25 → 0 ≤ s.cursorCol →
      next = s.cursorCol + n →
      ({ s with cursorCol := next } : Vga).Paints (vgaTabFill next s)
        (blanked s.buffer s.currentColor (vgaOffset s.cursorRow s.cursorCol) (2 * n)) := by
  intro n
  induction n with
  | zero =>
      intro s _ _ _ hn
      rw [vgaTabFill, if_neg (by omega)]
      have hcol : next = s.cursorCol := by omega
      exact ⟨rfl, hcol.symm, rfl, rfl, fun k => (if_neg (by omega)).symm, fun o ho => Or.inl ho⟩
  | succ n ih =>
      intro s hrow0 hrow hcol hn
      have hoff := vgaOffset_eq s.cursorRow s.cursorCol
      rw [vgaTabFill, if_pos ⟨by omega, by simp only [vgaWidth]; omega⟩]
      set off := vgaOffset s.cursorRow s.cursorCol with hoffdef
      set u : Vga := { vgaStoreCell s off 32 with cursorCol := s.cursorCol + 1 } with hu
      have hstore : s.Paints (vgaStoreCell s off 32) (blanked s.buffer s.currentColor off 2) := by
        have hzero : s.Paints s (blanked s.buffer s.currentColor off 0) :=
          (Vga.Paints.self s).congr fun k => (if_neg (by omega)).symm
        simpa using hzero.blankCell (by omega) (by omega) ⟨by omega, by omega⟩
      have hoffu : vgaOffset u.cursorRow u.cursorCol = off + 2 := by
        rw [vgaOffset_eq, hoff, hu]
        show 160 * (vgaStoreCell s off 32).cursorRow + 2 * (s.cursorCol + 1) = _
        rw [hstore.row]
        omega
      have hrec := ih u (hstore.row ▸ hrow0) (hstore.row ▸ hrow)
        (show 0 ≤ s.cursorCol + 1 by omega) (show next = s.cursorCol + 1 + n by omega)
      rw [hoffu] at hrec
      refine ⟨hrec.row.trans hstore.row, hrec.col, hrec.color.trans hstore.color,
        hrec.scrolls.trans hstore.scrolls, fun k => ?_, fun o ho => ?_⟩
      · have hbuffer : u.buffer = blanked s.buffer s.currentColor off 2 :=
          funext fun k => hstore.buffer k
        have hcolor : u.currentColor = s.currentColor := hstore.color
        rw [hrec.buffer, hbuffer, hcolor, blanked_append (by omega) (by omega) (by omega)]
        congr 1
        omega
      · rcases hrec.stored o ho with ho | ho
        · exact hstore.stored o ho
        · exact Or.inr ho

end BlackHole
