import BlackHole.Drivers.Vga
import BlackHole.Lib.Screen
import Mathlib.Data.List.TakeWhile

set_option autoImplicit false

/-! # The terminal shows the text

`layout` lays a text out in lines without a screen: no rows, no scrolling. The driver, which keeps
only the 25 rows of the buffer, shows the last 25 lines of it after every character. -/

namespace BlackHole

open Screen

/-! ## The reference layout -/

/-- One character of the text: a newline starts a line, a tab appends blanks up to the next multiple
    of 4 columns, any other character is a cell; a line of 80 cells is closed. -/
def layoutChar (p : Page UInt8) (c : UInt8) : Page UInt8 :=
  if c = 10 then p.newline
  else if c = 9 then (p.extend (List.replicate (4 - p.current.length % 4) 32)).close 80
  else (p.extend [c]).close 80

def layout (text : List UInt8) : Page UInt8 := text.foldl layoutChar Page.empty

/-! ## The simulation -/

/-- The screen shows the last 25 lines of the page in one colour, and the cursor is at the page's
    end. -/
structure Shows (s : Vga) (color : UInt8) (p : Page UInt8) : Prop where
  row : s.cursorRow = p.row 25
  col : s.cursorCol = p.current.length
  ink : s.currentColor = color
  char : ∀ r c : ℕ, r < 25 → c < 80 → s.buffer (vgaOffset r c) = p.cell 32 25 r c
  attr : ∀ r c : ℕ, r < 25 → c < 80 → s.buffer (vgaOffset r c + 1) = color

variable {s t : Vga} {color : UInt8} {p : Page UInt8}

theorem Shows.cursorRow_lt (h : Shows s color p) : 0 ≤ s.cursorRow ∧ s.cursorRow < 25 := by
  have hlt := Page.row_lt (p := p) (show 0 < 25 by decide)
  rw [h.row]
  omega

/-- A screen that is painted with what the page shows. -/
theorem Shows.of_paints {f : ℤ → UInt8} (h : s.Paints t f) (hrow : s.cursorRow = p.row 25)
    (hcol : s.cursorCol = p.current.length) (hcolor : s.currentColor = color)
    (hchar : ∀ r c : ℕ, r < 25 → c < 80 → f (vgaOffset r c) = p.cell 32 25 r c)
    (hattr : ∀ r c : ℕ, r < 25 → c < 80 → f (vgaOffset r c + 1) = color) : Shows t color p where
  row := h.row.trans hrow
  col := h.col.trans hcol
  ink := h.color.trans hcolor
  char := fun r c hr hc => (h.buffer _).trans (hchar r c hr hc)
  attr := fun r c hr hc => (h.buffer _).trans (hattr r c hr hc)

theorem Shows.clear (s : Vga) : Shows (vgaClear s) s.currentColor Page.empty := by
  refine Shows.of_paints (vgaClear_paints s) rfl rfl rfl ?_ ?_
  · intro r c hr hc
    rw [Page.cell_empty, vgaOffset_eq]
    unfold blanked
    rw [if_pos (by omega), if_pos (by omega)]
  · intro r c hr hc
    rw [vgaOffset_eq]
    unfold blanked
    rw [if_pos (by omega), if_neg (by omega)]

/-- Above the last row the cursor goes down. -/
theorem Shows.newline_above (h : Shows s color p) (habove : s.cursorRow < 24) :
    Shows (vgaNewline s) color p.newline := by
  have hrow := h.row
  have hp : p.closed.length + 1 < 25 := by
    unfold Page.row Page.top at hrow
    omega
  have hpage : ∀ r c, p.newline.row 25 = p.row 25 + 1
      ∧ p.newline.cell 32 25 r c = p.cell 32 25 r c := Page.newline_above hp
  rw [vgaNewline_above habove]
  refine ⟨?_, rfl, h.ink, fun r c hr hc => ?_, h.attr⟩
  · show s.cursorRow + 1 = _
    rw [(hpage 0 0).1, hrow]
    omega
  · exact (h.char r c hr hc).trans (hpage r c).2.symm

/-- On the last row all rows go up. -/
theorem Shows.newline_last (h : Shows s color p) (hlast : s.cursorRow = 24) :
    Shows (vgaNewline s) color p.newline := by
  have hrow := h.row
  have hp : 25 ≤ p.closed.length + 1 := by
    unfold Page.row Page.top at hrow
    omega
  have hpage : ∀ r < 25, ∀ c, p.newline.row 25 = 25 - 1 ∧ p.row 25 = 25 - 1
      ∧ p.newline.cell 32 25 r c = if r = 25 - 1 then 32 else p.cell 32 25 (r + 1) c :=
    fun r hr => Page.newline_last (by decide) hp hr
  refine Shows.of_paints (vgaNewline_last hlast) ?_ rfl h.ink ?_ ?_
  · rw [(hpage 0 (by decide) 0).1]
    rfl
  · intro r c hr hc
    rw [(hpage r hr c).2.2, vgaOffset_eq]
    unfold blanked
    split
    next hrlast => rw [if_pos (by omega), if_pos (by omega)]
    next hne =>
      have hup := h.char (r + 1) c (by omega) hc
      rw [if_neg (by omega), ← hup, vgaOffset_eq]
      unfold shifted
      rw [if_pos (by omega), show 160 * (r : ℤ) + 2 * c + 160 = 160 * ((r + 1 : ℕ) : ℤ) + 2 * c by
        omega]
  · intro r c hr hc
    rw [vgaOffset_eq]
    unfold blanked
    split
    next => rw [if_neg (by omega), h.ink]
    next hin =>
      have hup := h.attr (r + 1) c (by omega) hc
      rw [vgaOffset_eq] at hup
      unfold shifted
      rw [if_pos (by omega), ← hup]
      congr 1
      omega

theorem Shows.newline (h : Shows s color p) : Shows (vgaNewline s) color p.newline := by
  have hrange := h.cursorRow_lt
  rcases Int.lt_or_le s.cursorRow 24 with habove | hlast
  · exact h.newline_above habove
  · exact h.newline_last (by omega)

/-- The end of a character: a full row is left. -/
theorem Shows.wrap (h : Shows s color p) : Shows (vgaWrap s) color (p.close 80) := by
  have hiff : s.cursorCol ≥ vgaWidth ↔ 80 ≤ p.current.length := by
    rw [h.col, vgaWidth]
    omega
  unfold vgaWrap Page.close
  by_cases hfull : 80 ≤ p.current.length
  · rw [if_pos (hiff.2 hfull), if_pos hfull]
    exact h.newline
  · rw [if_neg (mt hiff.1 hfull), if_neg hfull]
    exact h

/-- Storing a cell at the cursor and moving on. -/
theorem Shows.storeCell (h : Shows s color p) (hfits : p.current.length < 80) (a : UInt8) :
    Shows { vgaStoreCell s (vgaOffset s.cursorRow s.cursorCol) a with
      cursorCol := s.cursorCol + 1 } color (p.extend [a]) := by
  have hrow := h.row
  have hcol := h.col
  have hrange := h.cursorRow_lt
  have hoff : 0 ≤ vgaOffset s.cursorRow s.cursorCol
      ∧ vgaOffset s.cursorRow s.cursorCol + 1 < 4000 := by
    rw [vgaOffset_eq]
    omega
  have hpaints := (Vga.Paints.self s).storeCell (c := a) hoff fun _ => rfl
  refine ⟨hpaints.row.trans hrow, ?_, hpaints.color.trans h.ink, ?_, ?_⟩
  · show s.cursorCol + 1 = ((p.current ++ [a]).length : ℕ)
    rw [List.length_append, List.length_singleton]
    omega
  · intro r c hr hc
    refine (hpaints.buffer _).trans ?_
    rw [Page.cell_extend_one (by decide), vgaOffset_eq, vgaOffset_eq]
    by_cases hat : r = p.row 25 ∧ c = p.current.length
    · rw [if_neg (by omega), if_pos (by omega), if_pos hat]
    · rw [if_neg (by omega), if_neg (by omega), if_neg hat, ← h.char r c hr hc, vgaOffset_eq]
  · intro r c hr hc
    refine (hpaints.buffer _).trans ?_
    rw [← h.attr r c hr hc]
    split
    next => rw [h.ink, h.attr r c hr hc]
    next hne =>
      rw [vgaOffset_eq, vgaOffset_eq] at hne ⊢
      rw [if_neg (by omega)]

/-- Filling with blanks up to a tab stop on the screen. -/
theorem Shows.tabFill (h : Shows s color p) (n : ℕ) (hn : p.current.length + n ≤ 80) :
    Shows (vgaTabFill (s.cursorCol + n) s) color (p.extend (List.replicate n 32)) := by
  have hcol := h.col
  have hrange := h.cursorRow_lt
  have hnext : s.cursorCol + n ≤ 80 := by omega
  have hpaints := vgaTabFill_paints hnext n s hrange.1 hrange.2 (by omega) rfl
  refine Shows.of_paints hpaints h.row ?_ h.ink ?_ ?_
  · show s.cursorCol + n = ((p.current ++ List.replicate n 32).length : ℕ)
    rw [List.length_append, List.length_replicate]
    omega
  · intro r c hr hc
    rw [Page.cell_extend_blanks (by decide), ← h.char r c hr hc]
    unfold blanked
    split
    next hin =>
      -- the blanked cells are beyond the end of the page's last line, which shows blanks there
      have hrow := h.row
      rw [vgaOffset_eq, vgaOffset_eq] at hin ⊢
      have hat : r = p.row 25 := by omega
      have hbeyond : p.current.length ≤ c := by omega
      rw [if_pos (by omega), ← vgaOffset_eq, h.char r c hr hc, hat,
        Page.cell_row (by decide), List.getElem?_eq_none hbeyond]
      rfl
    next => rfl
  · intro r c hr hc
    rw [← h.attr r c hr hc]
    unfold blanked
    split
    next =>
      rw [vgaOffset_eq, vgaOffset_eq, if_neg (by omega), h.ink, ← vgaOffset_eq,
        h.attr r c hr hc]
    next => rfl

/-! ## Printing -/

theorem close_fits {q : Page UInt8} (h : q.current.length ≤ 80) :
    (q.close 80).current.length < 80 := by
  unfold Page.close
  split
  next => exact Nat.zero_lt_succ _
  next hfull => omega

/-- One character moves the screen and the page alike. -/
theorem Shows.putchar (h : Shows s color p) (hfits : p.current.length < 80) {c : UInt8}
    (hbs : c ≠ 8) (hcr : c ≠ 13) :
    Shows (vgaPutchar s c) color (layoutChar p c) ∧ (layoutChar p c).current.length < 80 := by
  have hcol := h.col
  unfold vgaPutchar layoutChar
  rw [if_neg hbs]
  by_cases hnl : c = 10
  · rw [if_pos hnl, if_pos hnl]
    exact ⟨h.newline, Nat.zero_lt_succ _⟩
  rw [if_neg hnl, if_neg hcr, if_neg hnl]
  by_cases htab : c = 9
  · have hstop : (s.cursorCol + 4) / 4 * 4 = s.cursorCol + ((4 - p.current.length % 4 : ℕ) : ℤ) := by
      omega
    rw [if_pos htab, if_pos htab, hstop]
    refine ⟨(h.tabFill _ (by omega)).wrap, close_fits ?_⟩
    show (p.current ++ List.replicate _ _).length ≤ 80
    rw [List.length_append, List.length_replicate]
    omega
  · rw [if_neg htab, if_neg htab]
    refine ⟨(h.storeCell hfits c).wrap, close_fits ?_⟩
    show (p.current ++ [c]).length ≤ 80
    rw [List.length_append, List.length_singleton]
    omega

theorem Shows.printChars (text : List UInt8) (htext : ∀ c ∈ text, c ≠ 8 ∧ c ≠ 13)
    (h : Shows s color p) (hfits : p.current.length < 80) :
    Shows (text.foldl vgaPutchar s) color (text.foldl layoutChar p) := by
  induction text generalizing s p with
  | nil => exact h
  | cons c text ih =>
      obtain ⟨hbs, hcr⟩ := htext c (List.mem_cons_self ..)
      obtain ⟨hshows, hfits'⟩ := h.putchar hfits hbs hcr
      exact ih (fun d hd => htext d (List.mem_cons_of_mem _ hd)) hshows hfits'

/-- Printing on a cleared screen shows the last 25 lines of the layout of the text, with the cursor
    at the end of the last one. -/
theorem vgaPrint_shows_layout (s : Vga) (text : List UInt8)
    (htext : ∀ c ∈ text, c ≠ 0 ∧ c ≠ 8 ∧ c ≠ 13) :
    let t := vgaPrint (vgaClear s) text
    let shown := (layout text).lines.drop ((layout text).lines.length - 25)
    (∀ r c : ℕ, r < 25 → c < 80 →
        t.buffer (vgaOffset r c) = ((shown[r]?.getD [])[c]?).getD 32
          ∧ t.buffer (vgaOffset r c + 1) = s.currentColor)
      ∧ t.cursorRow = (shown.length : ℤ) - 1 ∧ t.cursorCol = (shown.getLastD []).length := by
  intro t shown
  have hall : text.takeWhile (· ≠ 0) = text := by
    rw [List.takeWhile_eq_self_iff]
    exact fun c hc => decide_eq_true (htext c hc).1
  have h : Shows t s.currentColor (layout text) := by
    have hrun := Shows.printChars text (fun c hc => (htext c hc).2) (Shows.clear s)
      (show 0 < 80 by decide)
    have ht : t = text.foldl vgaPutchar (vgaClear s) := by
      show (text.takeWhile (· ≠ 0)).foldl vgaPutchar (vgaClear s) = _
      rw [hall]
    rw [ht]
    exact hrun
  have hlen := (layout text).length_lines
  refine ⟨fun r c hr hc => ⟨?_, h.attr r c hr hc⟩, ?_, ?_⟩
  · rw [h.char r c hr hc, Page.cell_eq_drop]
  · rw [h.row, List.length_drop]
    unfold Page.row Page.top
    omega
  · rw [h.col]
    have hlast : shown.getLastD [] = (layout text).current := by
      have hne : (layout text).lines.length - 25 < (layout text).lines.length := by omega
      simp only [shown]
      rw [List.getLastD_eq_getLast?, List.getLast?_drop, if_neg (by omega)]
      simp [Page.lines]
    rw [hlast]

/-- 81 letters, which wrap, a tab and a letter behind them, and enough line feeds to scroll. -/
def scrolledText : List UInt8 :=
  List.replicate 81 97 ++ [9, 98] ++ List.replicate 24 10 ++ [99]

theorem vgaPrint_shows_layout_scrolled :
    let t := vgaPrint (vgaClear ⟨fun _ => 0, 7, 7, 15, [], 0⟩) scrolledText
    t.buffer (vgaOffset 0 0) = 97 ∧ t.buffer (vgaOffset 0 1) = 32 ∧ t.buffer (vgaOffset 0 4) = 98 ∧
      t.buffer (vgaOffset 24 0) = 99 ∧ t.cursorRow = 24 ∧ t.cursorCol = 1 := by
  have hshown : (layout scrolledText).lines.drop ((layout scrolledText).lines.length - 25)
      = [97, 32, 32, 32, 98] :: (List.replicate 23 [] ++ [[99]]) := by
    decide +kernel
  have hplain : (scrolledText.all fun c => c ≠ 0 ∧ c ≠ 8 ∧ c ≠ 13) = true := by decide +kernel
  have h := vgaPrint_shows_layout ⟨fun _ => 0, 7, 7, 15, [], 0⟩ scrolledText
    fun c hc => of_decide_eq_true (List.all_eq_true.1 hplain c hc)
  simp only [hshown] at h
  generalize vgaPrint (vgaClear ⟨fun _ => 0, 7, 7, 15, [], 0⟩) scrolledText = t at h ⊢
  obtain ⟨hcells, hrow, hcol⟩ := h
  have hcell (r c : ℕ) (hr : r < 25) (hc : c < 80) := (hcells r c hr hc).1
  exact ⟨(hcell 0 0 (by decide) (by decide)).trans (by decide +kernel),
    (hcell 0 1 (by decide) (by decide)).trans (by decide +kernel),
    (hcell 0 4 (by decide) (by decide)).trans (by decide +kernel),
    (hcell 24 0 (by decide) (by decide)).trans (by decide +kernel),
    hrow.trans (by decide +kernel), hcol.trans (by decide +kernel)⟩

end BlackHole
