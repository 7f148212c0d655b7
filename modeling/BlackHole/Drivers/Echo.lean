import BlackHole.Drivers.Vga

set_option autoImplicit false

/-! # The screen in reading order

While nothing scrolls, the 2000 cells of the screen are one row of cells in reading order, and the
cursor is a position in it. Characters move the position on, backspaces move it back, also over the
ends of rows. -/

namespace BlackHole

/-! ## Positions and cells -/

/-- The cursor in reading order. -/
def Vga.pos (s : Vga) : ℤ := 80 * s.cursorRow + s.cursorCol

/-- The character of the cell at a position. -/
def Vga.char (s : Vga) (k : ℤ) : UInt8 := s.buffer (2 * k)

structure Vga.OnScreen (s : Vga) : Prop where
  row : 0 ≤ s.cursorRow ∧ s.cursorRow < 25
  col : 0 ≤ s.cursorCol ∧ s.cursorCol < 80

/-- The same characters, ignoring colour, and the same cursor. -/
structure Vga.Same (s t : Vga) : Prop where
  row : s.cursorRow = t.cursorRow
  col : s.cursorCol = t.cursorCol
  char : ∀ k, 0 ≤ k → k < 2000 → s.char k = t.char k

variable {s t : Vga}

theorem Vga.OnScreen.pos_range (h : s.OnScreen) : 0 ≤ s.pos ∧ s.pos < 2000 := by
  obtain ⟨hrow, hcol⟩ := h
  unfold Vga.pos
  omega

theorem Vga.Same.pos (h : s.Same t) : s.pos = t.pos := by
  unfold Vga.pos
  rw [h.row, h.col]

/-- On the screen, the position is the cursor. -/
theorem Vga.OnScreen.same_of_pos (hs : s.OnScreen) (ht : t.OnScreen) (hpos : s.pos = t.pos)
    (hchar : ∀ k, 0 ≤ k → k < 2000 → s.char k = t.char k) : s.Same t := by
  have hrow := hs.row
  have hcol := hs.col
  have hrow' := ht.row
  have hcol' := ht.col
  unfold Vga.pos at hpos
  exact ⟨by omega, by omega, hchar⟩

theorem vgaOffset_pos (s : Vga) : vgaOffset s.cursorRow s.cursorCol = 2 * s.pos := by
  rw [vgaOffset_eq]
  unfold Vga.pos
  omega

/-- A call that leaves the screen in this shape: the cursor at `q`, the characters `f`, nothing
    scrolled. -/
structure Vga.Wrote (s t : Vga) (q : ℤ) (f : ℤ → UInt8) : Prop where
  onScreen : t.OnScreen
  pos : t.pos = q
  scrolls : t.scrolls = s.scrolls
  char : ∀ k, 0 ≤ k → k < 2000 → t.char k = f k

/-- Two screens written alike are the same. -/
theorem Vga.Wrote.same {s s' t t' : Vga} {q : ℤ} {f f' : ℤ → UInt8} (h : s.Wrote t q f)
    (h' : s'.Wrote t' q f') (hff : ∀ k, 0 ≤ k → k < 2000 → f k = f' k) : t.Same t' :=
  h.onScreen.same_of_pos h'.onScreen (h.pos.trans h'.pos.symm) fun k h0 h1 => by
    rw [h.char k h0 h1, h'.char k h0 h1, hff k h0 h1]

/-! ## One character -/

/-- Where the cursor goes when this character is echoed. -/
def echoPos (p : ℤ) (c : UInt8) : ℤ := if c = 9 then (p + 4) / 4 * 4 else p + 1

/-- The characters that fill cells: all but backspace, newline and carriage return. -/
def FillsCells (c : UInt8) : Prop := c ≠ 8 ∧ c ≠ 10 ∧ c ≠ 13

theorem echoPos_range (p : ℤ) (c : UInt8) : p + 1 ≤ echoPos p c ∧ echoPos p c ≤ p + 4 := by
  unfold echoPos
  split <;> omega

/-- Leaving a full row that is not the last one is only a step in reading order. -/
theorem vgaWrap_above (hrow : 0 ≤ s.cursorRow ∧ s.cursorRow < 25)
    (hcol : 0 ≤ s.cursorCol ∧ s.cursorCol ≤ 80) (hpos : s.pos < 2000) :
    s.Wrote (vgaWrap s) s.pos s.char := by
  unfold Vga.pos at hpos
  unfold vgaWrap
  by_cases hfull : s.cursorCol ≥ vgaWidth
  · have hcol80 : s.cursorCol = 80 := by
      unfold vgaWidth at hfull
      omega
    rw [if_pos hfull, vgaNewline_above (by omega)]
    refine ⟨⟨⟨by simp only; omega, by simp only; omega⟩, ⟨by simp only; omega, by simp only; omega⟩⟩,
      ?_, rfl, fun _ _ _ => rfl⟩
    show 80 * (s.cursorRow + 1) + 0 = s.pos
    unfold Vga.pos
    omega
  · rw [if_neg hfull]
    exact ⟨⟨hrow, hcol.1, by unfold vgaWidth at hfull; omega⟩, rfl, rfl, fun _ _ _ => rfl⟩

theorem vgaWrap_last (hrow : s.cursorRow = 24) (hcol : s.cursorCol = 80) :
    (vgaWrap s).scrolls = s.scrolls + 1 := by
  unfold vgaWrap
  rw [if_pos (by rw [hcol]; decide)]
  exact (vgaNewline_last hrow).scrolls

/-- The screen between the stores of a character and the wrap: the character `c` stands in the
    cells up to `q`, the cursor stands behind them, and the row may be full. -/
structure Vga.Fills (s u : Vga) (q : ℤ) (c : UInt8) : Prop where
  row : u.cursorRow = s.cursorRow
  pos : 80 * s.cursorRow + u.cursorCol = q
  col : 0 ≤ u.cursorCol ∧ u.cursorCol ≤ 80
  scrolls : u.scrolls = s.scrolls
  char : ∀ k, 0 ≤ k → k < 2000 → u.char k = if s.pos ≤ k ∧ k < q then c else s.char k

/-- A tab fills the cells up to the tab stop with blanks. -/
theorem vgaTabFill_fills (h : s.OnScreen) :
    s.Fills (vgaTabFill ((s.cursorCol + 4) / 4 * 4) s) ((s.pos + 4) / 4 * 4) 32 := by
  obtain ⟨hrow, hcol⟩ := h
  have hoff := vgaOffset_pos s
  have hpaints := vgaTabFill_paints (show (s.cursorCol + 4) / 4 * 4 ≤ 80 by omega)
    ((s.cursorCol + 4) / 4 * 4 - s.cursorCol).toNat s hrow.1 hrow.2 hcol.1 (by omega)
  have hstop : (vgaTabFill ((s.cursorCol + 4) / 4 * 4) s).cursorCol
      = (s.cursorCol + 4) / 4 * 4 := hpaints.col
  refine ⟨hpaints.row, ?_, by omega, hpaints.scrolls, fun k _ _ => ?_⟩
  · rw [hstop]
    unfold Vga.pos
    omega
  · refine (hpaints.buffer _).trans ?_
    rw [hoff]
    unfold blanked
    by_cases hin : s.pos ≤ k ∧ k < (s.pos + 4) / 4 * 4
    · unfold Vga.pos at hin ⊢
      rw [if_pos (by omega), if_pos (by omega), if_pos hin]
    · rw [if_neg hin]
      unfold Vga.pos at hin ⊢
      rw [if_neg (by omega)]
      rfl

/-- An ordinary character fills the cell of the cursor. -/
theorem vgaStoreCell_fills (h : s.OnScreen) (c : UInt8) :
    s.Fills { vgaStoreCell s (vgaOffset s.cursorRow s.cursorCol) c with
      cursorCol := s.cursorCol + 1 } (s.pos + 1) c := by
  have hpos := h.pos_range
  have hcol := h.col
  have hoff := vgaOffset_pos s
  have hpaints := (Vga.Paints.self s).storeCell (c := c)
    (show 0 ≤ 2 * s.pos ∧ 2 * s.pos + 1 < 4000 by omega) fun _ => rfl
  rw [← hoff] at hpaints
  refine ⟨hpaints.row, ?_, ⟨show 0 ≤ s.cursorCol + 1 by omega, show s.cursorCol + 1 ≤ 80 by omega⟩,
    hpaints.scrolls, fun k _ _ => ?_⟩
  · show 80 * s.cursorRow + (s.cursorCol + 1) = s.pos + 1
    unfold Vga.pos
    omega
  · refine (hpaints.buffer _).trans ?_
    rw [hoff]
    by_cases hin : s.pos ≤ k ∧ k < s.pos + 1
    · rw [if_neg (by omega), if_pos (by omega), if_pos hin]
    · rw [if_neg (by omega), if_neg (by omega), if_neg hin]
      rfl

theorem vgaPutchar_fill (h : s.OnScreen) {c : UInt8} (hc : FillsCells c) :
    ∃ u : Vga, vgaPutchar s c = vgaWrap u
      ∧ s.Fills u (echoPos s.pos c) (if c = 9 then 32 else c) := by
  obtain ⟨hbs, hnl, hcr⟩ := hc
  unfold vgaPutchar echoPos
  rw [if_neg hbs, if_neg hnl, if_neg hcr]
  by_cases htab : c = 9
  · rw [if_pos htab, if_pos htab, if_pos htab]
    exact ⟨_, rfl, vgaTabFill_fills h⟩
  · rw [if_neg htab, if_neg htab, if_neg htab]
    exact ⟨_, rfl, vgaStoreCell_fills h c⟩

/-- A character that stays on the screen. -/
theorem vgaPutchar_echo (h : s.OnScreen) {c : UInt8} (hc : FillsCells c)
    (hq : echoPos s.pos c < 2000) :
    s.Wrote (vgaPutchar s c) (echoPos s.pos c) fun k =>
      if s.pos ≤ k ∧ k < echoPos s.pos c then (if c = 9 then 32 else c) else s.char k := by
  obtain ⟨u, hput, hfills⟩ := vgaPutchar_fill h hc
  have hpos : u.pos = echoPos s.pos c := by
    rw [← hfills.pos, ← hfills.row]
    rfl
  have hwrap := vgaWrap_above (s := u) (hfills.row ▸ h.row) hfills.col (hpos ▸ hq)
  rw [hput]
  exact ⟨hwrap.onScreen, hwrap.pos.trans hpos, hwrap.scrolls.trans hfills.scrolls,
    fun k h0 h1 => (hwrap.char k h0 h1).trans (hfills.char k h0 h1)⟩

/-- A character that fills the last cell scrolls. -/
theorem vgaPutchar_scrolls (h : s.OnScreen) {c : UInt8} (hc : FillsCells c)
    (hq : 2000 ≤ echoPos s.pos c) : (vgaPutchar s c).scrolls = s.scrolls + 1 := by
  obtain ⟨u, hput, hfills⟩ := vgaPutchar_fill h hc
  have hlast := h.row
  have hrow := hfills.row
  have hpos := hfills.pos
  have hcol := hfills.col
  rw [hput, vgaWrap_last (s := u) (by omega) (by omega), hfills.scrolls]

/-- A backspace behind the first cell. -/
theorem vgaPutchar_backspace (h : s.OnScreen) (hpos : 0 < s.pos) :
    s.Wrote (vgaPutchar s 8) (s.pos - 1) s.char := by
  have hrow := h.row
  have hcol := h.col
  unfold Vga.pos at hpos
  unfold vgaPutchar
  rw [if_pos rfl]
  by_cases hin : s.cursorCol > 0
  · rw [if_pos hin]
    refine ⟨⟨hrow, by simp only; omega, by simp only; omega⟩, ?_, rfl, fun _ _ _ => rfl⟩
    show 80 * s.cursorRow + (s.cursorCol - 1) = s.pos - 1
    unfold Vga.pos
    omega
  · rw [if_neg hin, if_pos (by omega)]
    simp only [vgaWidth]
    refine ⟨⟨⟨by simp only; omega, by simp only; omega⟩, by simp only; omega, by simp only; omega⟩,
      ?_, rfl, fun _ _ _ => rfl⟩
    show 80 * (s.cursorRow - 1) + (((80 : ℕ) : ℤ) - 1) = s.pos - 1
    unfold Vga.pos
    omega

/-- Backspace, blank, backspace: the cell before the cursor becomes blank, and the cursor stands on
    it. -/
theorem vgaPrint_erase (h : s.OnScreen) (hpos : 0 < s.pos) :
    s.Wrote (vgaPrint s [8, 32, 8]) (s.pos - 1) fun k => if k = s.pos - 1 then 32 else s.char k := by
  have hrange := h.pos_range
  have hprint : vgaPrint s [8, 32, 8] = vgaPutchar (vgaPutchar (vgaPutchar s 8) 32) 8 := rfl
  have h1 := vgaPutchar_backspace h hpos
  have hq : echoPos (vgaPutchar s 8).pos 32 = s.pos := by
    rw [h1.pos]
    unfold echoPos
    rw [if_neg (by decide)]
    omega
  have h2 := vgaPutchar_echo h1.onScreen (c := 32) ⟨by decide, by decide, by decide⟩ (by omega)
  have hpos2 : (vgaPutchar (vgaPutchar s 8) 32).pos = s.pos := h2.pos.trans hq
  have h3 := vgaPutchar_backspace h2.onScreen (by omega)
  rw [hprint]
  refine ⟨h3.onScreen, by rw [h3.pos, hpos2], by rw [h3.scrolls, h2.scrolls, h1.scrolls], ?_⟩
  intro k hk0 hk1
  rw [h3.char k hk0 hk1, h2.char k hk0 hk1, hq, h1.pos]
  by_cases hk : k = s.pos - 1
  · rw [if_pos (by omega), if_pos hk]
    rfl
  · rw [if_neg (by omega), if_neg hk, h1.char k hk0 hk1]

/-- Screens that are the same stay the same. -/
theorem Vga.Same.putchar (hst : s.Same t) (hs : s.OnScreen) {c : UInt8} (hc : FillsCells c)
    (hq : echoPos s.pos c < 2000) : (vgaPutchar s c).Same (vgaPutchar t c) := by
  have ht : t.OnScreen := ⟨hst.row ▸ hs.row, hst.col ▸ hs.col⟩
  have h1 := vgaPutchar_echo hs hc hq
  have h2 := vgaPutchar_echo ht hc (hst.pos ▸ hq)
  rw [← hst.pos] at h2
  exact h1.same h2 fun k h0 h1 => by rw [hst.char k h0 h1]

end BlackHole
