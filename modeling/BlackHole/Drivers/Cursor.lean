import BlackHole.Drivers.Vga

set_option autoImplicit false

/-! # The text cursor stays on the screen

Every function of the driver keeps the cursor within the 25 rows and 80 columns, and with the cursor
there every store of the next call falls into the text buffer. -/

namespace BlackHole

/-- The cursor is on the screen, and all stores so far were. -/
structure Vga.Safe (s : Vga) : Prop where
  row : 0 ≤ s.cursorRow ∧ s.cursorRow < 25
  col : 0 ≤ s.cursorCol ∧ s.cursorCol < 80
  stored : ∀ o ∈ s.stored, 0 ≤ o ∧ o < 4000

theorem Vga.Paints.stored_range {s t : Vga} {f : ℤ → UInt8} (h : s.Paints t f)
    (hs : ∀ o ∈ s.stored, 0 ≤ o ∧ o < 4000) : ∀ o ∈ t.stored, 0 ≤ o ∧ o < 4000 := by
  intro o ho
  rcases h.stored o ho with hold | hnew
  · exact hs o hold
  · exact hnew

theorem Vga.Paints.safe {s t : Vga} {f : ℤ → UInt8} (h : s.Paints t f) (hs : s.Safe) : t.Safe :=
  ⟨h.row ▸ hs.row, h.col ▸ hs.col, h.stored_range hs.stored⟩

theorem Vga.Safe.newline {s : Vga} (hrow : 0 ≤ s.cursorRow ∧ s.cursorRow < 25)
    (hs : ∀ o ∈ s.stored, 0 ≤ o ∧ o < 4000) : (vgaNewline s).Safe := by
  rcases Int.lt_or_le s.cursorRow 24 with habove | hlast
  · rw [vgaNewline_above habove]
    exact ⟨⟨by show 0 ≤ s.cursorRow + 1; omega, by show s.cursorRow + 1 < 25; omega⟩,
      ⟨Int.le_refl 0, by show (0 : ℤ) < 80; omega⟩, hs⟩
  · have hpaints := vgaNewline_last (show s.cursorRow = 24 by omega)
    exact hpaints.safe ⟨by simp, by simp, hs⟩

/-- Leaving a full row brings a cursor behind the last column back onto the screen. -/
theorem Vga.Safe.wrap {s : Vga} (hrow : 0 ≤ s.cursorRow ∧ s.cursorRow < 25)
    (hcol : 0 ≤ s.cursorCol) (hs : ∀ o ∈ s.stored, 0 ≤ o ∧ o < 4000) : (vgaWrap s).Safe := by
  unfold vgaWrap
  split
  next => exact Vga.Safe.newline hrow hs
  next hin => exact ⟨hrow, ⟨hcol, by simp only [vgaWidth] at hin; omega⟩, hs⟩

/-- The offset of a cell of the screen. -/
theorem Vga.Safe.offset {s : Vga} (h : s.Safe) :
    0 ≤ vgaOffset s.cursorRow s.cursorCol ∧ vgaOffset s.cursorRow s.cursorCol + 1 < 4000 := by
  have hrow := h.row
  have hcol := h.col
  rw [vgaOffset_eq]
  omega

theorem Vga.Safe.putchar {s : Vga} (h : s.Safe) (c : UInt8) : (vgaPutchar s c).Safe := by
  obtain ⟨hrow, hcol, hs⟩ := id h
  unfold vgaPutchar
  split
  -- backspace
  next =>
    split
    next hpos =>
      exact ⟨hrow, ⟨by show 0 ≤ s.cursorCol - 1; omega, by show s.cursorCol - 1 < 80; omega⟩, hs⟩
    next =>
      split
      next hup =>
        refine ⟨⟨?_, ?_⟩, ⟨by show (0 : ℤ) ≤ vgaWidth - 1; decide,
          by show (vgaWidth : ℤ) - 1 < 80; decide⟩, hs⟩
        · show 0 ≤ s.cursorRow - 1
          omega
        · show s.cursorRow - 1 < 25
          omega
      next => exact h
  next =>
    split
    next => exact Vga.Safe.newline hrow hs
    next =>
      split
      -- carriage return
      next => exact ⟨hrow, ⟨Int.le_refl 0, by show (0 : ℤ) < 80; omega⟩, hs⟩
      next =>
        split
        -- tab
        next =>
          have hpaints := vgaTabFill_paints (show (s.cursorCol + 4) / 4 * 4 ≤ 80 by omega)
            ((s.cursorCol + 4) / 4 * 4 - s.cursorCol).toNat s hrow.1 hrow.2 hcol.1 (by omega)
          refine Vga.Safe.wrap (hpaints.row ▸ hrow) ?_ (hpaints.stored_range hs)
          rw [hpaints.col]
          show 0 ≤ (s.cursorCol + 4) / 4 * 4
          omega
        -- any other character
        next =>
          have hpaints := (Vga.Paints.self s).storeCell (c := c) h.offset fun _ => rfl
          refine Vga.Safe.wrap (hpaints.row ▸ hrow) ?_ (hpaints.stored_range hs)
          show 0 ≤ s.cursorCol + 1
          omega

theorem Vga.Safe.print {s : Vga} (h : s.Safe) (str : List UInt8) : (vgaPrint s str).Safe := by
  unfold vgaPrint
  induction str.takeWhile (· ≠ 0) generalizing s with
  | nil => exact h
  | cons c rest ih => exact ih (h.putchar c)

theorem Vga.Safe.setCursor {s : Vga} (h : s.Safe) (row col : ℤ) : (vgaSetCursor s row col).Safe := by
  have hrow : (if row ≥ 0 ∧ row < vgaHeight then { s with cursorRow := row } else s).Safe := by
    split
    next hr => exact ⟨hr, h.col, h.stored⟩
    next => exact h
  unfold vgaSetCursor
  generalize (if row ≥ 0 ∧ row < vgaHeight then { s with cursorRow := row } else s) = t at hrow ⊢
  show (if col ≥ 0 ∧ col < vgaWidth then { t with cursorCol := col } else t).Safe
  split
  next hc => exact ⟨hrow.row, hc, hrow.stored⟩
  next => exact hrow

theorem Vga.Safe.clear {s : Vga} (hs : ∀ o ∈ s.stored, 0 ≤ o ∧ o < 4000) : (vgaClear s).Safe := by
  exact (vgaClear_paints s).safe ⟨by simp, by simp, hs⟩

/-! ## Sequences of calls -/

/-- A call of one of the driver's functions. -/
inductive VgaCall where
  | putchar (c : UInt8)
  | print (str : List UInt8)
  | printAt (str : List UInt8) (row col : ℤ)
  | setCursor (row col : ℤ)
  | newline
  | setColor (fg bg : UInt8)
  | clear

def Vga.call (s : Vga) : VgaCall → Vga
  | .putchar c => vgaPutchar s c
  | .print str => vgaPrint s str
  | .printAt str row col => vgaPrintAt s str row col
  | .setCursor row col => vgaSetCursor s row col
  | .newline => vgaNewline s
  | .setColor fg bg => vgaSetColor s fg bg
  | .clear => vgaClear s

theorem Vga.Safe.call {s : Vga} (h : s.Safe) (c : VgaCall) : (s.call c).Safe := by
  cases c with
  | putchar c => exact h.putchar c
  | print str => exact h.print str
  | printAt str row col => exact (h.setCursor row col).print str
  | setCursor row col => exact h.setCursor row col
  | newline => exact Vga.Safe.newline h.row h.stored
  | setColor fg bg => exact ⟨h.row, h.col, h.stored⟩
  | clear => exact Vga.Safe.clear h.stored

theorem Vga.Safe.calls {s : Vga} (h : s.Safe) (calls : List VgaCall) :
    (calls.foldl Vga.call s).Safe := by
  induction calls generalizing s with
  | nil => exact h
  | cons c calls ih => exact ih (h.call c)

/-- After `vga_init` and any calls the cursor is on the screen, and every store since then was into
    the 4000 bytes of the text buffer. -/
theorem vga_calls_safe (s : Vga) (calls : List VgaCall) :
    let t := calls.foldl Vga.call (vgaInit { s with stored := [] })
    (0 ≤ t.cursorRow ∧ t.cursorRow < 25) ∧ (0 ≤ t.cursorCol ∧ t.cursorCol < 80)
      ∧ ∀ o ∈ t.stored, 0 ≤ o ∧ o ≤ 3999 := by
  intro t
  have hinit : (vgaInit { s with stored := [] }).Safe :=
    Vga.Safe.clear (fun o ho => absurd ho (List.not_mem_nil))
  obtain ⟨hrow, hcol, hstored⟩ := hinit.calls calls
  exact ⟨hrow, hcol, fun o ho => ⟨(hstored o ho).1, by have := (hstored o ho).2; omega⟩⟩

end BlackHole
