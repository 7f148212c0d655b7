import BlackHole.Drivers.Echo
import BlackHole.Drivers.Keyboard
import Mathlib.Data.List.Infix

set_option autoImplicit false

/-! # Reading a line

`keyboard_readline` echoes what it puts into the line buffer and erases on a backspace. The text it
holds and the position of the cursor follow from the characters alone (`editRun`, `textPos`), and the
screen agrees with them exactly as long as no backspace takes back a tab of more than one cell. -/

namespace BlackHole

/-! ## The driver -/

/-- The locals of `keyboard_readline` and the screen it echoes to. -/
structure Editor where
  buf : ℕ → UInt8
  i : ℕ
  vga : Vga

/-- The body of the loop once `keyboard_read` has returned `c`; `Sum.inl` leaves the loop. -/
def readlinePass (e : Editor) (c : UInt8) : Editor ⊕ Editor :=
  if c = 10 then .inl { e with vga := vgaPutchar e.vga 10 }
  else if c = 8 then
    if e.i > 0 then .inr { e with i := e.i - 1, vga := vgaPrint e.vga [8, 32, 8] } else .inr e
  else .inr { buf := Function.update e.buf e.i c, i := e.i + 1, vga := vgaPutchar e.vga c }

/-- The loop on a stream of characters: the line and the characters left in the stream, or `none`
    when `keyboard_read` waits for one that never comes. -/
def readlineLoop (max : ℤ) : Editor → List UInt8 → Option (Editor × List UInt8)
  | e, [] => if (e.i : ℤ) < max - 1 then none else some (e, [])
  | e, c :: stream =>
      if (e.i : ℤ) < max - 1 then
        match readlinePass e c with
        | .inl e' => some (e', stream)
        | .inr e' => readlineLoop max e' stream
      else some (e, c :: stream)

/-- `keyboard_readline`. -/
def keyboardReadline (max : ℤ) (e : Editor) (stream : List UInt8) : Option (Editor × List UInt8) :=
  (readlineLoop max { e with i := 0 } stream).map fun r =>
    ({ r.1 with buf := Function.update r.1.buf r.1.i 0 }, r.2)

/-- The locals at the head of the loop after it has processed these characters and gone on. -/
def readlineAfter (max : ℤ) : Editor → List UInt8 → Option Editor
  | e, [] => some e
  | e, c :: p =>
      if (e.i : ℤ) < max - 1 then
        match readlinePass e c with
        | .inl _ => none
        | .inr e' => readlineAfter max e' p
      else none

/-- The text in `buf[0..i)`. -/
def Editor.held (e : Editor) : List UInt8 := (List.range e.i).map e.buf

/-- The screen after a text has been echoed. -/
def echo (s : Vga) (text : List UInt8) : Vga := text.foldl vgaPutchar s

/-- The characters the keyboard driver can put into its buffer. -/
def Deliverable (c : UInt8) : Prop := c ≠ 0 ∧ (c ∈ scancodeToAscii ∨ c ∈ scancodeToAsciiShift)

/-- A loop that has processed `p` goes on with what follows. -/
theorem readlineLoop_append {max : ℤ} {e e' : Editor} {p : List UInt8}
    (h : readlineAfter max e p = some e') (rest : List UInt8) :
    readlineLoop max e (p ++ rest) = readlineLoop max e' rest := by
  induction p generalizing e with
  | nil => rw [Option.some.inj h, List.nil_append]
  | cons c p ih =>
      unfold readlineAfter at h
      split at h
      next hroom =>
        rcases hpass : readlinePass e c with e1 | e1
        · simp [hpass] at h
        · simp only [hpass] at h
          rw [List.cons_append, readlineLoop, if_pos hroom, hpass]
          exact ih h
      next => cases h

theorem readlineAfter_append {max : ℤ} {e e' : Editor} {p : List UInt8}
    (h : readlineAfter max e p = some e') (rest : List UInt8) :
    readlineAfter max e (p ++ rest) = readlineAfter max e' rest := by
  induction p generalizing e with
  | nil => rw [Option.some.inj h, List.nil_append]
  | cons c p ih =>
      unfold readlineAfter at h
      split at h
      next hroom =>
        rcases hpass : readlinePass e c with e1 | e1
        · simp [hpass] at h
        · simp only [hpass] at h
          rw [List.cons_append, readlineAfter, if_pos hroom, hpass]
          exact ih h
      next => cases h

/-- No key yields a carriage return. -/
theorem Deliverable.fillsCells {c : UInt8} (h : Deliverable c) (hbs : c ≠ 8) (hnl : c ≠ 10) :
    FillsCells c := by
  have htables : ∀ d ∈ scancodeToAscii ++ scancodeToAsciiShift, d ≠ 13 := by decide +kernel
  exact ⟨hbs, hnl, htables c (List.mem_append.2 h.2)⟩

end BlackHole
