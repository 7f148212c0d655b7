import Mathlib.Data.List.Basic
import Mathlib.Logic.Function.Basic

set_option autoImplicit false

/-! # The keyboard driver

The PS/2 keyboard's interrupt handler translates a scancode of set 1 and puts the character into a
ring buffer of 256 cells; the readers take it out again. Characters are bytes, and the value 0 stands
for no character. -/

namespace BlackHole

/-! ## Scancode tables -/

def asciiRow (row : List Char) : List UInt8 := row.map Char.toUInt8

/-- `scancode_to_ascii[128]`. The initializer in the source lists 132 values, of which the last four
    (zeros) are beyond the array. -/
def scancodeToAscii : List UInt8 :=
  [0, 27] ++ asciiRow ['1', '2', '3', '4', '5', '6', '7', '8', '9', '0', '-', '='] ++ [8, 9]
    ++ asciiRow ['q', 'w', 'e', 'r', 't', 'y', 'u', 'i', 'o', 'p', '[', ']'] ++ [10, 0]
    -- the row ends in the quote (39) and the backquote (96), the next starts with the backslash (92)
    ++ asciiRow ['a', 's', 'd', 'f', 'g', 'h', 'j', 'k', 'l', ';'] ++ [39, 96, 0, 92]
    ++ asciiRow ['z', 'x', 'c', 'v', 'b', 'n', 'm', ',', '.', '/'] ++ [0]
    ++ asciiRow ['*'] ++ [0] ++ asciiRow [' '] ++ [0]
    ++ List.replicate 10 0 ++ List.replicate 2 0
    ++ [0, 0, 0] ++ asciiRow ['-'] ++ [0, 0, 0] ++ asciiRow ['+'] ++ List.replicate 5 0
    ++ List.replicate 44 0

/-- `scancode_to_ascii_shift[128]`, from an initializer of 132 values as well. -/
def scancodeToAsciiShift : List UInt8 :=
  [0, 27] ++ asciiRow ['!', '@', '#', '$', '%', '^', '&', '*', '(', ')', '_', '+'] ++ [8, 9]
    -- 123 and 125 are the braces
    ++ asciiRow ['Q', 'W', 'E', 'R', 'T', 'Y', 'U', 'I', 'O', 'P'] ++ [123, 125, 10, 0]
    -- the row ends in the double quote (34) and the tilde
    ++ asciiRow ['A', 'S', 'D', 'F', 'G', 'H', 'J', 'K', 'L', ':'] ++ [34, 126, 0, 124]
    ++ asciiRow ['Z', 'X', 'C', 'V', 'B', 'N', 'M', '<', '>', '?'] ++ [0]
    ++ asciiRow ['*'] ++ [0] ++ asciiRow [' '] ++ [0]
    ++ List.replicate 10 0
    ++ List.replicate 5 0 ++ asciiRow ['-'] ++ [0, 0, 0] ++ asciiRow ['+'] ++ List.replicate 5 0
    ++ List.replicate 44 0

example : scancodeToAscii.length = 128 ∧ scancodeToAsciiShift.length = 128 := ⟨rfl, rfl⟩

/-! ## The ring buffer -/

/-- `KEY_BUF_SIZE`. -/
def keyBufSize : ℕ := 256

/-- The static variables of the driver. -/
structure Keyboard where
  keyBuffer : ℕ → UInt8
  bufHead : ℕ
  bufTail : ℕ
  shiftHeld : Bool

/-- `keyboard_init`; the cells of the buffer keep what they hold. -/
def keyboardInit (k : Keyboard) : Keyboard :=
  { k with bufHead := 0, bufTail := 0, shiftHeld := false }

/-- The test `next != buf_tail` of `buf_push`: there is room for one more character. -/
def bufAccepts (k : Keyboard) : Bool := decide ((k.bufHead + 1) % keyBufSize ≠ k.bufTail)

/-- `buf_push`: a character that finds the buffer full is dropped. -/
def bufPush (k : Keyboard) (c : UInt8) : Keyboard :=
  if bufAccepts k then
    { k with keyBuffer := Function.update k.keyBuffer k.bufHead c,
             bufHead := (k.bufHead + 1) % keyBufSize }
  else k

/-- `buf_empty`. -/
def bufEmpty (k : Keyboard) : Bool := decide (k.bufTail = k.bufHead)

/-- `buf_pop`, when nothing interrupts it. -/
def bufPop (k : Keyboard) : UInt8 × Keyboard :=
  if bufEmpty k then (0, k)
  else (k.keyBuffer k.bufTail, { k with bufTail := (k.bufTail + 1) % keyBufSize })

/-! ## The interrupt handler -/

/-- The entry of the table that the Shift keys select. -/
def translate (shiftHeld : Bool) (scancode : UInt8) : UInt8 :=
  if shiftHeld then scancodeToAsciiShift.getD scancode.toNat 0
  else scancodeToAscii.getD scancode.toNat 0

def isShift (scancode : UInt8) : Bool := scancode = 0x2A || scancode = 0x36

/-- `keyboard_handle_scancode`. -/
def keyboardHandleScancode (k : Keyboard) (scancode : UInt8) : Keyboard :=
  -- key release (bit 7 set)
  if scancode &&& 0x80 ≠ 0 then
    if isShift (scancode &&& 0x7F) then { k with shiftHeld := false } else k
  else if isShift scancode then { k with shiftHeld := true }
  else
    let c := translate k.shiftHeld scancode
    if c ≠ 0 then bufPush k c else k

/-- The nonzero character that the handler hands to `buf_push`, if it hands it one. -/
def typed (k : Keyboard) (scancode : UInt8) : Option UInt8 :=
  if scancode &&& 0x80 ≠ 0 ∨ isShift scancode = true ∨ translate k.shiftHeld scancode = 0 then none
  else some (translate k.shiftHeld scancode)

theorem typed_ne_zero {k : Keyboard} {scancode c : UInt8} (h : typed k scancode = some c) :
    c ≠ 0 := by
  unfold typed at h
  split at h
  · cases h
  · next hc =>
      cases h
      exact fun h0 => hc (Or.inr (Or.inr h0))

/-- All that an interrupt does to the buffer is to push the character it translated, if any. -/
theorem keyboardHandleScancode_cases (k : Keyboard) (scancode : UInt8) :
    (∃ c, typed k scancode = some c ∧ keyboardHandleScancode k scancode = bufPush k c)
      ∨ typed k scancode = none
        ∧ ∃ shift, keyboardHandleScancode k scancode = { k with shiftHeld := shift } := by
  by_cases hrel : scancode &&& 0x80 ≠ 0
  · right
    refine ⟨if_pos (Or.inl hrel), ?_⟩
    unfold keyboardHandleScancode
    rw [if_pos hrel]
    split
    · exact ⟨false, rfl⟩
    · exact ⟨k.shiftHeld, rfl⟩
  by_cases hshift : isShift scancode = true
  · right
    refine ⟨if_pos (Or.inr (Or.inl hshift)), true, ?_⟩
    unfold keyboardHandleScancode
    rw [if_neg hrel, if_pos hshift]
  by_cases hzero : translate k.shiftHeld scancode = 0
  · right
    refine ⟨if_pos (Or.inr (Or.inr hzero)), k.shiftHeld, ?_⟩
    unfold keyboardHandleScancode
    rw [if_neg hrel, if_neg hshift]
    exact if_neg (not_not_intro hzero)
  · left
    refine ⟨translate k.shiftHeld scancode, if_neg (by tauto), ?_⟩
    unfold keyboardHandleScancode
    rw [if_neg hrel, if_neg hshift]
    exact if_pos hzero

end BlackHole
