import BlackHole.Drivers.Keyboard
import Mathlib.Data.List.Induction

set_option autoImplicit false

/-! # The Shift keys

Two keys share the one flag `shift_held`: each press sets it, each release clears it. The bytes 0xE0
and 0xE1, which announce the codes of extended keys, are dropped as releases of keys that do not
exist, so an announced code counts as that of the plain key. What the flag says is therefore the kind
of the last action with the code of a Shift key (`shiftHeld_iff`), which is not always whether a Shift
key is down. -/

namespace BlackHole

/-! ## Keys -/

/-- A key by its scancode and by the bytes that announce it, which the plain keys do without. -/
structure Key where
  announced : List UInt8
  code : UInt8
  announced_subset : announced ⊆ [0xE0, 0xE1]
  code_lt : code < 0x80
deriving DecidableEq

/-- The plain key with a scancode. -/
def Key.plain (code : UInt8) (h : code < 0x80) : Key := ⟨[], code, List.nil_subset _, h⟩

def leftShift : Key := Key.plain 0x2A (by decide)

def rightShift : Key := Key.plain 0x36 (by decide)

inductive KeyAction where
  | press (key : Key)
  | release (key : Key)
deriving DecidableEq

def KeyAction.key : KeyAction → Key
  | .press key => key
  | .release key => key

/-- The scancodes the keyboard sends; a key that is released sends its code with bit 7 set. -/
def KeyAction.scancodes : KeyAction → List UInt8
  | .press key => key.announced ++ [key.code]
  | .release key => key.announced ++ [key.code ||| 0x80]

/-- The driver after the interrupts of these actions. -/
def keyActions (k : Keyboard) (actions : List KeyAction) : Keyboard :=
  (actions.flatMap KeyAction.scancodes).foldl keyboardHandleScancode k

/-- The driver when it gets the code of a key that is pressed after these actions. -/
def atPress (k : Keyboard) (actions : List KeyAction) (key : Key) : Keyboard :=
  key.announced.foldl keyboardHandleScancode (keyActions (keyboardInit k) actions)

/-- The table's character for the code is handed to `buf_push`, if there is one. -/
def pushEntry (table : List UInt8) (k : Keyboard) (code : UInt8) : Keyboard :=
  if table.getD code.toNat 0 ≠ 0 then bufPush k (table.getD code.toNat 0) else k

/-- With the flag as `k` has it, the handler takes the characters of the keys other than Shift from
    this table, whatever the buffer holds. -/
def TranslatesWith (table : List UInt8) (k : Keyboard) : Prop :=
  ∀ k' : Keyboard, k'.shiftHeld = k.shiftHeld → ∀ key : Key, isShift key.code = false →
    keyboardHandleScancode k' key.code = pushEntry table k' key.code

/-! ## What is down, and what the flag follows -/

/-- The key has been pressed and not been released since. -/
def Down (actions : List KeyAction) (key : Key) : Prop :=
  ∃ p rest, actions = p ++ .press key :: rest ∧ .release key ∉ rest

def ShiftDown (actions : List KeyAction) : Prop :=
  Down actions leftShift ∨ Down actions rightShift

/-- The last action of a key with the code of a Shift key. -/
def lastShift (actions : List KeyAction) : Option KeyAction :=
  (actions.filter fun a => isShift a.key.code).getLast?

/-- At each press of a key other than Shift the handler translates with the shifted table exactly
    while a Shift key is down, and with the other table otherwise. -/
def ShiftsWhileDown (k : Keyboard) (actions : List KeyAction) : Prop :=
  ∀ p key rest, actions = p ++ .press key :: rest → isShift key.code = false →
    (TranslatesWith scancodeToAsciiShift (atPress k p key) ↔ ShiftDown p)
      ∧ (TranslatesWith scancodeToAscii (atPress k p key) ↔ ¬ ShiftDown p)

/-- The flag has lost track: the last code of a Shift key was of a release although a Shift key is
    down, or it was of the press of an announced key and no Shift key is down. -/
def LostTrack (actions : List KeyAction) : Prop :=
  (∃ key, lastShift actions = some (.release key)) ∧ ShiftDown actions
    ∨ (∃ key, lastShift actions = some (.press key) ∧ key.announced ≠ []) ∧ ¬ ShiftDown actions

theorem down_append (p : List KeyAction) (a : KeyAction) (key : Key) :
    Down (p ++ [a]) key ↔ a = .press key ∨ Down p key ∧ a ≠ .release key := by
  constructor
  · rintro ⟨q, rest, hp, hrest⟩
    rcases List.eq_nil_or_concat rest with rfl | ⟨rest, b, rfl⟩
    · exact Or.inl (List.append_inj' hp rfl |>.2 |> List.singleton_inj.1)
    · rw [List.concat_eq_append, ← List.cons_append, ← List.append_assoc] at hp
      obtain ⟨rfl, hb⟩ := List.append_inj' hp rfl
      rw [List.singleton_inj.1 hb]
      rw [List.concat_eq_append, List.mem_append, not_or] at hrest
      exact Or.inr ⟨⟨q, rest, rfl, hrest.1⟩, fun h => hrest.2 (by simp [h])⟩
  · rintro (rfl | ⟨⟨q, rest, rfl, hrest⟩, ha⟩)
    · exact ⟨p, [], rfl, by simp⟩
    · exact ⟨q, rest ++ [a], by simp, by simp [hrest, ha.symm]⟩

theorem lastShift_append (p : List KeyAction) (a : KeyAction) :
    lastShift (p ++ [a]) = if isShift a.key.code then some a else lastShift p := by
  unfold lastShift
  split
  next ha => simp [List.filter_append, ha]
  next ha => simp [List.filter_append, ha]

/-- A Shift key that is down has been pressed. -/
theorem ShiftDown.lastShift_ne_none {p : List KeyAction} (h : ShiftDown p) :
    lastShift p ≠ none := by
  have hpressed : ∀ key, isShift key.code = true → Down p key → lastShift p ≠ none := by
    rintro key hkey ⟨q, rest, rfl, -⟩ hnone
    have hmem : KeyAction.press key
        ∈ (q ++ .press key :: rest).filter fun a => isShift a.key.code := by
      simp [KeyAction.key, hkey]
    rw [List.getLast?_eq_none_iff.1 hnone] at hmem
    exact List.not_mem_nil hmem
  rcases h with h | h
  · exact hpressed leftShift rfl h
  · exact hpressed rightShift rfl h

theorem isShift_iff (scancode : UInt8) :
    isShift scancode = true ↔ scancode = 0x2A ∨ scancode = 0x36 := by
  simp [isShift]

/-- Nothing with the code of a Shift key has happened since a plain Shift key was pressed. -/
theorem shiftDown_of_lastShift {p : List KeyAction} {key : Key}
    (hlast : lastShift p = some (.press key)) (hplain : key.announced = []) : ShiftDown p := by
  induction p using List.reverseRecOn with
  | nil => cases hlast
  | append_singleton p a ih =>
      rw [lastShift_append] at hlast
      split at hlast
      next ha =>
        cases hlast
        obtain ⟨announced, code, hsub, hlt⟩ := key
        obtain rfl : announced = [] := hplain
        rcases (isShift_iff code).1 ha with rfl | rfl
        · exact Or.inl ((down_append _ _ _).2 (Or.inl rfl))
        · exact Or.inr ((down_append _ _ _).2 (Or.inl rfl))
      next ha =>
        have hne : ∀ shift, isShift shift.code = true → a ≠ .release shift := by
          rintro shift hshift rfl
          exact ha hshift
        rcases ih hlast with h | h
        · exact Or.inl ((down_append _ _ _).2 (Or.inr ⟨h, hne _ rfl⟩))
        · exact Or.inr ((down_append _ _ _).2 (Or.inr ⟨h, hne _ rfl⟩))

/-! ## What one scancode does to the flag -/

theorem code_bits {c : UInt8} (h : c < 0x80) :
    c &&& 0x80 = 0 ∧ (c ||| 0x80) &&& 0x80 ≠ 0 ∧ (c ||| 0x80) &&& 0x7F = c := by
  have hall : ∀ n < 128, (UInt8.ofNat n) &&& 0x80 = 0 ∧ (UInt8.ofNat n ||| 0x80) &&& 0x80 ≠ 0
      ∧ (UInt8.ofNat n ||| 0x80) &&& 0x7F = UInt8.ofNat n := by decide
  have hc := hall c.toNat (UInt8.lt_iff_toNat_lt.1 h)
  rwa [UInt8.ofNat_toNat] at hc

/-- The code of a key that is pressed: a Shift key sets the flag, any other is looked up. -/
theorem keyboardHandleScancode_press (k : Keyboard) (key : Key) :
    keyboardHandleScancode k key.code =
      if isShift key.code then { k with shiftHeld := true }
      else pushEntry (if k.shiftHeld then scancodeToAsciiShift else scancodeToAscii) k key.code := by
  have hentry : translate k.shiftHeld key.code
      = (if k.shiftHeld then scancodeToAsciiShift else scancodeToAscii).getD key.code.toNat 0 := by
    unfold translate
    split <;> rfl
  unfold keyboardHandleScancode pushEntry
  rw [if_neg (not_not_intro (code_bits key.code_lt).1), hentry]

theorem keyboardHandleScancode_release (k : Keyboard) (key : Key) :
    keyboardHandleScancode k (key.code ||| 0x80) =
      if isShift key.code then { k with shiftHeld := false } else k := by
  obtain ⟨-, hrel, hcode⟩ := code_bits key.code_lt
  unfold keyboardHandleScancode
  rw [if_pos hrel, hcode]

@[simp] theorem foldl_announced (k : Keyboard) (key : Key) :
    key.announced.foldl keyboardHandleScancode k = k := by
  have hall : ∀ bytes : List UInt8, bytes ⊆ [0xE0, 0xE1] →
      bytes.foldl keyboardHandleScancode k = k := by
    intro bytes
    induction bytes with
    | nil => intro _; rfl
    | cons b bytes ih =>
        intro hsub
        rw [List.cons_subset] at hsub
        have hb : keyboardHandleScancode k b = k := by
          rcases List.mem_pair.1 hsub.1 with rfl | rfl <;> rfl
        rw [List.foldl_cons, hb]
        exact ih hsub.2
  exact hall key.announced key.announced_subset

@[simp] theorem bufPush_shiftHeld (k : Keyboard) (c : UInt8) :
    (bufPush k c).shiftHeld = k.shiftHeld := by
  unfold bufPush
  split <;> rfl

@[simp] theorem pushEntry_shiftHeld (table : List UInt8) (k : Keyboard) (code : UInt8) :
    (pushEntry table k code).shiftHeld = k.shiftHeld := by
  unfold pushEntry
  split
  · exact bufPush_shiftHeld k _
  · rfl

theorem keyActions_append (k : Keyboard) (p : List KeyAction) (a : KeyAction) :
    keyActions k (p ++ [a]) = a.scancodes.foldl keyboardHandleScancode (keyActions k p) := by
  simp [keyActions]

/-- One action: a press sets the flag, a release clears it, if the code is that of a Shift key. -/
theorem keyActions_shiftHeld (k : Keyboard) (p : List KeyAction) (a : KeyAction) :
    (keyActions k (p ++ [a])).shiftHeld =
      if isShift a.key.code then (match a with | .press _ => true | .release _ => false)
      else (keyActions k p).shiftHeld := by
  rw [keyActions_append]
  cases a with
  | press key =>
      simp only [KeyAction.scancodes, KeyAction.key, List.foldl_append, foldl_announced,
        List.foldl_cons, List.foldl_nil, keyboardHandleScancode_press]
      by_cases hshift : isShift key.code = true
      · rw [if_pos hshift]
        exact (if_pos hshift).symm
      · rw [if_neg hshift]
        exact (pushEntry_shiftHeld _ _ _).trans (if_neg hshift).symm
  | release key =>
      simp only [KeyAction.scancodes, KeyAction.key, List.foldl_append, foldl_announced,
        List.foldl_cons, List.foldl_nil, keyboardHandleScancode_release]
      by_cases hshift : isShift key.code = true
      · rw [if_pos hshift]
        exact (if_pos hshift).symm
      · rw [if_neg hshift]
        exact (if_neg hshift).symm

/-- The flag tells whether the last action with the code of a Shift key was a press. -/
theorem shiftHeld_iff (k : Keyboard) (p : List KeyAction) :
    (keyActions (keyboardInit k) p).shiftHeld = true
      ↔ ∃ key, lastShift p = some (.press key) := by
  induction p using List.reverseRecOn with
  | nil => simp [keyActions, keyboardInit, lastShift]
  | append_singleton p a ih =>
      rw [keyActions_shiftHeld, lastShift_append]
      split
      · cases a with
        | press key => simp
        | release key => simp
      · exact ih

/-- The letter A tells the two tables apart as soon as there is room in the buffer. -/
theorem pushEntry_ne (shift : Bool) :
    pushEntry scancodeToAsciiShift ⟨fun _ => 0, 0, 0, shift⟩ 0x1E
      ≠ pushEntry scancodeToAscii ⟨fun _ => 0, 0, 0, shift⟩ 0x1E := by
  have hcell : (pushEntry scancodeToAsciiShift ⟨fun _ => 0, 0, 0, shift⟩ 0x1E).keyBuffer 0
      ≠ (pushEntry scancodeToAscii ⟨fun _ => 0, 0, 0, shift⟩ 0x1E).keyBuffer 0 := by
    revert shift
    decide
  exact fun h => hcell (by rw [h])

/-- The flag decides which of the two tables the handler translates with, and not both serve. -/
theorem translatesWith_iff (k : Keyboard) :
    (TranslatesWith scancodeToAsciiShift k ↔ k.shiftHeld = true)
      ∧ (TranslatesWith scancodeToAscii k ↔ k.shiftHeld = false) := by
  have hused : TranslatesWith (if k.shiftHeld then scancodeToAsciiShift else scancodeToAscii) k := by
    intro k' hflag key hkey
    rw [keyboardHandleScancode_press, if_neg (by simp [hkey]), hflag]
  have hboth : ¬ (TranslatesWith scancodeToAsciiShift k ∧ TranslatesWith scancodeToAscii k) := by
    rintro ⟨hshift, hplain⟩
    have hshifted := hshift ⟨fun _ => 0, 0, 0, k.shiftHeld⟩ rfl (.plain 0x1E (by decide)) rfl
    have hlower := hplain ⟨fun _ => 0, 0, 0, k.shiftHeld⟩ rfl (.plain 0x1E (by decide)) rfl
    exact pushEntry_ne k.shiftHeld (hshifted.symm.trans hlower)
  cases hflag : k.shiftHeld with
  | true =>
      rw [hflag] at hused
      exact ⟨iff_of_true hused rfl, iff_of_false (fun h => hboth ⟨hused, h⟩) (by simp)⟩
  | false =>
      rw [hflag] at hused
      exact ⟨iff_of_false (fun h => hboth ⟨h, hused⟩) (by simp), iff_of_true hused rfl⟩

/-- The flag agrees with the keys that are down until it loses track of them. -/
theorem shiftHeld_iff_shiftDown (k : Keyboard) (p : List KeyAction) :
    ((keyActions (keyboardInit k) p).shiftHeld = true ↔ ShiftDown p) ↔ ¬ LostTrack p := by
  rw [shiftHeld_iff]
  unfold LostTrack
  rcases hlast : lastShift p with _ | a
  · have hup : ¬ ShiftDown p := fun h => h.lastShift_ne_none hlast
    simp [hup]
  · cases a with
    | press key =>
        by_cases hplain : key.announced = []
        · have hdown : ShiftDown p := shiftDown_of_lastShift hlast hplain
          simp [hdown]
        · simp [hplain]
    | release key => simp

/-! ## Translating with the right table -/

/-- The shifted table serves exactly the keys pressed while a Shift key is down, if and only if no
    key is pressed at a moment at which the flag has lost track. -/
theorem shift_table_iff (k : Keyboard) (actions : List KeyAction) :
    ShiftsWhileDown k actions ↔
      ∀ p key rest, actions = p ++ .press key :: rest → isShift key.code = false →
        ¬ LostTrack p := by
  refine forall_congr' fun p => forall_congr' fun key => forall_congr' fun rest =>
    imp_congr_right fun _ => imp_congr_right fun _ => ?_
  rw [atPress, foldl_announced, (translatesWith_iff _).1, (translatesWith_iff _).2,
    ← Bool.not_eq_true, not_iff_not, and_self, shiftHeld_iff_shiftDown]

/-- Both Shift keys go down, the right one up again, and the letter comes out in lower case. -/
theorem shift_table_right_released :
    ¬ ShiftsWhileDown ⟨fun _ => 0, 0, 0, false⟩
      [.press leftShift, .press rightShift, .release rightShift,
        .press (.plain 0x1E (by decide))] := by
  intro h
  have hdown : ShiftDown [.press leftShift, .press rightShift, .release rightShift] :=
    Or.inl ⟨[], [.press rightShift, .release rightShift], rfl, by decide⟩
  have hshift := (h [.press leftShift, .press rightShift, .release rightShift] _ [] rfl
    (by decide)).1.2 hdown
  rw [(translatesWith_iff _).1, atPress, foldl_announced, shiftHeld_iff] at hshift
  obtain ⟨key, hkey⟩ := hshift
  have hlast : lastShift [.press leftShift, .press rightShift, .release rightShift]
      = some (.release rightShift) := by decide
  rw [hlast] at hkey
  cases hkey

end BlackHole
