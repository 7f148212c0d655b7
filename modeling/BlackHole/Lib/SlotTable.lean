import Mathlib.Data.Fin.Tuple.Basic

set_option autoImplicit false

/-! # Tables of slots

A table has a fixed number of slots. Each is empty or holds a key and its value, and no key stands in
two of them. A key that is new goes into the first empty slot. As a map from keys to values
(`lookup`) the table is updated by every operation in the one key it names. -/

structure SlotTable (κ ν : Type*) (n : ℕ) where
  slot : Fin n → Option (κ × ν)
  unique : ∀ {i j a x y}, slot i = some (a, x) → slot j = some (a, y) → i = j

namespace SlotTable

variable {κ ν : Type*} {n : ℕ}

@[ext] theorem ext {t t' : SlotTable κ ν n} (h : ∀ k, t.slot k = t'.slot k) : t = t' := by
  cases t
  cases t'
  congr
  exact funext h

/-- All slots are empty. -/
def empty : SlotTable κ ν n := ⟨fun _ => none, fun h => nomatch h⟩

/-- What the slots hold, in their order. -/
def entries (t : SlotTable κ ν n) : List (κ × ν) := (List.finRange n).filterMap t.slot

/-- The first empty slot. -/
def firstEmpty (t : SlotTable κ ν n) : Option (Fin n) := Fin.find? fun k => (t.slot k).isNone

theorem firstEmpty_eq_some_iff {t : SlotTable κ ν n} {k : Fin n} :
    t.firstEmpty = some k ↔ t.slot k = none ∧ ∀ j < k, t.slot j ≠ none := by
  rw [firstEmpty, Fin.find?_eq_some_iff, Option.isNone_iff_eq_none]
  simp only [Option.isNone_eq_false_iff, Option.isSome_iff_ne_none]

theorem firstEmpty_eq_none_iff {t : SlotTable κ ν n} :
    t.firstEmpty = none ↔ ∀ k, t.slot k ≠ none := by
  rw [firstEmpty, Fin.find?_eq_none_iff]
  simp only [Option.isNone_eq_false_iff, Option.isSome_iff_ne_none]

variable [DecidableEq κ] {t : SlotTable κ ν n} {a b : κ} {x y : ν} {k : Fin n}

/-! ## The table as a map -/

/-- The value of a key. -/
def lookup (t : SlotTable κ ν n) (a : κ) : Option ν :=
  Fin.findSome? fun k => (t.slot k).bind fun e => if e.1 = a then some e.2 else none

theorem lookup_eq_some_iff : t.lookup a = some x ↔ ∃ k, t.slot k = some (a, x) := by
  rw [lookup, Fin.findSome?_eq_some_iff]
  simp only [Option.bind_eq_some_iff, Option.bind_eq_none_iff, Option.ite_none_right_eq_some,
    Option.some.injEq, Prod.exists]
  constructor
  · rintro ⟨k, ⟨b, y, hk, rfl, rfl⟩, -⟩
    exact ⟨k, hk⟩
  · rintro ⟨k, hk⟩
    refine ⟨k, ⟨a, x, hk, rfl, rfl⟩, fun j hj e he => if_neg ?_⟩
    rintro rfl
    exact absurd (t.unique he hk) hj.ne

theorem lookup_eq_none_iff : t.lookup a = none ↔ ∀ k x, t.slot k ≠ some (a, x) := by
  rw [Option.eq_none_iff_forall_ne_some]
  constructor
  · exact fun h k x hk => h x (lookup_eq_some_iff.2 ⟨k, hk⟩)
  · intro h x hx
    obtain ⟨k, hk⟩ := lookup_eq_some_iff.1 hx
    exact h k x hk

theorem lookup_of_slot (h : t.slot k = some (a, x)) : t.lookup a = some x :=
  lookup_eq_some_iff.2 ⟨k, h⟩

@[simp] theorem lookup_empty : (empty : SlotTable κ ν n).lookup a = none :=
  lookup_eq_none_iff.2 fun _ _ h => nomatch h

/-! ## Erasing -/

/-- The table without the key. -/
def erase (t : SlotTable κ ν n) (a : κ) : SlotTable κ ν n where
  slot k := (t.slot k).filter fun e => e.1 ≠ a
  unique hi hj := t.unique (Option.filter_eq_some_iff.1 hi).1 (Option.filter_eq_some_iff.1 hj).1

theorem slot_erase_eq_some :
    (t.erase a).slot k = some (b, y) ↔ t.slot k = some (b, y) ∧ b ≠ a := by
  rw [erase, Option.filter_eq_some_iff, decide_eq_true_eq]

theorem slot_erase_eq_none :
    (t.erase a).slot k = none ↔ t.slot k = none ∨ ∃ x, t.slot k = some (a, x) := by
  rcases hk : t.slot k with _ | ⟨b, y⟩
  · simp [erase, hk]
  · by_cases hb : b = a <;> simp [erase, hk, hb]

/-- A slot with another key, or with none, is left as it is. -/
theorem slot_erase_of_ne (h : ∀ x, t.slot k ≠ some (a, x)) : (t.erase a).slot k = t.slot k := by
  rcases hk : t.slot k with _ | ⟨b, y⟩
  · simp [erase, hk]
  · have hb : b ≠ a := by
      rintro rfl
      exact h y hk
    simp [erase, hk, hb]

/-- Erasing empties the slot of the key and leaves the others. -/
theorem slot_erase (h : t.slot k = some (a, x)) (j : Fin n) :
    (t.erase a).slot j = if j = k then none else t.slot j := by
  split
  · next hj => exact slot_erase_eq_none.2 (Or.inr ⟨x, hj ▸ h⟩)
  · next hj => exact slot_erase_of_ne fun y hy => hj (t.unique hy h)

theorem erase_of_lookup_eq_none (h : t.lookup a = none) : t.erase a = t :=
  ext fun k => slot_erase_of_ne (lookup_eq_none_iff.1 h k)

theorem lookup_erase : (t.erase a).lookup = Function.update t.lookup a none := by
  funext b
  refine Option.ext fun y => ?_
  rw [lookup_eq_some_iff]
  simp only [slot_erase_eq_some]
  by_cases hb : b = a
  · subst hb
    simp
  · rw [Function.update_of_ne hb, lookup_eq_some_iff]
    simp only [ne_eq, hb, not_false_eq_true, and_true]

/-! ## Inserting -/

/-- The key in slot `k`, and in no other. -/
def place (t : SlotTable κ ν n) (k : Fin n) (a : κ) (x : ν) : SlotTable κ ν n where
  slot := Function.update (t.erase a).slot k (some (a, x))
  unique {i j b y z} hi hj := by
    by_cases hik : i = k <;> by_cases hjk : j = k
    · rw [hik, hjk]
    · subst hik
      rw [Function.update_self] at hi
      rw [Function.update_of_ne hjk, slot_erase_eq_some] at hj
      cases hi
      exact absurd rfl hj.2
    · subst hjk
      rw [Function.update_self] at hj
      rw [Function.update_of_ne hik, slot_erase_eq_some] at hi
      cases hj
      exact absurd rfl hi.2
    · rw [Function.update_of_ne hik] at hi
      rw [Function.update_of_ne hjk] at hj
      exact (t.erase a).unique hi hj

theorem slot_place (j : Fin n) :
    (t.place k a x).slot j = if j = k then some (a, x) else (t.erase a).slot j :=
  Function.update_apply ..

/-- The key, which replaces its old entry, in the first slot that is empty then. -/
def insert (t : SlotTable κ ν n) (a : κ) (x : ν) : Option (SlotTable κ ν n) :=
  (t.erase a).firstEmpty.map fun k => t.place k a x

theorem insert_eq_none_iff :
    t.insert a x = none ↔ t.lookup a = none ∧ ∀ k, t.slot k ≠ none := by
  rw [insert, Option.map_eq_none_iff, firstEmpty_eq_none_iff]
  simp only [ne_eq, slot_erase_eq_none, not_or, not_exists]
  constructor
  · exact fun h => ⟨lookup_eq_none_iff.2 fun k y => (h k).2 y, fun k => (h k).1⟩
  · exact fun h k => ⟨h.2 k, lookup_eq_none_iff.1 h.1 k⟩

theorem lookup_place (hk : (t.erase a).slot k = none) :
    (t.place k a x).lookup = Function.update t.lookup a (some x) := by
  funext b
  refine Option.ext fun y => ?_
  rw [lookup_eq_some_iff]
  by_cases hb : b = a
  · subst hb
    rw [Function.update_self, Option.some.injEq]
    constructor
    · rintro ⟨j, hj⟩
      rw [slot_place] at hj
      split at hj
      · simpa using hj
      · exact absurd rfl (slot_erase_eq_some.1 hj).2
    · rintro rfl
      exact ⟨k, by rw [slot_place, if_pos rfl]⟩
  · rw [Function.update_of_ne hb, lookup_eq_some_iff]
    constructor
    · rintro ⟨j, hj⟩
      rw [slot_place] at hj
      split at hj
      · exact absurd (congrArg Prod.fst (Option.some.inj hj)).symm hb
      · exact ⟨j, (slot_erase_eq_some.1 hj).1⟩
    · rintro ⟨j, hj⟩
      have hold : (t.erase a).slot j = some (b, y) := slot_erase_eq_some.2 ⟨hj, hb⟩
      refine ⟨j, ?_⟩
      rw [slot_place, if_neg]
      · exact hold
      · rintro rfl
        rw [hk] at hold
        cases hold

theorem lookup_insert {t' : SlotTable κ ν n} (h : t.insert a x = some t') :
    t'.lookup = Function.update t.lookup a (some x) := by
  obtain ⟨k, hk, rfl⟩ := Option.map_eq_some_iff.1 h
  exact lookup_place (firstEmpty_eq_some_iff.1 hk).1

end SlotTable
