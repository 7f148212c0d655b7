import Mathlib.Data.List.GetD
import BlackHole.Fat16.Directory

set_option autoImplicit false

/-! # 8.3 names

What `to_fat_name` can produce: the names that some input denotes (`nameable_iff`). -/

namespace BlackHole

open Bytes

/-! ## The copying loop -/

/-- Store the upper-cased characters from index `j` on. -/
def putUpper : List UInt8 → ℕ → FatName → FatName
  | [], _, out => out
  | c :: bs, j, out => putUpper bs (j + 1) (out.setByte j (upperCase c))

theorem byte_putUpper {bs : List UInt8} {j k : ℕ} {out : FatName} (hk : k < 11) :
    (putUpper bs j out).byte k
      = if j ≤ k ∧ k < j + bs.length then upperCase (bs.getD (k - j) 0) else out.byte k := by
  induction bs generalizing j out with
  | nil =>
      rw [if_neg (by simp)]
      rfl
  | cons c bs ih =>
      rw [putUpper, ih]
      by_cases hj : k = j
      · subst hj
        rw [if_neg (by omega), if_pos (by simp), Buf.byte_setByte_self hk]
        simp
      · rw [Buf.byte_setByte_of_ne hj]
        by_cases hin : j + 1 ≤ k ∧ k < j + 1 + bs.length
        · rw [if_pos hin, if_pos (by simp only [List.length_cons]; omega),
            show k - j = k - (j + 1) + 1 by omega, List.getD_cons_succ]
        · rw [if_neg hin, if_neg (by simp only [List.length_cons]; omega)]

/-- Characters that do not stop the loop and fit below its limit are all copied. -/
theorem copyUpper_append (stop : UInt8 → Bool) (limit : ℕ) {bs : List UInt8}
    (hbs : ∀ c ∈ bs, c ≠ 0 ∧ ¬ stop c) (rest : List UInt8) {j : ℕ} (hj : j + bs.length ≤ limit)
    (out : FatName) :
    copyUpper stop limit (bs ++ rest) j out
      = copyUpper stop limit rest (j + bs.length) (putUpper bs j out) := by
  induction bs generalizing j out with
  | nil => rfl
  | cons c bs ih =>
      obtain ⟨hc0, hstop⟩ := hbs c (List.mem_cons_self ..)
      rw [List.length_cons] at hj
      rw [List.cons_append, copyUpper, if_pos ⟨hc0, hstop, by omega⟩,
        ih (fun b hb => hbs b (List.mem_cons_of_mem _ hb)) (by omega), List.length_cons, putUpper,
        Nat.add_right_comm, Nat.add_assoc]

/-- What holds of the bytes stored, holds of the name. -/
theorem copyUpper_forall (P : ℕ → UInt8 → Prop) (stop : UInt8 → Bool) (limit j₀ : ℕ)
    (hP : ∀ c k, c ≠ 0 → ¬ stop c → j₀ ≤ k → P k (upperCase c)) (input : List UInt8) {j : ℕ}
    (hj : j₀ ≤ j) {out : FatName} (hout : ∀ k < 11, P k (out.byte k)) :
    ∀ k < 11, P k ((copyUpper stop limit input j out).2.byte k) := by
  induction input generalizing j out with
  | nil => exact hout
  | cons c input ih =>
      rw [copyUpper]
      split
      next hc =>
        refine ih (by omega) fun k hk => ?_
        by_cases hkj : k = j
        · subst hkj
          rw [Buf.byte_setByte_self hk]
          exact hP c k hc.1 hc.2.1 hj
        · rw [Buf.byte_setByte_of_ne hkj]
          exact hout k hk
      next => exact hout

/-! ## The names with an input -/

/-- What byte `k` of a name can be: not a NUL, not a lower-case letter, and in the base no dot. -/
def NameByte (k : ℕ) (c : UInt8) : Prop := c ≠ 0 ∧ ¬ IsLower c ∧ (k < 8 → c ≠ 0x2E)

instance (k : ℕ) (c : UInt8) : Decidable (NameByte k c) :=
  inferInstanceAs (Decidable (_ ∧ _ ∧ (_ → _)))

/-- A name that some input denotes. -/
def Nameable (n : FatName) : Prop := ∀ k < 11, NameByte k (n.byte k)

instance (n : FatName) : Decidable (Nameable n) := inferInstanceAs (Decidable (∀ k < 11, _))

theorem toFatName_nameable (input : List UInt8) : Nameable (toFatName input) := by
  have hblank : ∀ k < 11, NameByte k ((Buf.ofFn (fun _ => 0x20) : FatName).byte k) := by
    intro k hk
    rw [Buf.byte_ofFn _ hk]
    exact ⟨by decide, by decide, fun _ => by decide⟩
  have hbase := copyUpper_forall NameByte (fun c => c == 0x2E) 8 0
    (fun c k hc hdot _ =>
      ⟨upperCase_ne_zero hc, upperCase_not_lower c, fun _ => upperCase_ne_dot (by simpa using hdot)⟩)
    input le_rfl hblank
  simp only [toFatName]
  split
  · split
    · refine copyUpper_forall NameByte _ _ 8 (fun c k hc _ hk => ?_) _ le_rfl hbase
      exact ⟨upperCase_ne_zero hc, upperCase_not_lower c, fun h => absurd h (by omega)⟩
    · exact hbase
  · exact hbase

/-- The input `"BASE.EXT"` of a name, with all its spaces. -/
def nameInput (n : FatName) : List UInt8 :=
  (List.range 8).map n.byte ++ 0x2E :: (List.range' 8 3).map n.byte

theorem toFatName_nameInput {n : FatName} (h : Nameable n) : toFatName (nameInput n) = n := by
  have hbase : ∀ c ∈ (List.range 8).map n.byte, c ≠ 0 ∧ ¬ (c == 0x2E) = true := by
    intro c hc
    obtain ⟨k, hk, rfl⟩ := List.mem_map.1 hc
    have hk := List.mem_range.1 hk
    obtain ⟨h0, -, hdot⟩ := h k (by omega)
    exact ⟨h0, by rw [beq_iff_eq]; exact hdot hk⟩
  have hext : ∀ c ∈ (List.range' 8 3).map n.byte, c ≠ 0 ∧ ¬ false = true := by
    intro c hc
    obtain ⟨k, hk, rfl⟩ := List.mem_map.1 hc
    have hk := List.mem_range'_1.1 hk
    exact ⟨(h k (by omega)).1, by decide⟩
  have hcopy := copyUpper_append _ 8 hbase (0x2E :: (List.range' 8 3).map n.byte)
    (j := 0) (by simp) (Buf.ofFn fun _ => 0x20)
  have hcopy' := copyUpper_append (fun _ => false) 11 hext [] (j := 8) (by simp)
    (putUpper ((List.range 8).map n.byte) 0 (Buf.ofFn fun _ => 0x20))
  rw [copyUpper, if_neg (by simp)] at hcopy
  rw [List.append_nil] at hcopy'
  simp only [toFatName, nameInput, hcopy, if_true, hcopy', copyUpper]
  apply Buf.ext_byte
  intro k hk
  have hup := upperCase_of_not_lower (h k hk).2.1
  rw [byte_putUpper hk]
  split
  next hin =>
    rw [List.length_map, List.length_range'] at hin
    rw [List.getD_eq_getElem _ _ (by simp; omega), List.getElem_map, List.getElem_range',
      show 8 + 1 * (k - 8) = k by omega, hup]
  next hout =>
    rw [List.length_map, List.length_range'] at hout
    rw [byte_putUpper hk, if_pos (by simp; omega), List.getD_eq_getElem _ _ (by simp; omega),
      List.getElem_map, List.getElem_range, Nat.sub_zero, hup]

/-- The names that some input denotes. -/
theorem nameable_iff {n : FatName} : Nameable n ↔ ∃ input, toFatName input = n :=
  ⟨fun h => ⟨nameInput n, toFatName_nameInput h⟩, fun ⟨input, h⟩ => h ▸ toFatName_nameable input⟩

end BlackHole
