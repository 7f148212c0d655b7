import Mathlib.Data.Nat.Basic
import Mathlib.Data.Int.Basic
import Mathlib.Data.List.TakeWhile
import Mathlib.Data.UInt

set_option autoImplicit false

/-! # Strings

`strlen` and the comparisons of `libc/string.c`. A string is the list of the bytes behind a `const char *`: it
ends at its first NUL or with the list. -/

namespace BlackHole

/-- The bytes of a string literal. -/
def cstr (s : String) : List UInt8 := s.toList.map fun c => UInt8.ofNat c.toNat

/-- `strlen` -/
def strlen (s : List UInt8) : ℕ := (s.takeWhile (· ≠ 0)).length

/-- `strcmp` -/
def strcmp : List UInt8 → List UInt8 → ℤ
  | c :: s1, c' :: s2 => if c ≠ 0 ∧ c = c' then strcmp s1 s2 else c.toNat - c'.toNat
  | c :: _, [] => c.toNat
  | [], c' :: _ => -c'.toNat
  | [], [] => 0

/-- `strncmp` -/
def strncmp : List UInt8 → List UInt8 → ℕ → ℤ
  | _, _, 0 => 0
  | c :: s1, c' :: s2, n + 1 =>
      if c ≠ 0 ∧ c = c' then strncmp s1 s2 n else c.toNat - c'.toNat
  | c :: _, [], _ + 1 => c.toNat
  | [], c' :: _, _ + 1 => -c'.toNat
  | [], [], _ + 1 => 0

/-- Without a NUL a string ends with the list. -/
theorem strlen_of_notMem {l : List UInt8} (h : 0 ∉ l) : strlen l = l.length := by
  unfold strlen
  rw [List.takeWhile_eq_self_iff.2]
  intro c hc
  rw [decide_eq_true_eq]
  rintro rfl
  exact h hc

theorem toNat_ne_zero {c : UInt8} (h : c ≠ 0) : (c.toNat : ℤ) ≠ 0 := fun h0 =>
  h (UInt8.toNat_inj.1 (by exact_mod_cast h0))

/-- `strcmp` returns zero for equal strings only. -/
theorem strcmp_eq_zero {s1 s2 : List UInt8} (h1 : 0 ∉ s1) (h2 : 0 ∉ s2) (h : strcmp s1 s2 = 0) :
    s1 = s2 := by
  induction s1 generalizing s2 with
  | nil =>
      cases s2 with
      | nil => rfl
      | cons c' s2 =>
          have hc' : c' ≠ 0 := fun h0 => h2 (h0 ▸ List.mem_cons_self ..)
          exact absurd (Int.neg_eq_zero.1 h) (toNat_ne_zero hc')
  | cons c s1 ih =>
      have hc : c ≠ 0 := fun h0 => h1 (h0 ▸ List.mem_cons_self ..)
      cases s2 with
      | nil => exact absurd h (toNat_ne_zero hc)
      | cons c' s2 =>
          rw [strcmp] at h
          split at h
          next heq =>
            rw [heq.2, ih (fun hmem => h1 (List.mem_cons_of_mem _ hmem))
              (fun hmem => h2 (List.mem_cons_of_mem _ hmem)) h]
          next hne => exact absurd ⟨hc, UInt8.toNat_inj.1 (by omega)⟩ hne

theorem strcmp_self (s : List UInt8) : strcmp s s = 0 := by
  induction s with
  | nil => rfl
  | cons c s ih =>
      rw [strcmp]
      split
      · exact ih
      · exact sub_self _

theorem strcmp_eq_zero_iff {s1 s2 : List UInt8} (h1 : 0 ∉ s1) (h2 : 0 ∉ s2) :
    strcmp s1 s2 = 0 ↔ s1 = s2 :=
  ⟨strcmp_eq_zero h1 h2, fun h => h ▸ strcmp_self s1⟩

/-- Strings that begin differently differ. -/
theorem strcmp_ne_zero_of_head {c : UInt8} (hc : c ≠ 0) {s2 : List UInt8} (h : s2.head? ≠ some c)
    (s1 : List UInt8) : strcmp (c :: s1) s2 ≠ 0 := by
  cases s2 with
  | nil => exact toNat_ne_zero hc
  | cons c' s2 =>
      have hne : c ≠ c' := fun heq => h (by rw [heq]; rfl)
      rw [strcmp, if_neg fun heq => hne heq.2]
      exact fun h0 => hne (UInt8.toNat_inj.1 (by omega))

theorem strncmp_ne_zero_of_head {c : UInt8} (hc : c ≠ 0) {s2 : List UInt8} (h : s2.head? ≠ some c)
    (s1 : List UInt8) (n : ℕ) : strncmp (c :: s1) s2 (n + 1) ≠ 0 := by
  cases s2 with
  | nil =>
      rw [strncmp]
      exact toNat_ne_zero hc
  | cons c' s2 =>
      have hne : c ≠ c' := fun heq => h (by rw [heq]; rfl)
      rw [strncmp, if_neg fun heq => hne heq.2]
      exact fun h0 => hne (UInt8.toNat_inj.1 (by omega))

/-- `strncmp` compares what `n` characters leave of the strings. -/
theorem strncmp_eq_strcmp_take (s1 s2 : List UInt8) (n : ℕ) :
    strncmp s1 s2 n = strcmp (s1.take n) (s2.take n) := by
  induction n generalizing s1 s2 with
  | zero => rw [strncmp, List.take_zero, List.take_zero, strcmp]
  | succ n ih =>
      cases s1 with
      | nil => cases s2 <;> rfl
      | cons c s1 =>
          cases s2 with
          | nil => rfl
          | cons c' s2 => rw [strncmp, List.take_succ_cons, List.take_succ_cons, strcmp, ih]

/-- `strncmp` with the length of its second string finds a prefix. -/
theorem strncmp_eq_zero_iff_prefix {s p : List UInt8} (hs : 0 ∉ s) (hp : 0 ∉ p) :
    strncmp s p p.length = 0 ↔ p <+: s := by
  have htake : 0 ∉ s.take p.length := fun h => hs (List.mem_of_mem_take h)
  rw [strncmp_eq_strcmp_take, List.take_length, strcmp_eq_zero_iff htake hp, List.prefix_iff_eq_take,
    eq_comm]

/-- `strncmp` finds a prefix. -/
theorem strncmp_append {p : List UInt8} (h0 : 0 ∉ p) (s : List UInt8) :
    strncmp (p ++ s) p p.length = 0 := by
  induction p with
  | nil => rw [List.length_nil, strncmp]
  | cons c p ih =>
      have hc : c ≠ 0 := fun h => h0 (h ▸ List.mem_cons_self ..)
      rw [List.cons_append, List.length_cons, strncmp, if_pos ⟨hc, rfl⟩]
      exact ih fun h => h0 (List.mem_cons_of_mem _ h)

end BlackHole
