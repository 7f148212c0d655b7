import Mathlib.Data.List.Basic
import Mathlib.Data.Nat.Basic
import Mathlib.Logic.Function.Basic

set_option autoImplicit false

/-! # Circular buffers

A queue in an array of `n` cells between two wrapping indices: elements enter at `head` and leave at
`tail`. One cell stays unused, so that `head = tail` means empty and never full. `Holds` relates the
array and the two indices to the queue, oldest element first. -/

namespace Circular

universe u

variable {α : Type u} {n head tail : ℕ} {cells : ℕ → α} {xs : List α} {x : α}

/-- The array with these indices holds the queue `xs`, oldest element first. -/
structure Holds (n : ℕ) (cells : ℕ → α) (head tail : ℕ) (xs : List α) : Prop where
  tail_lt : tail < n
  room : xs.length < n
  head_eq : head = (tail + xs.length) % n
  cell : ∀ i (hi : i < xs.length), cells ((tail + i) % n) = xs[i]

/-- The elements between the two indices, oldest first. -/
def contents (n : ℕ) (cells : ℕ → α) (head tail : ℕ) : List α :=
  (List.range ((head + n - tail) % n)).map fun i => cells ((tail + i) % n)

/-! ## Positions -/

/-- An index that wraps at most once. -/
theorem wrap_eq {a i : ℕ} (ha : a < n) (hi : i < n) :
    (a + i) % n = if a + i < n then a + i else a + i - n := by
  split
  next h => exact Nat.mod_eq_of_lt h
  next h => rw [Nat.mod_eq_sub_mod (by omega), Nat.mod_eq_of_lt (by omega)]

theorem wrap_inj {a i j : ℕ} (ha : a < n) (hi : i < n) (hj : j < n)
    (h : (a + i) % n = (a + j) % n) : i = j := by
  rw [wrap_eq ha hi, wrap_eq ha hj] at h
  split at h <;> split at h <;> omega

/-- The index after `head` is where the queue would end with one element more. -/
theorem Holds.next_head (h : Holds n cells head tail xs) :
    (head + 1) % n = (tail + (xs.length + 1)) % n := by
  rw [h.head_eq, Nat.mod_add_mod, Nat.add_assoc]

theorem Holds.tail_eq (h : Holds n cells head tail xs) : tail = (tail + 0) % n := by
  rw [Nat.add_zero, Nat.mod_eq_of_lt h.tail_lt]

/-! ## Empty and full -/

theorem Holds.empty (ht : tail < n) : Holds n cells tail tail [] where
  tail_lt := ht
  room := by simp only [List.length_nil]; omega
  head_eq := by rw [List.length_nil, Nat.add_zero, Nat.mod_eq_of_lt ht]
  cell := fun i hi => absurd hi (by simp)

theorem Holds.isEmpty_iff (h : Holds n cells head tail xs) : tail = head ↔ xs = [] := by
  constructor
  · intro heq
    have hlen : 0 = xs.length := by
      apply wrap_inj h.tail_lt (by have := h.tail_lt; omega) h.room
      rw [← h.tail_eq, ← h.head_eq, heq]
    exact List.length_eq_zero_iff.1 hlen.symm
  · rintro rfl
    rw [h.head_eq, List.length_nil, ← h.tail_eq]

/-- The next head meets the tail exactly when only the unused cell is left. -/
theorem Holds.isFull_iff (h : Holds n cells head tail xs) :
    (head + 1) % n = tail ↔ xs.length + 1 = n := by
  have hroom := h.room
  rw [h.next_head]
  constructor
  · intro heq
    by_contra hne
    have hlen : xs.length + 1 = 0 :=
      wrap_inj h.tail_lt (by omega) (by omega) (heq.trans h.tail_eq)
    omega
  · intro hlen
    rw [hlen, Nat.add_mod_right, Nat.mod_eq_of_lt h.tail_lt]

/-! ## The two ends -/

/-- Storing at the head, when a cell besides the unused one is left, appends to the queue. -/
theorem Holds.push (h : Holds n cells head tail xs) (hroom : xs.length + 1 < n) (x : α) :
    Holds n (Function.update cells head x) ((head + 1) % n) tail (xs ++ [x]) where
  tail_lt := h.tail_lt
  room := by simpa using hroom
  head_eq := by rw [h.next_head, List.length_append, List.length_singleton]
  cell := by
    intro i hi
    rw [List.length_append, List.length_singleton] at hi
    rcases Nat.lt_or_eq_of_le (Nat.lt_succ_iff.1 hi) with hlt | rfl
    · have hne : (tail + i) % n ≠ head := by
        rw [h.head_eq]
        intro heq
        have := wrap_inj h.tail_lt (by omega) h.room heq
        omega
      rw [Function.update_of_ne hne, h.cell i hlt, List.getElem_append_left hlt]
    · rw [← h.head_eq, Function.update_self]
      simp

theorem Holds.front (h : Holds n cells head tail (x :: xs)) : cells tail = x := by
  have h0 := h.cell 0 (by simp)
  rwa [← h.tail_eq] at h0

/-- Moving the tail on removes the oldest element. -/
theorem Holds.pop (h : Holds n cells head tail (x :: xs)) :
    Holds n cells head ((tail + 1) % n) xs := by
  have hn : 0 < n := by have := h.tail_lt; omega
  refine ⟨Nat.mod_lt _ hn, ?_, ?_, ?_⟩
  · have hroom := h.room
    rw [List.length_cons] at hroom
    omega
  · rw [h.head_eq, List.length_cons, Nat.mod_add_mod, Nat.add_assoc, Nat.add_comm 1]
  · intro i hi
    have hcell := h.cell (i + 1) (by simpa using hi)
    rw [Nat.mod_add_mod, Nat.add_assoc, Nat.add_comm 1]
    simpa using hcell

/-- The queue is what stands between the indices. -/
theorem Holds.contents_eq (h : Holds n cells head tail xs) : contents n cells head tail = xs := by
  have hlen : (head + n - tail) % n = xs.length := by
    have ht := h.tail_lt
    have hroom := h.room
    rw [h.head_eq, wrap_eq ht hroom]
    split
    next => rw [show tail + xs.length + n - tail = xs.length + n by omega, Nat.add_mod_right,
      Nat.mod_eq_of_lt hroom]
    next => rw [show tail + xs.length - n + n - tail = xs.length by omega, Nat.mod_eq_of_lt hroom]
  apply List.ext_getElem
  · simp [contents, hlen]
  · intro i hi hi'
    simp only [contents, List.getElem_map, List.getElem_range]
    exact h.cell i hi'

end Circular
