import Mathlib.Data.List.Basic
import Mathlib.Data.List.Nodup
import Mathlib.Logic.Function.Iterate
import BlackHole.Lib.Loop

set_option autoImplicit false

/-! # Circular linked lists

A circular list is known by the function that takes a node to its successor and the list of its
nodes from some first one on. A node is inserted behind the last one, and the last one is found by
going round until the successor is the first node. -/

universe u

variable {α : Type u} {next : α → α} {l : List α}

/-- The nodes `l`, without repetition, are what `next` goes round. -/
structure LinkedRing (next : α → α) (l : List α) : Prop where
  ne_nil : l ≠ []
  nodup : l.Nodup
  step : ∀ i t, l[i]? = some t → l[(i + 1) % l.length]? = some (next t)

namespace LinkedRing

theorem singleton {a : α} (h : next a = a) : LinkedRing next [a] := by
  refine ⟨List.cons_ne_nil _ _, List.nodup_singleton a, fun i t hi => ?_⟩
  obtain ⟨hlt, rfl⟩ := List.getElem?_eq_some_iff.1 hi
  simp only [List.length_singleton] at hlt
  obtain rfl : i = 0 := by omega
  simp [h]

theorem length_pos (h : LinkedRing next l) : 0 < l.length := List.length_pos_iff.2 h.ne_nil

/-- Going on from a node. -/
theorem iterate (h : LinkedRing next l) {i : ℕ} {t : α} (hi : l[i]? = some t) (k : ℕ) :
    l[(i + k) % l.length]? = some (next^[k] t) := by
  induction k with
  | zero =>
      obtain ⟨hlt, -⟩ := List.getElem?_eq_some_iff.1 hi
      rwa [Nat.add_zero, Nat.mod_eq_of_lt hlt]
  | succ k ih =>
      have hstep := h.step _ _ ih
      rwa [Nat.mod_add_mod, ← Function.iterate_succ_apply' next k t] at hstep

/-- From the first node every node is visited once, in order, and then the first one again. -/
theorem round (h : LinkedRing next l) {a : α} (ha : l.head? = some a) :
    (∀ i < l.length, l[i]? = some (next^[i] a)) ∧ next^[l.length] a = a := by
  have h0 : l[0]? = some a := by rwa [← List.head?_eq_getElem?]
  refine ⟨fun i hi => ?_, ?_⟩
  · simpa [Nat.mod_eq_of_lt hi] using h.iterate h0 i
  · have hround := h.iterate h0 l.length
    rw [Nat.zero_add, Nat.mod_self, h0, Option.some.injEq] at hround
    exact hround.symm

/-- The nodes behind `t` and then those before it, as going on from `t` comes to them. -/
theorem rotation {pre post : List α} {t : α} (h : LinkedRing next (pre ++ t :: post)) :
    post ++ pre = (List.range (pre.length + post.length)).map fun k => next^[k + 1] t := by
  refine List.ext_getElem? fun k => ?_
  by_cases hk : k < pre.length + post.length
  · have hstep := h.iterate (i := pre.length) (t := t) (by simp) (k + 1)
    rw [List.getElem?_map, List.getElem?_range hk, Option.map_some, ← hstep, List.length_append,
      List.length_cons]
    by_cases hpost : k < post.length
    · rw [Nat.mod_eq_of_lt (by omega), List.getElem?_append_left hpost,
        List.getElem?_append_right (by omega), show pre.length + (k + 1) - pre.length = k + 1 by omega,
        List.getElem?_cons_succ]
    · have hwrap : pre.length + (k + 1) = k - post.length + (pre.length + (post.length + 1)) := by omega
      rw [hwrap, Nat.add_mod_right, Nat.mod_eq_of_lt (by omega), List.getElem?_append_right (by omega),
        List.getElem?_append_left (by omega)]
  · rw [List.getElem?_eq_none (by simp; omega), List.getElem?_eq_none (by simp; omega)]

/-- The last node is the one whose successor is the first. -/
theorem next_eq_head_iff (h : LinkedRing next l) {a t : α} (ha : l.head? = some a) (ht : t ∈ l) :
    next t = a ↔ l.getLast? = some t := by
  have hpos := h.length_pos
  have h0 : l[0]? = some a := by rwa [← List.head?_eq_getElem?]
  obtain ⟨i, hi⟩ := List.mem_iff_getElem?.1 ht
  obtain ⟨hlt, -⟩ := List.getElem?_eq_some_iff.1 hi
  have hstep := h.step i t hi
  rw [List.getLast?_eq_getElem?, ← hi]
  constructor
  · intro heq
    rw [heq, ← h0, List.getElem?_inj (Nat.mod_lt _ hpos) h.nodup] at hstep
    have hdvd := Nat.le_of_dvd (Nat.succ_pos i) (Nat.dvd_of_mod_eq_zero hstep)
    obtain rfl : i = l.length - 1 := by omega
    rfl
  · intro hlast
    rw [List.getElem?_inj (by omega) h.nodup] at hlast
    have hwrap : i + 1 = l.length := by omega
    rw [hwrap, Nat.mod_self, h0, Option.some.injEq] at hstep
    exact hstep.symm

/-- A node is inserted behind the last one. -/
theorem concat (h : LinkedRing next l) {next' : α → α} {a z x : α} (ha : l.head? = some a)
    (hz : l.getLast? = some z) (hx : x ∉ l) (hfirst : next' x = a) (hlast : next' z = x)
    (hother : ∀ t ∈ l, t ≠ z → next' t = next t) : LinkedRing next' (l ++ [x]) := by
  have hpos := h.length_pos
  have h0 : l[0]? = some a := by rwa [← List.head?_eq_getElem?]
  refine ⟨by simp, List.nodup_append.2 ⟨h.nodup, List.nodup_singleton x, ?_⟩, fun i t hi => ?_⟩
  · rintro y hy y' hy' rfl
    exact hx (List.mem_singleton.1 hy' ▸ hy)
  · rw [List.length_append, List.length_singleton]
    rcases Nat.lt_trichotomy (i + 1) l.length with hlt | hwrap | hgt
    · -- a node before the last one
      rw [List.getElem?_append_left (by omega)] at hi
      have hne : t ≠ z := by
        rintro rfl
        rw [List.getLast?_eq_getElem?, ← hi, List.getElem?_inj (by omega) h.nodup] at hz
        omega
      have hstep := h.step i t hi
      rw [Nat.mod_eq_of_lt hlt] at hstep
      rw [Nat.mod_eq_of_lt (by omega), List.getElem?_append_left hlt, hstep,
        hother t (List.mem_of_getElem? hi) hne]
    · -- the last one
      rw [List.getElem?_append_left (by omega)] at hi
      rw [List.getLast?_eq_getElem?, show l.length - 1 = i by omega, hi, Option.some.injEq] at hz
      rw [hwrap, Nat.mod_eq_of_lt (Nat.lt_succ_self _), hz, hlast]
      simp
    · -- the new one
      obtain ⟨hle, -⟩ := List.getElem?_eq_some_iff.1 hi
      rw [List.length_append, List.length_singleton] at hle
      obtain rfl : i = l.length := by omega
      have htx : t = x := by simpa using hi.symm
      rw [Nat.mod_self, htx, hfirst, List.getElem?_append_left hpos, h0]

/-- The nodes determine what going round them is. -/
theorem congr (h : LinkedRing next l) {next' : α → α} (hsame : ∀ t ∈ l, next' t = next t) :
    LinkedRing next' l :=
  ⟨h.ne_nil, h.nodup, fun i t hi => by
    rw [hsame t (List.mem_of_getElem? hi)]
    exact h.step i t hi⟩

/-- The search for the last node. -/
def searchStep [DecidableEq α] (next : α → α) (a t : α) : α ⊕ α :=
  if next t ≠ a then .inr (next t) else .inl t

/-- Going round from the first node comes to the last one. -/
theorem search [DecidableEq α] (h : LinkedRing next l) {a z : α} (ha : l.head? = some a)
    (hz : l.getLast? = some z) :
    ∀ fuel, l.length - 1 < fuel → Loop.iterate (searchStep next a) fuel a = some z := by
  have hpos := h.length_pos
  have h0 : l[0]? = some a := by rwa [← List.head?_eq_getElem?]
  -- from the node at `i` there are as many passes as nodes behind it
  have key : ∀ k i t, l[i]? = some t → i + k = l.length - 1 →
      ∀ fuel, k < fuel → Loop.iterate (searchStep next a) fuel t = some z := by
    intro k
    induction k with
    | zero =>
        intro i t hi hik fuel hfuel
        have ht : l.getLast? = some t := by
          rw [List.getLast?_eq_getElem?, ← hi, ← hik, Nat.add_zero]
        obtain rfl : t = z := Option.some.inj (ht.symm.trans hz)
        have hhead := (h.next_eq_head_iff ha (List.mem_of_getElem? hi)).2 ht
        have hexit : searchStep next a t = .inl t := if_neg (not_not.2 hhead)
        exact Loop.iterate_exit_of_lt 0 hexit fuel hfuel
    | succ k ih =>
        intro i t hi hik
        have hnext := h.step i t hi
        rw [Nat.mod_eq_of_lt (by omega)] at hnext
        have hne : next t ≠ a := by
          rw [Ne, h.next_eq_head_iff ha (List.mem_of_getElem? hi), List.getLast?_eq_getElem?, ← hi,
            List.getElem?_inj (by omega) h.nodup]
          omega
        exact Loop.iterate_again_of_lt (if_pos hne) (ih (i + 1) (next t) hnext (by omega))
  exact key (l.length - 1) 0 a h0 (by omega)

end LinkedRing
