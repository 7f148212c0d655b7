import Mathlib.Data.Nat.Basic
import Mathlib.Data.List.Basic
import Mathlib.Tactic.Cases

set_option autoImplicit false

/-! # Loops with fuel

A loop whose exit is not a matter of counting is run by `Loop.iterate` for at most `fuel`
iterations: `none` means that it is still running. A computation built from such loops is a
function of the fuel, and `Loop.FuelMono` says that more fuel never changes its result, so that
results are unique.

Counted loops are folds over `List.range`, and `List.findSome?` over it where they may leave early;
the lemmas about them close the file. -/

namespace Loop

universe u v

variable {σ : Type u} {ρ : Type v}

/-! ## Iteration -/

/-- Run `body` until it leaves the loop (`Sum.inl`), for at most `fuel` iterations. -/
def iterate (body : σ → ρ ⊕ σ) : ℕ → σ → Option ρ
  | 0, _ => none
  | fuel + 1, s =>
      match body s with
      | .inl r => some r
      | .inr s' => iterate body fuel s'

@[simp] theorem iterate_zero (body : σ → ρ ⊕ σ) (s : σ) : iterate body 0 s = none := rfl

theorem iterate_succ_exit {body : σ → ρ ⊕ σ} {s : σ} {r : ρ} (fuel : ℕ) (h : body s = .inl r) :
    iterate body (fuel + 1) s = some r := by
  simp [iterate, h]

theorem iterate_succ_again {body : σ → ρ ⊕ σ} {s s' : σ} (fuel : ℕ) (h : body s = .inr s') :
    iterate body (fuel + 1) s = iterate body fuel s' := by
  simp [iterate, h]

/-- A loop that is left at once is left with any fuel. -/
theorem iterate_exit_of_lt {body : σ → ρ ⊕ σ} {s : σ} {r : ρ} (n : ℕ) (h : body s = .inl r) :
    ∀ fuel, n < fuel → iterate body fuel s = some r := by
  intro fuel hfuel
  obtain ⟨k, rfl⟩ : ∃ k, fuel = k + 1 := ⟨fuel - 1, by omega⟩
  exact iterate_succ_exit k h

/-- One more iteration takes one more unit of fuel. -/
theorem iterate_again_of_lt {body : σ → ρ ⊕ σ} {s s' : σ} {r : ρ} {n : ℕ} (h : body s = .inr s')
    (hrun : ∀ fuel, n < fuel → iterate body fuel s' = some r) :
    ∀ fuel, n + 1 < fuel → iterate body fuel s = some r := by
  intro fuel hfuel
  obtain ⟨k, rfl⟩ : ∃ k, fuel = k + 1 := ⟨fuel - 1, by omega⟩
  rw [iterate_succ_again k h]
  exact hrun k (by omega)

/-- More fuel never changes the result of a loop. -/
theorem iterate_mono {body : σ → ρ ⊕ σ} {r : ρ} :
    ∀ {n m : ℕ} {s : σ}, n ≤ m → iterate body n s = some r → iterate body m s = some r := by
  intro n
  induction n with
  | zero => intro m s _ h; simp at h
  | succ n ih =>
      intro m s hm h
      obtain ⟨m, rfl⟩ : ∃ k, m = k + 1 := ⟨m - 1, by omega⟩
      rcases hb : body s with r' | s'
      · rw [iterate_succ_exit n hb] at h
        rw [iterate_succ_exit m hb, h]
      · rw [iterate_succ_again n hb] at h
        rw [iterate_succ_again m hb]
        exact ih (by omega) h

/-- The invariant rule: what every iteration keeps holds of the state the loop is left in. -/
theorem iterate_invariant {body : σ → ρ ⊕ σ} (I : σ → Prop) (Q : ρ → Prop)
    (hstep : ∀ s s', I s → body s = .inr s' → I s')
    (hexit : ∀ s r, I s → body s = .inl r → Q r) :
    ∀ (fuel : ℕ) (s : σ) (r : ρ), I s → iterate body fuel s = some r → Q r := by
  intro fuel
  induction fuel with
  | zero => intro s r _ h; simp at h
  | succ fuel ih =>
      intro s r hs h
      rcases hb : body s with r' | s'
      · rw [iterate_succ_exit fuel hb, Option.some.injEq] at h
        exact h ▸ hexit s r' hs hb
      · rw [iterate_succ_again fuel hb] at h
        exact ih s' r (hstep s s' hs hb) h

/-- Loops whose bodies agree on an invariant of theirs agree. -/
theorem iterate_congr {f g : σ → ρ ⊕ σ} (I : σ → Prop) (hfg : ∀ s, I s → f s = g s)
    (hstep : ∀ s s', I s → f s = .inr s' → I s') :
    ∀ (fuel : ℕ) (s : σ), I s → iterate f fuel s = iterate g fuel s := by
  intro fuel
  induction fuel with
  | zero => intro s _; rfl
  | succ fuel ih =>
      intro s hs
      rcases hb : f s with r | s'
      · rw [iterate_succ_exit fuel hb, iterate_succ_exit fuel ((hfg s hs).symm.trans hb)]
      · rw [iterate_succ_again fuel hb, iterate_succ_again fuel ((hfg s hs).symm.trans hb)]
        exact ih s' (hstep s s' hs hb)

/-! ## Termination -/

/-- The loop is left after at most `n` passes that go on. -/
def LeavesWithin (body : σ → ρ ⊕ σ) (s : σ) (n : ℕ) : Prop :=
  ∃ r, ∀ fuel, n < fuel → iterate body fuel s = some r

/-- The variant rule: a loop whose passes lower a measure is left. -/
theorem leavesWithin_of_measure {body : σ → ρ ⊕ σ} (I : σ → Prop) (μ : σ → ℕ)
    (hstep : ∀ s s', I s → body s = .inr s' → I s' ∧ μ s' < μ s) :
    ∀ s, I s → LeavesWithin body s (μ s) := by
  intro s
  induction hn : μ s using Nat.strong_induction_on generalizing s with
  | _ n ih =>
      intro hs
      rcases hb : body s with r | s'
      · exact ⟨r, fun fuel hfuel => iterate_exit_of_lt 0 hb fuel (by omega)⟩
      · obtain ⟨hs', hlt⟩ := hstep s s' hs hb
        obtain ⟨r, hr⟩ := ih (μ s') (hn ▸ hlt) s' rfl hs'
        exact ⟨r, fun fuel hfuel => iterate_again_of_lt hb hr fuel (by omega)⟩

/-- A loop whose invariant never lets it be left runs forever. -/
theorem iterate_eq_none {body : σ → ρ ⊕ σ} (I : σ → Prop)
    (hstep : ∀ s, I s → ∃ s', body s = .inr s' ∧ I s') :
    ∀ (fuel : ℕ) (s : σ), I s → iterate body fuel s = none := by
  intro fuel
  induction fuel with
  | zero => intro s _; rfl
  | succ fuel ih =>
      intro s hs
      obtain ⟨s', hb, hs'⟩ := hstep s hs
      rw [iterate_succ_again fuel hb]
      exact ih s' hs'

/-! ## Results of fuelled computations -/

/-- More fuel never changes a result. -/
def FuelMono (f : ℕ → Option ρ) : Prop :=
  ∀ ⦃n m : ℕ⦄ ⦃a : ρ⦄, n ≤ m → f n = some a → f m = some a

theorem FuelMono.iterate (body : σ → ρ ⊕ σ) (s : σ) : FuelMono fun n => iterate body n s :=
  fun _ _ _ hnm h => iterate_mono hnm h

theorem FuelMono.const (o : Option ρ) : FuelMono fun _ => o :=
  fun _ _ _ _ h => h

theorem FuelMono.map {f : ℕ → Option σ} (hf : FuelMono f) (g : σ → ρ) :
    FuelMono fun n => (f n).map g := by
  intro n m r hnm h
  obtain ⟨a, ha, hr⟩ := Option.map_eq_some_iff.1 h
  exact Option.map_eq_some_iff.2 ⟨a, hf hnm ha, hr⟩

theorem FuelMono.bind {f : ℕ → Option σ} (hf : FuelMono f) {g : σ → ℕ → Option ρ}
    (hg : ∀ a, FuelMono (g a)) : FuelMono fun n => (f n).bind fun a => g a n := by
  intro n m r hnm h
  obtain ⟨a, ha, hr⟩ := Option.bind_eq_some_iff.1 h
  exact Option.bind_eq_some_iff.2 ⟨a, hf hnm ha, hg a hnm hr⟩

/-- A computation that returns `b` from some amount of fuel on returns nothing else. -/
theorem FuelMono.unique {f : ℕ → Option ρ} (hf : FuelMono f) {a b : ρ} {n N : ℕ} (h : f n = some a)
    (hall : ∀ m, N < m → f m = some b) : a = b := by
  have h1 := hf (Nat.le_max_left n (N + 1)) h
  have h2 := hall (max n (N + 1)) (by omega)
  exact Option.some.inj (h1.symm.trans h2)

/-! ## Counted loops -/

/-- The invariant rule of a counted loop: `I k` holds before the pass with index `k`. -/
theorem foldl_range_invariant {f : σ → ℕ → σ} (I : ℕ → σ → Prop) {n : ℕ} {s : σ} (h0 : I 0 s)
    (hstep : ∀ k t, k < n → I k t → I (k + 1) (f t k)) : I n ((List.range n).foldl f s) := by
  induction n with
  | zero => exact h0
  | succ n ih =>
      rw [List.range_succ, List.foldl_append]
      exact hstep n _ (Nat.lt_succ_self n) (ih fun k t hk => hstep k t (Nat.lt_succ_of_lt hk))

/-! ## Counted loops that may leave early -/

/-- A scan over `0, …, n-1` leaves with `r` exactly at the first index whose visit yields it. -/
theorem findSome?_range_eq_some {f : ℕ → Option ρ} {n : ℕ} {r : ρ} :
    (List.range n).findSome? f = some r ↔ ∃ k < n, f k = some r ∧ ∀ j < k, f j = none := by
  induction n with
  | zero => simp
  | succ n ih =>
      rw [List.range_succ, List.findSome?_append]
      rcases hn : (List.range n).findSome? f with _ | r'
      · have hnone : ∀ j < n, f j = none := by
          simpa [List.findSome?_eq_none_iff] using hn
        simp only [List.findSome?_singleton, Option.none_or]
        constructor
        · intro h
          exact ⟨n, by omega, h, hnone⟩
        · rintro ⟨k, hk, hfk, -⟩
          rcases Nat.lt_or_eq_of_le (Nat.lt_succ_iff.1 hk) with hlt | rfl
          · rw [hnone k hlt] at hfk
            exact absurd hfk (by simp)
          · exact hfk
      · simp only [Option.some_or]
        rw [← hn, ih]
        constructor
        · rintro ⟨k, hk, h⟩
          exact ⟨k, by omega, h⟩
        · rintro ⟨k, hk, hfk, hbefore⟩
          rcases Nat.lt_or_eq_of_le (Nat.lt_succ_iff.1 hk) with hlt | rfl
          · exact ⟨k, hlt, hfk, hbefore⟩
          · have hnone : (List.range k).findSome? f = none := by
              simpa [List.findSome?_eq_none_iff] using hbefore
            rw [hnone] at hn
            exact absurd hn (by simp)

theorem findSome?_range_eq_none {f : ℕ → Option ρ} {n : ℕ} :
    (List.range n).findSome? f = none ↔ ∀ k < n, f k = none := by
  simp [List.findSome?_eq_none_iff]

/-- A scan only looks at what its visits return. -/
theorem findSome?_congr {f g : σ → Option ρ} {l : List σ} (h : ∀ a ∈ l, f a = g a) :
    l.findSome? f = l.findSome? g := by
  induction l with
  | nil => rfl
  | cons a l ih =>
      rw [List.findSome?_cons, List.findSome?_cons, h a (List.mem_cons_self ..),
        ih fun b hb => h b (List.mem_cons_of_mem _ hb)]

/-- Two nested counted loops are one loop over `w` times as many indices. -/
theorem findSome?_range_nested {w : ℕ} (n : ℕ) (f : ℕ → ℕ → Option ρ) :
    ((List.range n).findSome? fun s => (List.range w).findSome? fun i => f s i)
      = (List.range (w * n)).findSome? fun k => f (k / w) (k % w) := by
  induction n with
  | zero => simp
  | succ n ih =>
      rw [List.range_succ, List.findSome?_append, ih, Nat.mul_succ, List.range_add,
        List.findSome?_append, List.findSome?_singleton, List.findSome?_map]
      congr 1
      apply findSome?_congr
      intro i hi
      have hiw : i < w := List.mem_range.1 hi
      simp only [Function.comp_apply]
      rw [Nat.mul_add_div (by omega), Nat.div_eq_of_lt hiw, Nat.mul_add_mod, Nat.mod_eq_of_lt hiw,
        Nat.add_zero]

/-- The indices a scan comes to before the first one that stops it. -/
theorem mem_takeWhile_range {p : ℕ → Bool} {n k : ℕ} :
    k ∈ (List.range n).takeWhile p ↔ k < n ∧ ∀ j ≤ k, p j := by
  induction n generalizing p k with
  | zero => simp
  | succ n ih =>
      rw [List.range_succ_eq_map]
      by_cases h0 : p 0
      · rw [List.takeWhile_cons_of_pos h0, List.takeWhile_map, List.mem_cons]
        cases k with
        | zero => simp [h0]
        | succ k =>
            rw [List.mem_map_of_injective Nat.succ_injective, ih]
            simp only [Function.comp_apply, Nat.succ_lt_succ_iff, reduceCtorEq, false_or]
            refine and_congr_right fun _ => ⟨fun h j hj => ?_, fun h j hj => h _ (by omega)⟩
            cases j with
            | zero => exact h0
            | succ j => exact h j (by omega)
      · rw [List.takeWhile_cons_of_neg h0]
        exact iff_of_false List.not_mem_nil fun h => h0 (h.2 0 (Nat.zero_le k))

section

variable {m : Type u → Type v} [Monad m]

/-- A loop only looks at what its passes compute. -/
theorem foldlM_congr {α : Type*} {f g : σ → α → m σ} {l : List α} (t : σ)
    (h : ∀ t, ∀ a ∈ l, f t a = g t a) : l.foldlM f t = l.foldlM g t := by
  induction l generalizing t with
  | nil => rfl
  | cons a l ih =>
      rw [List.foldlM_cons, List.foldlM_cons, h t a (List.mem_cons_self ..)]
      congr 1
      funext t'
      exact ih t' fun t b hb => h t b (List.mem_cons_of_mem _ hb)

/-- Two nested counted loops with a state are one loop, too. -/
theorem foldlM_range_nested [LawfulMonad m] {w : ℕ} (n : ℕ) (f : σ → ℕ → ℕ → m σ) (t : σ) :
    ((List.range n).foldlM (fun t s => (List.range w).foldlM (fun t i => f t s i) t) t)
      = (List.range (w * n)).foldlM (fun t k => f t (k / w) (k % w)) t := by
  induction n with
  | zero => simp
  | succ n ih =>
      rw [List.range_succ, List.foldlM_append, ih, Nat.mul_succ, List.range_add,
        List.foldlM_append]
      congr 1
      funext t'
      simp only [List.foldlM_cons, List.foldlM_nil, bind_pure]
      rw [List.foldlM_map]
      apply foldlM_congr
      intro t i hi
      have hiw : i < w := List.mem_range.1 hi
      rw [Nat.mul_add_div (by omega), Nat.div_eq_of_lt hiw, Nat.mul_add_mod, Nat.mod_eq_of_lt hiw,
        Nat.add_zero]

end

end Loop
