import Mathlib.Data.Nat.Notation
import Mathlib.Logic.Basic

set_option autoImplicit false

/-! # Machines that answer requests

A machine is a partial step function: in a state it answers a request and goes over to another
state, or it gives no answer. One machine implements another if it gives the same answers from
related states; that is a condition on single steps (`Implements`), which carries over to whole runs
(`Implements.run`). A machine that waits for something may need patience for its answers
(`Awaits`). -/

namespace Machine

variable {σ τ ι ω : Type*}

/-! ## Runs -/

/-- The answers to a list of requests and the state behind the last one; `none` if some request is
    not answered. -/
def run (step : σ → ι → Option (ω × σ)) : σ → List ι → Option (List ω × σ)
  | s, [] => some ([], s)
  | s, i :: is => (step s i).bind fun r => (run step r.2 is).map fun q => (r.1 :: q.1, q.2)

@[simp] theorem run_nil (step : σ → ι → Option (ω × σ)) (s : σ) : run step s [] = some ([], s) := rfl

theorem run_cons_eq_some {step : σ → ι → Option (ω × σ)} {s s' : σ} {i : ι} {is : List ι}
    {os : List ω} :
    run step s (i :: is) = some (os, s') ↔
      ∃ o s₁ os₁, step s i = some (o, s₁) ∧ run step s₁ is = some (os₁, s') ∧ os = o :: os₁ := by
  simp only [run, Option.bind_eq_some_iff, Option.map_eq_some_iff, Prod.exists, Prod.mk.injEq]
  constructor
  · rintro ⟨o, s₁, hstep, os₁, s₂, hrun, rfl, rfl⟩
    exact ⟨o, s₁, os₁, hstep, hrun, rfl⟩
  · rintro ⟨o, s₁, os₁, hstep, hrun, rfl⟩
    exact ⟨o, s₁, hstep, os₁, s', hrun, rfl, rfl⟩

/-- A machine that answers each of the requests answers the run. -/
theorem exists_run {step : σ → ι → Option (ω × σ)} {ok : ι → Prop}
    (h : ∀ s i, ok i → ∃ r, step s i = some r) {is : List ι} (his : ∀ i ∈ is, ok i) (s : σ) :
    ∃ r, run step s is = some r := by
  induction is generalizing s with
  | nil => exact ⟨_, rfl⟩
  | cons i is ih =>
      obtain ⟨⟨o, s₁⟩, hstep⟩ := h s i (his i (List.mem_cons_self ..))
      obtain ⟨⟨os, s'⟩, hrun⟩ := ih (fun j hj => his j (List.mem_cons_of_mem i hj)) s₁
      exact ⟨_, run_cons_eq_some.2 ⟨o, s₁, os, hstep, hrun, rfl⟩⟩

/-- The run of a machine that answers everything. -/
def runTotal (step : σ → ι → ω × σ) : σ → List ι → List ω × σ
  | s, [] => ([], s)
  | s, i :: is => ((step s i).1 :: (runTotal step (step s i).2 is).1, (runTotal step (step s i).2 is).2)

theorem run_total (step : σ → ι → ω × σ) (s : σ) (is : List ι) :
    run (fun s i => some (step s i)) s is = some (runTotal step s is) := by
  induction is generalizing s with
  | nil => rfl
  | cons i is ih =>
      rw [run, Option.bind_some, ih]
      rfl

/-- What holds of every answer of a step. -/
theorem forall_mem_runTotal {step : σ → ι → ω × σ} {A : ω → Prop} (h : ∀ s i, A (step s i).1) (s : σ)
    (is : List ι) : ∀ o ∈ (runTotal step s is).1, A o := by
  induction is generalizing s with
  | nil => exact fun o ho => nomatch ho
  | cons i is ih =>
      intro o ho
      rcases List.mem_cons.1 ho with rfl | ho
      · exact h s i
      · exact ih _ o ho

/-! ## Implementations -/

/-- From related states `impl` gives every answer that `spec` gives to a request of `ok`, and the
    states stay related. -/
def Implements (impl : σ → ι → Option (ω × σ)) (spec : τ → ι → Option (ω × τ)) (ok : ι → Prop)
    (R : σ → τ → Prop) : Prop :=
  ∀ ⦃s t i o t'⦄, R s t → ok i → spec t i = some (o, t') →
    ∃ s', impl s i = some (o, s') ∧ R s' t'

variable {impl : σ → ι → Option (ω × σ)} {spec : τ → ι → Option (ω × τ)} {ok : ι → Prop}
  {R : σ → τ → Prop}

/-- An implementation gives the same answers in a whole run. -/
theorem Implements.run (h : Implements impl spec ok R) {s : σ} {t t' : τ} {is : List ι}
    {os : List ω} (hR : R s t) (hok : ∀ i ∈ is, ok i) (hrun : Machine.run spec t is = some (os, t')) :
    ∃ s', Machine.run impl s is = some (os, s') ∧ R s' t' := by
  induction is generalizing s t os with
  | nil =>
      obtain ⟨rfl, rfl⟩ := Prod.mk.inj (Option.some.inj hrun)
      exact ⟨s, rfl, hR⟩
  | cons i is ih =>
      obtain ⟨o, t₁, os₁, hstep, hrest, rfl⟩ := run_cons_eq_some.1 hrun
      obtain ⟨s₁, himpl, hR₁⟩ := h hR (hok i (List.mem_cons_self ..)) hstep
      obtain ⟨s', hrun', hR'⟩ := ih hR₁ (fun j hj => hok j (List.mem_cons_of_mem i hj)) hrest
      exact ⟨s', run_cons_eq_some.2 ⟨o, s₁, os₁, himpl, hrun', rfl⟩, hR'⟩

/-! ## Machines that wait -/

/-- As `Implements`, by a machine that gives an answer if its patience is large enough. -/
def Awaits (impl : ℕ → σ → ι → Option (ω × σ)) (spec : τ → ι → Option (ω × τ)) (ok : ι → Prop)
    (R : σ → τ → Prop) : Prop :=
  ∀ ⦃s t i o t'⦄, R s t → ok i → spec t i = some (o, t') →
    ∃ s', R s' t' ∧ ∃ N, ∀ n, N < n → impl n s i = some (o, s')

section

variable {impl : ℕ → σ → ι → Option (ω × σ)}

/-- With the patience that its longest request needs it gives the same answers in a whole run. -/
theorem Awaits.run (h : Awaits impl spec ok R) {s : σ} {t t' : τ} {is : List ι} {os : List ω}
    (hR : R s t) (hok : ∀ i ∈ is, ok i) (hrun : Machine.run spec t is = some (os, t')) :
    ∃ s', R s' t' ∧ ∃ N, ∀ n, N < n → Machine.run (impl n) s is = some (os, s') := by
  induction is generalizing s t os with
  | nil =>
      obtain ⟨rfl, rfl⟩ := Prod.mk.inj (Option.some.inj hrun)
      exact ⟨s, hR, 0, fun n _ => rfl⟩
  | cons i is ih =>
      obtain ⟨o, t₁, os₁, hstep, hrest, rfl⟩ := run_cons_eq_some.1 hrun
      obtain ⟨s₁, hR₁, N₁, himpl⟩ := h hR (hok i (List.mem_cons_self ..)) hstep
      obtain ⟨s', hR', N, hrun'⟩ := ih hR₁ (fun j hj => hok j (List.mem_cons_of_mem i hj)) hrest
      refine ⟨s', hR', max N₁ N, fun n hn => ?_⟩
      exact run_cons_eq_some.2 ⟨o, s₁, os₁, himpl n (by omega), hrun' n (by omega), rfl⟩

end

end Machine
