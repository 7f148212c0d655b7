import Mathlib.Logic.Function.Basic
import Mathlib.Data.List.Basic
import BlackHole.Lib.Loop

set_option autoImplicit false

/-! # Programs over a store of blocks

A program reads and writes blocks on its way to a result. On an array of blocks it is run by
`Prog.run`; on a device, whose operations may wait and may fail, by `Prog.exec`. A device that stores
the blocks with addresses in `P` gives a program that uses no others the results of the array
(`Stores.exec`). -/

namespace BlockProgram

/-- A program that computes an `α`. -/
inductive Prog (κ β : Type) (α : Type) where
  | done (a : α)
  | read (k : κ) (next : β → Prog κ β α)
  | write (k : κ) (b : β) (next : Prog κ β α)

namespace Prog

variable {κ β α γ ι ρ σ : Type}

def bind : Prog κ β α → (α → Prog κ β γ) → Prog κ β γ
  | .done a, f => f a
  | .read k next, f => .read k fun b => (next b).bind f
  | .write k b next, f => .write k b (next.bind f)

instance : Monad (Prog κ β) where
  pure := .done
  bind := Prog.bind

/-- Repeat `body` until it leaves the loop, for at most `fuel` passes. -/
def iterate (body : σ → Prog κ β (ρ ⊕ σ)) : ℕ → σ → Prog κ β (Option ρ)
  | 0, _ => pure none
  | fuel + 1, s => body s >>= fun r =>
      match r with
      | .inl r => pure (some r)
      | .inr s' => iterate body fuel s'

/-! ## On an array -/

section

variable [DecidableEq κ]

/-- The result, and the array behind the program. -/
def run : Prog κ β α → (κ → β) → α × (κ → β)
  | .done a, d => (a, d)
  | .read k next, d => (next (d k)).run d
  | .write k b next, d => next.run (Function.update d k b)

end

/-! ## The blocks a program uses -/

/-- Whatever is read, the program uses blocks of `P` only, and its result satisfies `Q`. -/
def Within (P : κ → Prop) (Q : α → Prop) : Prog κ β α → Prop
  | .done a => Q a
  | .read k next => P k ∧ ∀ b, (next b).Within P Q
  | .write k _ next => P k ∧ next.Within P Q

variable {P : κ → Prop} {Q : α → Prop}

theorem Within.bind {R : γ → Prop} {p : Prog κ β α} {f : α → Prog κ β γ} (hp : p.Within P Q)
    (hf : ∀ a, Q a → (f a).Within P R) : (p >>= f).Within P R := by
  show (p.bind f).Within P R
  induction p with
  | done a => exact hf a hp
  | read k next ih => exact ⟨hp.1, fun b => ih b (hp.2 b)⟩
  | write k b next ih => exact ⟨hp.1, ih hp.2⟩

theorem Within.foldlM {I : α → Prop} {f : α → ι → Prog κ β α} {l : List ι} {a : α} (ha : I a)
    (hf : ∀ a, ∀ i ∈ l, I a → (f a i).Within P I) : (l.foldlM f a).Within P I := by
  induction l generalizing a with
  | nil => exact ha
  | cons i l ih =>
      rw [List.foldlM_cons]
      exact (hf a i (List.mem_cons_self ..) ha).bind fun a' ha' =>
        ih ha' fun a'' j hj => hf a'' j (List.mem_cons_of_mem i hj)

theorem Within.findSomeM? {f : ι → Prog κ β (Option α)} {l : List ι}
    (hf : ∀ i ∈ l, (f i).Within P fun r => ∀ a, r = some a → Q a) :
    (l.findSomeM? f).Within P fun r => ∀ a, r = some a → Q a := by
  induction l with
  | nil => exact fun a h => nomatch h
  | cons i l ih =>
      rw [List.findSomeM?]
      refine (hf i (List.mem_cons_self ..)).bind fun r hr => ?_
      cases r with
      | some a => exact hr
      | none => exact ih fun j hj => hf j (List.mem_cons_of_mem i hj)

theorem Within.iterate {I : σ → Prop} {body : σ → Prog κ β (ρ ⊕ σ)}
    (hbody : ∀ s, I s → (body s).Within P fun r => ∀ s', r = .inr s' → I s') (fuel : ℕ) {s : σ}
    (hs : I s) : (Prog.iterate body fuel s).Within P fun _ => True := by
  induction fuel generalizing s with
  | zero => exact trivial
  | succ fuel ih =>
      refine (hbody s hs).bind fun r hr => ?_
      cases r with
      | inl r => exact trivial
      | inr s' => exact ih (hr s' rfl)

theorem Within.mono {Q' : α → Prop} (hQ : ∀ a, Q a → Q' a) {p : Prog κ β α} (h : p.Within P Q) :
    p.Within P Q' := by
  induction p with
  | done a => exact hQ a h
  | read k next ih => exact ⟨h.1, fun b => ih b (h.2 b)⟩
  | write k b next ih => exact ⟨h.1, ih h.2⟩

/-! ## On a device -/

/-- The program on a device: the result and the device behind it. -/
def exec (rd : σ → κ → Option (β × σ)) (wr : σ → κ → β → Option σ) :
    Prog κ β α → σ → Option (α × σ)
  | .done a, s => some (a, s)
  | .read k next, s => (rd s k).bind fun r => exec rd wr (next r.1) r.2
  | .write k b next, s => (wr s k b).bind fun s' => exec rd wr next s'

end Prog

/-- A device whose operations wait stores the blocks of `P`: with enough patience every operation
    returns, as on the array that `R` relates the device to. -/
structure Stores {κ β σ : Type} [DecidableEq κ] (rd : ℕ → σ → κ → Option (β × σ))
    (wr : ℕ → σ → κ → β → Option σ) (P : κ → Prop) (R : σ → (κ → β) → Prop) : Prop where
  read : ∀ ⦃s d k⦄, R s d → P k →
    ∃ s', R s' d ∧ ∃ N, ∀ n, N < n → rd n s k = some (d k, s')
  write : ∀ ⦃s d k⦄ b, R s d → P k →
    ∃ s', R s' (Function.update d k b) ∧ ∃ N, ∀ n, N < n → wr n s k b = some s'

/-- Programs cannot tell such a device from the array. -/
theorem Stores.exec {κ β σ α : Type} [DecidableEq κ] {rd : ℕ → σ → κ → Option (β × σ)}
    {wr : ℕ → σ → κ → β → Option σ} {P : κ → Prop} {R : σ → (κ → β) → Prop}
    (h : Stores rd wr P R) {Q : α → Prop} {p : Prog κ β α} (hp : p.Within P Q) {s : σ} {d : κ → β}
    (hR : R s d) :
    ∃ s', R s' (p.run d).2 ∧ ∃ N, ∀ n, N < n →
      p.exec (rd n) (wr n) s = some ((p.run d).1, s') := by
  induction p generalizing s d with
  | done a => exact ⟨s, hR, 0, fun n _ => rfl⟩
  | read k next ih =>
      obtain ⟨s₁, hR₁, N₁, hread⟩ := h.read hR hp.1
      obtain ⟨s', hR', N, hrest⟩ := ih (d k) (hp.2 (d k)) hR₁
      refine ⟨s', hR', max N₁ N, fun n hn => ?_⟩
      rw [Prog.exec, hread n (by omega), Option.bind_some]
      exact hrest n (by omega)
  | write k b next ih =>
      obtain ⟨s₁, hR₁, N₁, hwrite⟩ := h.write b hR hp.1
      obtain ⟨s', hR', N, hrest⟩ := ih hp.2 hR₁
      refine ⟨s', hR', max N₁ N, fun n hn => ?_⟩
      rw [Prog.exec, hwrite n (by omega), Option.bind_some]
      exact hrest n (by omega)

end BlockProgram
