import Mathlib.Data.List.Nodup
import Mathlib.Data.List.Infix
import Mathlib.Logic.Function.Basic

set_option autoImplicit false

/-! # Linked chains in a successor table

`Follows next stop c cs`: starting at `c` and following `next`, the cells visited before the first
one satisfying `stop` are exactly `cs`. A chain is determined by its start, never repeats a cell,
and only depends on the table at its own cells. `link next cs fin` threads the cells `cs` into the
table, the last one pointing to `fin`. -/

namespace Chain

universe u

variable {α : Type u} {next next' : α → α} {stop : α → Prop}

/-- Following `next` from `c` visits exactly `cs` and then meets a cell satisfying `stop`. -/
def Follows (next : α → α) (stop : α → Prop) : α → List α → Prop
  | c, [] => stop c
  | c, x :: xs => c = x ∧ ¬ stop x ∧ Follows next stop (next x) xs

/-- A chain is determined by its start. -/
theorem Follows.unique : ∀ {cs ds : List α} {c : α}, Follows next stop c cs →
    Follows next stop c ds → cs = ds := by
  intro cs
  induction cs with
  | nil =>
      intro ds c hc hd
      cases ds with
      | nil => rfl
      | cons y ys => exact absurd (hd.1 ▸ hc) hd.2.1
  | cons x xs ih =>
      intro ds c hc hd
      cases ds with
      | nil => exact absurd (hc.1 ▸ hd) hc.2.1
      | cons y ys =>
          obtain ⟨rfl, -, hxs⟩ := hc
          obtain ⟨rfl, -, hys⟩ := hd
          rw [ih hxs hys]

/-- Every cell of a chain starts a chain of its own, the rest of the first one. -/
theorem Follows.suffix : ∀ {cs : List α} {c x : α}, Follows next stop c cs → x ∈ cs →
    ∃ xs, (x :: xs) <:+ cs ∧ Follows next stop x (x :: xs) := by
  intro cs
  induction cs with
  | nil => intro c x _ hx; simp at hx
  | cons y ys ih =>
      intro c x hc hx
      rcases List.mem_cons.1 hx with rfl | hx'
      · exact ⟨ys, List.suffix_rfl, ⟨rfl, hc.2⟩⟩
      · obtain ⟨xs, hsuf, hf⟩ := ih hc.2.2 hx'
        exact ⟨xs, hsuf.trans (List.suffix_cons y ys), hf⟩

/-- A chain never repeats a cell: the second visit would run the same chain again. -/
theorem Follows.nodup : ∀ {cs : List α} {c : α}, Follows next stop c cs → cs.Nodup := by
  intro cs
  induction cs with
  | nil => intro c _; exact List.nodup_nil
  | cons x xs ih =>
      intro c hc
      refine List.nodup_cons.2 ⟨fun hmem => ?_, ih hc.2.2⟩
      obtain ⟨ys, hsuf, hys⟩ := hc.2.2.suffix hmem
      have heq : x :: ys = x :: xs := Follows.unique hys ⟨rfl, hc.2⟩
      have hlen := hsuf.length_le
      rw [heq, List.length_cons] at hlen
      omega

/-- A chain only depends on the table at its own cells. -/
theorem Follows.congr : ∀ {cs : List α} {c : α}, (∀ x ∈ cs, next' x = next x) →
    Follows next stop c cs → Follows next' stop c cs := by
  intro cs
  induction cs with
  | nil => intro c _ h; exact h
  | cons x xs ih =>
      intro c hagree h
      refine ⟨h.1, h.2.1, ?_⟩
      rw [hagree x (List.mem_cons_self ..)]
      exact ih (fun y hy => hagree y (List.mem_cons_of_mem _ hy)) h.2.2

/-- After as many steps as it has cells a chain is at its end. -/
theorem Follows.stop_iterate : ∀ {cs : List α} {c : α}, Follows next stop c cs →
    stop (next^[cs.length] c) := by
  intro cs
  induction cs with
  | nil => intro c h; exact h
  | cons x xs ih =>
      intro c h
      rw [List.length_cons, Function.iterate_succ_apply, h.1]
      exact ih h.2.2

/-- The successor of a cell of a chain is another cell of it, or ends it. -/
theorem Follows.next_mem_or_stop : ∀ {cs : List α} {c : α}, Follows next stop c cs →
    ∀ x ∈ cs, next x ∈ cs ∨ stop (next x) := by
  intro cs c h x hx
  obtain ⟨xs, hsuf, hf⟩ := h.suffix hx
  cases xs with
  | nil => exact Or.inr hf.2.2
  | cons y ys =>
      have hy : next x = y := hf.2.2.1
      exact Or.inl (hsuf.subset (by rw [hy]; simp))

/-! ## Threading cells into a table -/

variable [DecidableEq α]

/-- The table with the cells `cs` threaded in order, the last one pointing to `fin`. -/
def link (next : α → α) (fin : α) : List α → α → α
  | [] => next
  | [x] => Function.update next x fin
  | x :: y :: ys => Function.update (link next fin (y :: ys)) x y

theorem link_of_not_mem (fin : α) : ∀ {cs : List α} {x : α}, x ∉ cs →
    link next fin cs x = next x := by
  intro cs
  induction cs with
  | nil => intro x _; rfl
  | cons y ys ih =>
      intro x hx
      rw [List.mem_cons, not_or] at hx
      cases ys with
      | nil => simp [link, hx.1]
      | cons z zs => rw [link, Function.update_of_ne hx.1, ih hx.2]

/-- Outside the threaded cells the table is the old one, at them it does not depend on it. -/
theorem link_congr (fin : α) : ∀ {cs : List α} {x : α}, next x = next' x →
    link next fin cs x = link next' fin cs x := by
  intro cs
  induction cs with
  | nil => intro x h; exact h
  | cons y ys ih =>
      intro x h
      cases ys with
      | nil => simp only [link, Function.update_apply, h]
      | cons z zs => simp only [link, Function.update_apply, ih h]

/-- The threaded cells form a chain, if they are distinct and none of them ends a chain. -/
theorem follows_link {fin : α} (hfin : stop fin) : ∀ {cs : List α} {c : α}, cs.head? = some c →
    cs.Nodup → (∀ x ∈ cs, ¬ stop x) → Follows (link next fin cs) stop c cs := by
  intro cs
  induction cs with
  | nil => intro c hc; simp at hc
  | cons x xs ih =>
      intro c hc hnd hstop
      obtain rfl : x = c := by simpa using hc
      refine ⟨rfl, hstop x (List.mem_cons_self ..), ?_⟩
      cases xs with
      | nil => simpa [link, Follows] using hfin
      | cons y ys =>
          rw [List.nodup_cons] at hnd
          have hfollow : Follows (link next fin (y :: ys)) stop y (y :: ys) :=
            ih rfl hnd.2 fun z hz => hstop z (List.mem_cons_of_mem _ hz)
          rw [link, Function.update_self]
          refine hfollow.congr fun z hz => ?_
          exact Function.update_of_ne (fun he => hnd.1 (by rwa [← he])) _ _

/-- Appending a cell: it becomes the end, and the last cell so far points to it. -/
theorem link_concat (next : α → α) (fin : α) : ∀ {cs : List α} {p x : α}, cs.getLast? = some p →
    (cs ++ [x]).Nodup →
    link next fin (cs ++ [x]) = Function.update (Function.update (link next fin cs) x fin) p x := by
  intro cs
  induction cs with
  | nil => intro p x hp; simp at hp
  | cons y ys ih =>
      intro p x hp hnd
      cases ys with
      | nil =>
          obtain rfl : y = p := by simpa using hp
          have hyx : y ≠ x := by
            rintro rfl
            simp at hnd
          simp only [List.cons_append, List.nil_append, link]
          rw [Function.update_comm hyx fin fin next, Function.update_idem]
      | cons z zs =>
          have hp' : (z :: zs).getLast? = some p := by simpa using hp
          have hpmem : p ∈ z :: zs := List.mem_of_getLast? hp'
          rw [List.cons_append, List.nodup_cons] at hnd
          have hyx : y ≠ x := fun he => hnd.1 (by simp [he])
          have hyp : y ≠ p := fun he => hnd.1 (List.mem_append_left _ (he ▸ hpmem))
          have hih := ih hp' hnd.2
          simp only [List.cons_append, link] at hih ⊢
          rw [hih, Function.update_comm hyx, Function.update_comm hyp]

end Chain
