import BlackHole.Lib.Rota
import BlackHole.Kernel.RoundRobin

set_option autoImplicit false

/-! # Round-robin scheduling

`task_switch` lets the tasks take turns in the order of their creation: every history is a rota
(`RingInv.rota_step`), so between two times that a task becomes current every other one does exactly
once (`task_switch_fair`). -/

namespace BlackHole

/-- The task that has become current in a step, if another one was. -/
def becomesCurrent (h h' : History) : Option ℕ :=
  if h'.kernel.sys.currentTask = h.kernel.sys.currentTask then none
  else some h'.kernel.sys.currentTask

/-- A run, with the tasks that have become current on it. -/
inductive TaskTrace (h : History) : List ℕ → History → Prop where
  | refl : TaskTrace h [] h
  | tail {l : List ℕ} {h' h'' : History} (ht : TaskTrace h l h') (hs : TaskStep h' h'') :
      TaskTrace h (l ++ (becomesCurrent h' h'').toList) h''

/-! ## The rota of a history -/

/-- The tasks in the order they were made in, and the position of `current_task`. -/
def History.rota (h : History) : Rota ℕ := ⟨h.tasks, h.tasks.idxOf h.kernel.sys.currentTask⟩

theorem RingInv.current_mem {h : History} (hinv : RingInv h) :
    h.kernel.sys.currentTask ∈ h.tasks :=
  (hinv.tasks _).2 hinv.kernel.current

/-- A step that neither makes a task nor switches. -/
theorem rota_idles {h : History} {k' : Kernel}
    (hcur : k'.sys.currentTask = h.kernel.sys.currentTask) :
    h.rota.Step (becomesCurrent h ⟨k', h.tasks⟩) (History.rota ⟨k', h.tasks⟩) := by
  have hsame : History.rota ⟨k', h.tasks⟩ = h.rota := 
    congrArg (fun u => Rota.mk h.tasks (h.tasks.idxOf u)) hcur
  rw [becomesCurrent, if_pos hcur, hsame]
  exact .idles

/-- Every step of the scheduler is one of the rota. -/
theorem RingInv.rota_step {h h' : History} (hinv : RingInv h) (hs : TaskStep h h') :
    h.rota.Step (becomesCurrent h h') h'.rota := by
  cases hs with
  | computes hc _ _ => exact rota_idles hc.current
  | returns hs =>
      obtain rfl := taskSwitch_returns hs
      exact rota_idles rfl
  | switches hs =>
      obtain ⟨lo, hi, hsw⟩ := hs.inv hinv.kernel
      have hnext := hinv.ring.step _ _ (List.getElem?_idxOf hinv.current_mem)
      rw [← hsw.currentTask] at hnext
      rw [becomesCurrent, if_neg hsw.ne]
      obtain ⟨hlt, heq⟩ := List.getElem?_eq_some_iff.1 hnext
      have hturn : h.tasks.idxOf (_ : Kernel).sys.currentTask
          = (h.tasks.idxOf h.kernel.sys.currentTask + 1) % h.tasks.length :=
        heq ▸ hinv.ring.nodup.idxOf_getElem _ hlt
      rw [History.rota, History.rota, hturn]
      exact .passes hnext
  | @creates fuel entryPoint t base s' hrun ht hbase =>
      have hc := hinv.kernel.creates_of_run hrun ht hbase
      obtain ⟨tail, hcreated⟩ := hc.inv hinv.kernel
      have hcur : s'.currentTask = h.kernel.sys.currentTask := hcreated.currentTask
      rw [becomesCurrent, if_pos hcur, History.rota, History.rota, hcur,
        List.idxOf_append_of_mem hinv.current_mem]
      exact .joins fun hmem => (hinv.tasks t).1 hmem hc.fresh

theorem RingInv.rota_turns {h h' : History} {l : List ℕ} (hinv : RingInv h)
    (ht : TaskTrace h l h') : RingInv h' ∧ h.rota.Turns l h'.rota := by
  induction ht with
  | refl => exact ⟨hinv, .refl⟩
  | tail _ hs ih => exact ⟨ih.1.step hs, ih.2.tail (ih.1.rota_step hs)⟩

/-! ## The result -/

/-- In every run from `tasking_init`, from a state in which `t` is current to the next step in which it
    becomes current: every other task there was in that state becomes current exactly once, in the
    order of the ring, and every task made since at most once. -/
theorem task_switch_fair {fuel : ℕ} {s s₀ : Sys} {live : ℕ → Option ℕ} {bs : List FirstFit.Block}
    {lo hi : ℕ} (hheap : HeapInv s.cpu.mem live bs) (hpid : s.nextPid = 1)
    (hinit : taskingInit fuel s = some s₀) (hne : s₀.currentTask ≠ 0) (hlo : lo ≤ hi)
    (hhi : hi < 4294967296) (hout : hi ≤ heapStart ∨ heapStart + heapSize ≤ lo)
    {h h' h'' : History} {l : List ℕ} {t : ℕ}
    (hrun : TaskRun ⟨⟨s₀, oneTask s₀.currentTask lo hi⟩, [s₀.currentTask]⟩ h)
    (hcur : h.kernel.sys.currentTask = t) (htrace : TaskTrace h l h') (hnot : t ∉ l)
    (hs : TaskStep h' h'') (hback : becomesCurrent h' h'' = some t) :
    (∀ u ∈ h.tasks, u ≠ t → l.count u = 1) ∧
    (l.filter (· ∈ h.tasks) =
      (List.range (h.tasks.length - 1)).map fun k => (taskNext h.kernel.mem)^[k + 1] t) ∧
    ∀ u ∉ h.tasks, l.count u ≤ 1 := by
  have hinv := (taskingInit_ring hheap hpid hinit hne hlo hhi hout).run hrun
  obtain ⟨hinv', hturns⟩ := hinv.rota_turns htrace
  have hpass := hinv'.rota_step hs
  rw [hback] at hpass
  subst hcur
  obtain ⟨pre, post, heq⟩ := List.append_of_mem hinv.current_mem
  have hnodup := hinv.ring.nodup
  have hpre : h.kernel.sys.currentTask ∉ pre := by
    rw [heq, List.nodup_middle, List.nodup_cons] at hnodup
    exact fun hmem => hnodup.1 (List.mem_append_left _ hmem)
  have hturn : h.rota.turn = pre.length := by
    rw [History.rota, heq, List.idxOf_append_of_notMem hpre, List.idxOf_cons_self, Nat.add_zero]
  obtain ⟨hdup, hall, horder⟩ := hturns.fair hnodup heq hturn hnot hpass
  refine ⟨fun u hu hut => List.count_eq_one_of_mem hdup (hall u hu hut), ?_,
    fun u _ => List.nodup_iff_count_le_one.1 hdup u⟩
  have hrotation := (heq ▸ hinv.ring).rotation
  rw [show h.tasks.length - 1 = pre.length + post.length by simp [heq], ← hrotation]
  exact horder

/-- Two tasks: between two turns of the first the second has one. -/
theorem task_switch_fair_boot : ∃ s₀ h h' h'' l, taskingInit 2 bootSys = some s₀ ∧
    TaskRun ⟨⟨s₀, oneTask s₀.currentTask 0x80000 0x90000⟩, [s₀.currentTask]⟩ h ∧
    TaskTrace h l h' ∧ TaskStep h' h'' ∧ becomesCurrent h' h'' = some s₀.currentTask ∧
    l.filter (· ∈ h.tasks) = (List.range (h.tasks.length - 1)).map
      fun k => (taskNext h.kernel.mem)^[k + 1] s₀.currentTask := by
  obtain ⟨s₀, s₁, hinit, hcur, hready, hcreate⟩ := bootSys_run
  have h₀ : KernelInv ⟨s₀, oneTask s₀.currentTask 0x80000 0x90000⟩ :=
    taskingInit_inv (memoryInit_inv fun _ => 0) hinit (by rw [hcur]; decide) (by decide) (by decide)
      (Or.inl (by decide))
  have hc := h₀.creates_of_run hcreate (by decide) (by decide)
  obtain ⟨tail, hcreated⟩ := hc.inv h₀
  obtain ⟨call, k₂, call', k₃, hout, hcur₂, hin, hcur₃⟩ :=
    bootSys_round h₀ (by rw [hcur]) hcur hready hc
  have hcur₁ : s₁.currentTask = 0x10000C := hcreated.currentTask.trans hcur
  have htrace := (TaskTrace.refl (h := ⟨⟨s₁, _⟩, [s₀.currentTask] ++ [0x100030]⟩)).tail (.switches hout)
  simp only [becomesCurrent, hcur₁, hcur₂] at htrace
  have hback : becomesCurrent ⟨k₂, [s₀.currentTask] ++ [0x100030]⟩
      ⟨k₃, [s₀.currentTask] ++ [0x100030]⟩ = some s₀.currentTask := by
    simp [becomesCurrent, hcur₂, hcur₃, hcur]
  have hrun := Relation.ReflTransGen.single
    (TaskStep.creates (h := ⟨⟨s₀, oneTask s₀.currentTask 0x80000 0x90000⟩, [s₀.currentTask]⟩) hcreate
      (by decide) (by decide))
  refine ⟨s₀, _, _, _, _, hinit, hrun, htrace, .switches hin, hback, ?_⟩
  exact (task_switch_fair (memoryInit_inv fun _ => 0) rfl hinit (by rw [hcur]; decide)
    (show 0x80000 ≤ 0x90000 by decide) (by decide) (Or.inl (by decide)) hrun
    (hcur₁.trans hcur.symm) htrace (by rw [hcur]; decide) (.switches hin) hback).2.1

end BlackHole
