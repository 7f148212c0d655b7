import Mathlib.Data.List.Range
import BlackHole.Lib.LinkedRing
import BlackHole.Kernel.ContextSwitch

set_option autoImplicit false

/-! # The ring of tasks

`ready_queue` is a circular list that `create_kernel_thread` edits in place and `task_switch` goes
round with `current_task`. Over every history of the two (`TaskRun`) it holds the tasks in the order
they were made in (`tasks_ring`), so the search for its tail ends. That a new task's memory is
apart from the others' is not asked for: it follows from its two allocations. -/

namespace BlackHole

open Bytes FirstFit

/-! ## New threads -/

/-- `t->id` -/
def taskId (m : Mem) (t : ℕ) : ℕ := le32 m t

/-- The words of a new task that `create_kernel_thread` fills in first. -/
theorem prepareTask_id (m : Mem) {t base : ℕ} (entryPoint readyQueue : ℕ)
    (hbase : base + 4096 < 4294967296) (hapart : base + 4096 ≤ t ∨ t + taskSize ≤ base) :
    taskId (prepareTask m t base entryPoint readyQueue) t = taskId m t := by
  unfold taskSize at hapart
  simp (disch := omega) only [taskId, prepareTask, initialFrame_eq m hbase, setTaskEsp, setTaskEbp,
    setTaskEip, setTaskNext, le32_put32_of_disjoint]

/-- A new thread takes the next id. -/
theorem Creates.id_new {k k' : Kernel} {entryPoint t base : ℕ} (hinv : KernelInv k)
    (h : Creates k entryPoint t base k') : taskId k'.mem t = k.sys.nextPid % 4294967296 ∧
      k'.sys.nextPid = u32 (k.sys.nextPid + 1) ∧ t < heapStart + heapSize := by
  obtain ⟨m₁, m₂, tail, hst⟩ := h.stores hinv
  obtain ⟨live, bs, -, hth⟩ := hst.memory
  have hself := h.stack_self
  have hselfsome : k'.stack t ≠ none := by rw [hself]; simp
  obtain ⟨hne, hsame⟩ := h.stack_old hst.task
  have htail := h.apart.tasks tail t (hsame ▸ hst.task) hselfsome hne
  have hapart := h.apart.stackTask t t base (base + 4096) hself hselfsome
  have hbounds := h.apart.bounds t base (base + 4096) hself
  have hmax := hth.task.2
  unfold taskSize at htail hmax
  refine ⟨?_, by rw [hst.sys], by omega⟩
  calc taskId k'.mem t
      = taskId (prepareTask m₂ t base entryPoint k.sys.readyQueue) t := by
        rw [Kernel.mem, hst.sys]
        exact le32_put32_of_disjoint _ _ (by omega)
    _ = taskId m₂ t := prepareTask_id m₂ entryPoint _ hbounds.2 hapart
    _ = taskId (labelTask k.sys m₁ t) t :=
        le32_congr fun j hj => hth.label _ (by omega) (by unfold taskSize; omega)
    _ = k.sys.nextPid % 4294967296 := by
        simp only [taskId, labelTask, setTaskId, setTaskCr3]
        rw [le32_put32_of_disjoint _ _ (by omega), le32_put32]

/-- The other tasks keep theirs. -/
theorem Created.id_old {k k' : Kernel} {entryPoint t base tail u : ℕ} (hinv : KernelInv k)
    (h : Created k entryPoint t base k' tail) (hu : k.stack u ≠ none) :
    taskId k'.mem u = taskId k.mem u := by
  obtain ⟨⟨lo, hi⟩, hstack⟩ := Option.ne_none_iff_exists'.1 hu
  have htasks := hinv.apart.tasks u tail hu h.task
  unfold taskSize at htasks
  refine le32_congr fun j hj => h.kept u lo hi hstack _ (Or.inl (by unfold taskSize; omega)) ?_
  by_cases heq : u = tail
  · omega
  · have := htasks heq
    omega

/-- A switch leaves every id as it is. -/
theorem Switches.id {k k' : Kernel} {call : Machine} {ret : UInt32} (hinv : KernelInv k)
    (h : Switches k call ret k') {u : ℕ} (hu : k.stack u ≠ none) :
    taskId k'.mem u = taskId k.mem u := by
  obtain ⟨lo, hi, hcalls⟩ := h.calls hinv
  obtain ⟨-, -, hkeep, -⟩ := hcalls.spec hinv
  have hst := hinv.apart.stackTask _ u lo hi hcalls.stack hu
  have htasks := hinv.apart.tasks u _ hu hinv.current
  unfold taskSize at hst htasks
  refine le32_congr fun j hj => hkeep _ (by omega) ?_ ?_ <;>
    by_cases heq : u = k.sys.currentTask
  · omega
  · have := htasks heq
    omega
  · omega
  · have := htasks heq
    omega

/-! ## Histories -/

/-- A kernel and the tasks made so far. -/
structure History where
  kernel : Kernel
  tasks : List ℕ

/-- What can happen next: a task computes, leaving the ids and the queue alone; `task_switch` returns
    at once; it switches; `create_kernel_thread` returns, both its allocations having succeeded. -/
inductive TaskStep (h : History) : History → Prop where
  | computes {k' : Kernel} (hc : Computes h.kernel k')
      (htcb : ∀ t, h.kernel.stack t ≠ none → taskId k'.mem t = taskId h.kernel.mem t ∧
        taskNext k'.mem t = taskNext h.kernel.mem t)
      (hpid : k'.sys.nextPid = h.kernel.sys.nextPid) : TaskStep h ⟨k', h.tasks⟩
  | returns {eip magic : UInt32} {s' : Sys}
      (hs : taskSwitch h.kernel.sys eip magic = (s', none)) :
      TaskStep h ⟨⟨s', h.kernel.stack⟩, h.tasks⟩
  | switches {call : Machine} {ret : UInt32} {k' : Kernel} (hs : Switches h.kernel call ret k') :
      TaskStep h ⟨k', h.tasks⟩
  | creates {fuel entryPoint t base : ℕ} {s' : Sys}
      (hrun : createKernelThread fuel h.kernel.sys entryPoint = some (s', t, base)) (ht : t ≠ 0)
      (hbase : base ≠ 0) :
      TaskStep h ⟨⟨s', Function.update h.kernel.stack t (some (base, base + 4096))⟩, h.tasks ++ [t]⟩

def TaskRun : History → History → Prop := Relation.ReflTransGen TaskStep

/-! ## The invariant -/

/-- The tasks made so far are a ring, in order, and are numbered in that order. -/
structure RingInv (h : History) : Prop where
  kernel : KernelInv h.kernel
  ring : LinkedRing (taskNext h.kernel.mem) h.tasks
  head : h.tasks.head? = some h.kernel.sys.readyQueue
  tasks : ∀ t, t ∈ h.tasks ↔ h.kernel.stack t ≠ none
  inHeap : ∀ t ∈ h.tasks, t < heapStart + heapSize
  ids : ∀ i t, h.tasks[i]? = some t → taskId h.kernel.mem t = i + 1
  nextPid : h.kernel.sys.nextPid = h.tasks.length + 1

/-- There are less tasks than bytes in the heap, so the ids never wrap. -/
theorem RingInv.length_le {h : History} (hinv : RingInv h) :
    h.tasks.length ≤ heapStart + heapSize := by
  have hsub : h.tasks ⊆ List.range (heapStart + heapSize) := fun t ht =>
    List.mem_range.2 (hinv.inHeap t ht)
  have hle := (hinv.ring.nodup.subperm hsub).length_le
  rwa [List.length_range] at hle

/-- A step that makes no task and leaves the queue, the ids and the statics alone. -/
theorem RingInv.same {h : History} (hinv : RingInv h) {k' : Kernel} (hk : KernelInv k')
    (hstack : k'.stack = h.kernel.stack) (hready : k'.sys.readyQueue = h.kernel.sys.readyQueue)
    (hpid : k'.sys.nextPid = h.kernel.sys.nextPid)
    (htcb : ∀ t, h.kernel.stack t ≠ none → taskId k'.mem t = taskId h.kernel.mem t ∧
      taskNext k'.mem t = taskNext h.kernel.mem t) : RingInv ⟨k', h.tasks⟩ where
  kernel := hk
  ring := hinv.ring.congr fun t ht => (htcb t ((hinv.tasks t).1 ht)).2
  head := hready ▸ hinv.head
  tasks := hstack ▸ hinv.tasks
  inHeap := hinv.inHeap
  ids i t hi := ((htcb t ((hinv.tasks t).1 (List.mem_of_getElem? hi))).1).trans (hinv.ids i t hi)
  nextPid := hpid.trans hinv.nextPid

theorem taskSwitch_returns {s s' : Sys} {eip magic : UInt32}
    (h : taskSwitch s eip magic = (s', none)) : s' = s := by
  simp only [taskSwitch] at h
  obtain ⟨-, h⟩ | ⟨-, h⟩ := ite_eq_iff.1 h
  · exact (Prod.mk.inj h).1.symm
  obtain ⟨-, h⟩ | ⟨-, h⟩ := ite_eq_iff.1 h
  · exact (Prod.mk.inj h).1.symm
  · exact absurd (Prod.mk.inj h).2 (Option.some_ne_none _)

/-- The tail that `create_kernel_thread` finds is the task made last. -/
theorem RingInv.tail_eq {h : History} (hinv : RingInv h) {fuel tail : ℕ}
    (hfound : Loop.iterate (tailStep h.kernel.mem h.kernel.sys.readyQueue) fuel
      h.kernel.sys.readyQueue = some tail) : h.tasks.getLast? = some tail := by
  obtain ⟨last, hlast⟩ : ∃ last, h.tasks.getLast? = some last :=
    Option.ne_none_iff_exists'.1 (by simpa using hinv.ring.ne_nil)
  have hsearch := hinv.ring.search hinv.head hlast
  rw [hlast, (Loop.FuelMono.iterate _ _).unique hfound hsearch]

/-- A new task comes behind the last one. -/
theorem RingInv.creates {h : History} (hinv : RingInv h) {k' : Kernel} {entryPoint t base : ℕ}
    (hc : Creates h.kernel entryPoint t base k') : RingInv ⟨k', h.tasks ++ [t]⟩ := by
  obtain ⟨tail, hcreated⟩ := hc.inv hinv.kernel
  obtain ⟨hid, hpid, hheap⟩ := hc.id_new hinv.kernel
  obtain ⟨fuel, hfound⟩ := hcreated.found
  have hlast := hinv.tail_eq hfound
  have hfresh : t ∉ h.tasks := fun ht => (hinv.tasks t).1 ht hc.fresh
  have hlen := hinv.length_le
  unfold heapStart heapSize at hlen
  refine ⟨hinv.kernel.creates hc, ?_, ?_, fun u => ?_, fun u hu => ?_, fun i u hi => ?_, ?_⟩
  · exact hinv.ring.concat hinv.head hlast hfresh hcreated.last hcreated.link
      fun u hu hne => hcreated.next u ((hinv.tasks u).1 hu) hne
  · rw [List.head?_append, hinv.head, hcreated.readyQueue]
    rfl
  · rw [List.mem_append, List.mem_singleton, hinv.tasks, hc.stack]
    by_cases hut : u = t
    · simp [hut]
    · simp [hut]
  · rcases List.mem_append.1 hu with hold | hnew
    · exact hinv.inHeap u hold
    · exact List.mem_singleton.1 hnew ▸ hheap
  · rw [List.getElem?_append] at hi
    split at hi
    next hlt =>
      have hu := (hinv.tasks u).1 (List.mem_of_getElem? hi)
      exact (hcreated.id_old hinv.kernel hu).trans (hinv.ids i u hi)
    next hge =>
      obtain ⟨hi1, rfl⟩ := List.getElem?_eq_some_iff.1 hi
      simp only [List.length_singleton] at hi1
      obtain rfl : i = h.tasks.length := by omega
      simp only [Nat.sub_self, List.getElem_cons_zero]
      rw [hid, hinv.nextPid, Nat.mod_eq_of_lt (by omega)]
  · rw [hpid, hinv.nextPid, u32_of_lt (by omega), List.length_append, List.length_singleton]

theorem RingInv.step {h h' : History} (hinv : RingInv h) (hs : TaskStep h h') : RingInv h' := by
  cases hs with
  | computes hc htcb hpid =>
      exact hinv.same (hinv.kernel.computes hc) hc.stack hc.ready hpid htcb
  | returns hs =>
      obtain rfl := taskSwitch_returns hs
      exact hinv
  | switches hs =>
      obtain ⟨lo, hi, hcalls⟩ := hs.calls hinv.kernel
      exact hinv.same (hinv.kernel.switches hs) hs.stack (by rw [hcalls.sys]) (by rw [hcalls.sys])
        fun t ht => ⟨hs.id hinv.kernel ht, hs.next hinv.kernel ht⟩
  | creates hrun ht hbase =>
      exact hinv.creates (hinv.kernel.creates_of_run hrun ht hbase)

theorem RingInv.run {h h' : History} (hinv : RingInv h) (hs : TaskRun h h') : RingInv h' := by
  induction hs with
  | refl => exact hinv
  | tail _ hstep ih => exact ih.step hstep

/-! ## The result -/

/-- With `tasking_init` the first task is a ring of its own. -/
theorem taskingInit_ring {fuel : ℕ} {s s' : Sys} {live : ℕ → Option ℕ} {bs : List Block} {lo hi : ℕ}
    (hheap : HeapInv s.cpu.mem live bs) (hpid : s.nextPid = 1)
    (hrun : taskingInit fuel s = some s') (hne : s'.currentTask ≠ 0) (hlo : lo ≤ hi)
    (hhi : hi < 4294967296) (hout : hi ≤ heapStart ∨ heapStart + heapSize ≤ lo) :
    RingInv ⟨⟨s', oneTask s'.currentTask lo hi⟩, [s'.currentTask]⟩ := by
  have hinv := taskingInit_inv hheap hrun hne hlo hhi hout
  obtain ⟨t, m₁, h₁, rfl⟩ : ∃ t m₁, memoryAlloc fuel s.cpu.mem taskSize = some (t, m₁) ∧ _ = s' := by
    obtain ⟨⟨t, m₁⟩, h₁, hs'⟩ := Option.map_eq_some_iff.1 hrun
    exact ⟨t, m₁, h₁, hs'⟩
  obtain ⟨live', bs', -, ha⟩ := memoryAlloc_owned hheap (by decide) h₁
  have hmax := ha.stop_le
  unfold heapStart heapSize taskSize at hmax
  refine ⟨hinv, LinkedRing.singleton ?_, rfl, fun u => ?_, fun u hu => ?_, fun i u hi => ?_, ?_⟩
  · simp only [taskNext, setTaskNext, Kernel.mem, le32_put32]
    omega
  · rw [List.mem_singleton, oneTask_ne_none]
  · obtain rfl := List.mem_singleton.1 hu
    unfold heapStart heapSize
    omega
  · obtain ⟨hlt, rfl⟩ := List.getElem?_eq_some_iff.1 hi
    simp only [List.length_singleton] at hlt
    obtain rfl : i = 0 := by omega
    simp (disch := omega) only [List.getElem_cons_zero, Kernel.mem, taskId, setTaskId, setTaskEsp,
      setTaskEbp, setTaskEip, setTaskCr3, setTaskNext, le32_put32_of_disjoint, le32_put32, hpid]
  · simp only [hpid]
    rfl

theorem createKernelThread_eq {fuel : ℕ} {s : Sys} {entryPoint t base tail : ℕ} {m₁ m₂ : Mem}
    (h₁ : memoryAlloc fuel s.cpu.mem taskSize = some (t, m₁))
    (h₂ : memoryAlloc fuel (labelTask s m₁ t) 4096 = some (base, m₂))
    (h₃ : Loop.iterate (tailStep (prepareTask m₂ t base entryPoint s.readyQueue) s.readyQueue) fuel
      s.readyQueue = some tail) :
    createKernelThread fuel s entryPoint = some
      ({ s with
          cpu := { s.cpu with
            mem := setTaskNext (prepareTask m₂ t base entryPoint s.readyQueue) tail t }
          nextPid := u32 (s.nextPid + 1) }, t, base) := by
  rw [createKernelThread, h₁, Option.bind_some]
  change (memoryAlloc fuel (labelTask s m₁ t) 4096).bind _ = _
  rw [h₂, Option.bind_some]
  change (Loop.iterate (tailStep (prepareTask m₂ t base entryPoint s.readyQueue) s.readyQueue) fuel
    s.readyQueue).map _ = _
  rw [h₃, Option.map_some]
  rfl

/-- The search of `create_kernel_thread` goes round the ring and ends at its last task, in any memory
    that has kept the links. -/
theorem RingInv.search {h : History} (hinv : RingInv h) {m : Mem}
    (hnext : ∀ u ∈ h.tasks, taskNext m u = taskNext h.kernel.mem u) :
    ∃ tail, h.tasks.getLast? = some tail ∧ ∀ fuel, h.tasks.length ≤ fuel →
      Loop.iterate (tailStep m h.kernel.sys.readyQueue) fuel h.kernel.sys.readyQueue
        = some tail := by
  obtain ⟨tail, htail⟩ : ∃ tail, h.tasks.getLast? = some tail :=
    Option.ne_none_iff_exists'.1 (by simpa using hinv.ring.ne_nil)
  have hpos := hinv.ring.length_pos
  exact ⟨tail, htail, fun fuel hfuel =>
    (hinv.ring.congr hnext).search hinv.head htail fuel (by omega)⟩

/-- When its allocations succeed, `create_kernel_thread` returns. -/
theorem RingInv.createKernelThread_returns {h : History} (hinv : RingInv h)
    {n t base entryPoint : ℕ} {m₁ m₂ : Mem}
    (h₁ : memoryAlloc n h.kernel.mem taskSize = some (t, m₁)) (ht : t ≠ 0)
    (h₂ : memoryAlloc n (labelTask h.kernel.sys m₁ t) 4096 = some (base, m₂)) (hbase : base ≠ 0) :
    ∃ r, ∀ fuel, n + h.tasks.length ≤ fuel →
      createKernelThread fuel h.kernel.sys entryPoint = some r := by
  obtain ⟨live, bs, -, hth⟩ := hinv.kernel.owned.allocates h₁ h₂
  have hnext : ∀ u ∈ h.tasks,
      taskNext (prepareTask m₂ t base entryPoint h.kernel.sys.readyQueue) u
        = taskNext h.kernel.mem u := by
    intro u hu
    obtain ⟨⟨lo, hi⟩, hstack⟩ := Option.ne_none_iff_exists'.1 ((hinv.tasks u).1 hu)
    obtain ⟨hut, hub⟩ := hth.apart ht hbase u lo hi hstack u taskSize (Or.inl ⟨rfl, rfl⟩)
    unfold taskSize at hut hub
    exact le32_congr fun j hj => hth.prepared entryPoint hstack
      (Or.inl (by unfold taskSize; omega)) (by unfold taskSize; omega) (by omega)
  obtain ⟨tail, -, hsearch⟩ := hinv.search hnext
  exact ⟨_, fun fuel hfuel => createKernelThread_eq
    (memoryAlloc_fuelMono _ _ (by omega) h₁) (memoryAlloc_fuelMono _ _ (by omega) h₂)
    (hsearch fuel (by omega))⟩

/-- In every state reached from `tasking_init`: following `next` from `ready_queue` visits every task
    made so far once, in the order they were made in, and comes back; `current_task` is one of them;
    their ids differ; and a call of `create_kernel_thread` whose allocations succeed finds the tail
    and returns. -/
theorem tasks_ring {fuel : ℕ} {s s₀ : Sys} {live : ℕ → Option ℕ} {bs : List Block} {lo hi : ℕ}
    (hheap : HeapInv s.cpu.mem live bs) (hpid : s.nextPid = 1)
    (hinit : taskingInit fuel s = some s₀) (hne : s₀.currentTask ≠ 0) (hlo : lo ≤ hi)
    (hhi : hi < 4294967296) (hout : hi ≤ heapStart ∨ heapStart + heapSize ≤ lo) {h : History}
    (hrun : TaskRun ⟨⟨s₀, oneTask s₀.currentTask lo hi⟩, [s₀.currentTask]⟩ h) :
    h.tasks.Nodup ∧
    (∀ i < h.tasks.length,
      h.tasks[i]? = some ((taskNext h.kernel.mem)^[i] h.kernel.sys.readyQueue)) ∧
    (taskNext h.kernel.mem)^[h.tasks.length] h.kernel.sys.readyQueue = h.kernel.sys.readyQueue ∧
    h.kernel.sys.currentTask ∈ h.tasks ∧
    (∀ t ∈ h.tasks, ∀ u ∈ h.tasks, taskId h.kernel.mem t = taskId h.kernel.mem u → t = u) ∧
    ∀ n t m₁ base m₂ entryPoint, memoryAlloc n h.kernel.mem taskSize = some (t, m₁) → t ≠ 0 →
      memoryAlloc n (labelTask h.kernel.sys m₁ t) 4096 = some (base, m₂) → base ≠ 0 →
      ∃ r, ∀ fuel, n + h.tasks.length ≤ fuel →
        createKernelThread fuel h.kernel.sys entryPoint = some r := by
  have hinv := (taskingInit_ring hheap hpid hinit hne hlo hhi hout).run hrun
  obtain ⟨hround, hback⟩ := hinv.ring.round hinv.head
  refine ⟨hinv.ring.nodup, hround, hback, (hinv.tasks _).2 hinv.kernel.current,
    fun t ht u hu hid => ?_, fun n t m₁ base m₂ entryPoint h₁ ht h₂ hbase =>
      hinv.createKernelThread_returns h₁ ht h₂ hbase⟩
  obtain ⟨i, hi⟩ := List.mem_iff_getElem?.1 ht
  obtain ⟨j, hj⟩ := List.mem_iff_getElem?.1 hu
  rw [hinv.ids i t hi, hinv.ids j u hj, Nat.add_right_cancel_iff] at hid
  rw [hid, hj, Option.some.injEq] at hi
  exact hi.symm

/-- The first task makes a thread: the two are a ring. -/
theorem tasks_ring_boot : ∃ s₀ s₁, taskingInit 2 bootSys = some s₀ ∧
    createKernelThread 4 s₀ 0x2000 = some (s₁, 0x100030, 0x100054) ∧
    (∀ i < 2, [0x10000C, 0x100030][i]? = some ((taskNext s₁.cpu.mem)^[i] s₁.readyQueue)) ∧
    (taskNext s₁.cpu.mem)^[2] s₁.readyQueue = s₁.readyQueue := by
  obtain ⟨s₀, s₁, hinit, hcur, -, hcreate⟩ := bootSys_run
  have hring := tasks_ring (memoryInit_inv fun _ => 0) rfl hinit (by rw [hcur]; decide)
    (show 0x80000 ≤ 0x90000 by decide) (by decide) (Or.inl (by decide))
    (Relation.ReflTransGen.single (.creates hcreate (by decide) (by decide)))
  simp only [hcur] at hring
  exact ⟨s₀, s₁, hinit, hcreate, hring.2.1, hring.2.2.1⟩

end BlackHole
