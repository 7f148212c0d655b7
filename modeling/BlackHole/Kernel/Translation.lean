import BlackHole.Kernel.Paging
import BlackHole.Kernel.ThreadFailure

set_option autoImplicit false

/-! # Address translation while tasks run

Each task carries the page directory it runs with, and `task_switch` loads it. All of them have got the
directory of `paging_init`, whose tables lie below the heap, where neither the heap nor the scheduler
writes. So in every history the processor translates as `paging_init` has set it up, and the stacks and
control blocks of the tasks are mapped (`translation_kept`). -/

namespace BlackHole

open Bytes FirstFit

/-! ## The invariant -/

/-- The byte belongs to the directory or to the page table. -/
def InTables (directory table x : ℕ) : Prop :=
  directory ≤ x ∧ x < directory + 4096 ∨ table ≤ x ∧ x < table + 4096

/-- The tables as `paging_init` has filled them are below the heap and apart from the stacks, and CR3
    and every task's copy of it point to the directory. -/
structure Mapped (directory table : ℕ) (h : History) : Prop where
  below : directory + 4096 ≤ heapStart ∧ table + 4096 ≤ heapStart
  tables : IdentityTables (le32 h.kernel.mem) directory table
  register : h.kernel.sys.cpu.cr3.toNat = directory
  tasks : ∀ t, h.kernel.stack t ≠ none → taskCr3 h.kernel.mem t = directory
  places : ∀ t lo hi, h.kernel.stack t = some (lo, hi) → hi ≤ heapStart + heapSize ∧
    ∀ x, InTables directory table x → x < lo ∨ hi ≤ x

/-- The running task leaves alone what decides on the translation: CR3, the tasks' copies of it and the
    tables. -/
def SparesTables (directory table : ℕ) (h h' : History) : Prop :=
  h'.kernel.stack = h.kernel.stack → h'.kernel.sys.currentTask = h.kernel.sys.currentTask →
    h'.kernel.sys.cpu.cr3 = h.kernel.sys.cpu.cr3 ∧
    (∀ t, h.kernel.stack t ≠ none → taskCr3 h'.kernel.mem t = taskCr3 h.kernel.mem t) ∧
    ∀ x, InTables directory table x → h'.kernel.mem x = h.kernel.mem x

/-- Histories in which the tasks do not store to the tables. -/
def SparingRun (directory table : ℕ) : History → History → Prop :=
  Relation.ReflTransGen fun h h' => TaskStep h h' ∧ SparesTables directory table h h'

variable {directory table : ℕ}

theorem IdentityTables.congr {m m' : Mem} (h : IdentityTables (le32 m) directory table)
    (hm : ∀ x, InTables directory table x → m' x = m x) :
    IdentityTables (le32 m') directory table where
  directory_aligned := h.directory_aligned
  table_aligned := h.table_aligned
  directory_entry := by
    intro i hi
    rw [← h.directory_entry i hi]
    exact le32_congr fun k hk => hm _ (Or.inl (by omega))
  table_entry := by
    intro i hi
    rw [← h.table_entry i hi]
    exact le32_congr fun k hk => hm _ (Or.inr (by omega))

/-- A step that makes no task. -/
theorem Mapped.same {h : History} (hmap : Mapped directory table h) {k' : Kernel} {tasks : List ℕ}
    (hstack : k'.stack = h.kernel.stack) (hcr3 : k'.sys.cpu.cr3 = h.kernel.sys.cpu.cr3)
    (htasks : ∀ t, h.kernel.stack t ≠ none → taskCr3 k'.mem t = taskCr3 h.kernel.mem t)
    (hm : ∀ x, InTables directory table x → k'.mem x = h.kernel.mem x) :
    Mapped directory table ⟨k', tasks⟩ where
  below := hmap.below
  tables := hmap.tables.congr hm
  register := hcr3 ▸ hmap.register
  tasks := by
    intro t ht
    have ht' : h.kernel.stack t ≠ none := hstack ▸ ht
    exact (htasks t ht').trans (hmap.tasks t ht')
  places := by
    intro t lo hi ht
    exact hmap.places t lo hi (hstack ▸ ht)

/-! ## Switching -/

theorem callSwitchTask_cr3 (ret : UInt32) (s : Machine) : (callSwitchTask ret s).cr3 = s.cr3 := rfl

/-- `task_switch` reloads CR3 for a task with another directory only. -/
theorem taskSwitch_cr3 {s s' : Sys} {eip magic : UInt32} {args : ℕ × ℕ}
    (h : taskSwitch s eip magic = (s', some args))
    (hsame : taskCr3 (setTaskEip s.cpu.mem s.currentTask eip.toNat) s.currentTask
      = taskCr3 (setTaskEip s.cpu.mem s.currentTask eip.toNat)
          (taskNext (setTaskEip s.cpu.mem s.currentTask eip.toNat) s.currentTask)) :
    s'.cpu.cr3 = s.cpu.cr3 := by
  simp only [taskSwitch] at h
  obtain ⟨-, h⟩ | ⟨-, h⟩ := ite_eq_iff.1 h
  · exact absurd (Prod.mk.inj h).2 (by simp)
  obtain ⟨-, h⟩ | ⟨-, h⟩ := ite_eq_iff.1 h
  · exact absurd (Prod.mk.inj h).2 (by simp)
  obtain ⟨rfl, -⟩ := Prod.mk.inj h
  exact if_neg (not_not.2 hsame)

/-- A switch writes to the stack and the control block of the task it leaves, and to no other memory. -/
theorem Mapped.switches {h : History} (hinv : SchedulerInv h) (hmap : Mapped directory table h)
    {call : Machine} {ret : UInt32} {k' : Kernel} (hs : Switches h.kernel call ret k') :
    Mapped directory table ⟨k', h.tasks⟩ := by
  have hkernel := hinv.ring.kernel
  obtain ⟨lo, hi, hsw⟩ := hs.inv hkernel
  have hcur := hkernel.current
  have hnext := hkernel.next _ hcur
  have hlow := hinv.heapStart_le _ ((hinv.ring.tasks _).2 hcur)
  have hbelow := hmap.below
  have hplace := (hmap.places _ lo hi hsw.stack).2
  refine hmap.same hs.stack ?_ (fun t ht => le32_congr fun j hj => hsw.kept _ ?_ ?_)
    fun x hx => hsw.kept x (hplace x hx) (Or.inl ?_)
  · obtain ⟨eip, magic, oldEsp, newEsp, s₁, _, _, -, hswitch, -, -, -, -, -, -, hcr3, hsys⟩ := hs.run
    rw [hsys, callSwitchTask_cr3, hcr3]
    refine taskSwitch_cr3 hswitch ?_
    -- the store of `eip` leaves the directories of both tasks alone
    have hkeep : ∀ t, h.kernel.stack t ≠ none →
        taskCr3 (setTaskEip h.kernel.sys.cpu.mem h.kernel.sys.currentTask eip.toNat) t = directory := by
      intro t ht
      refine Eq.trans (le32_put32_of_disjoint _ _ ?_) (hmap.tasks t ht)
      have hapart := hkernel.apart.tasks t _ ht hcur
      unfold taskSize at hapart
      by_cases heq : t = h.kernel.sys.currentTask
      · omega
      · have := hapart heq
        omega
    have hsucc : taskNext (setTaskEip h.kernel.sys.cpu.mem h.kernel.sys.currentTask eip.toNat)
        h.kernel.sys.currentTask = taskNext h.kernel.mem h.kernel.sys.currentTask :=
      le32_put32_of_disjoint _ _ (by omega)
    rw [hsucc, hkeep _ hcur, hkeep _ hnext]
  · have hst := hkernel.apart.stackTask _ t lo hi hsw.stack ht
    unfold taskSize at hst
    omega
  · have hapart := hkernel.apart.tasks t _ ht hcur
    unfold taskSize at hapart
    by_cases heq : t = h.kernel.sys.currentTask
    · omega
    · have := hapart heq
      omega
  · unfold InTables at hx
    omega

/-! ## New threads -/

/-- An allocation leaves the memory outside the heap alone. -/
theorem memoryAlloc_outside {m m' : Mem} {live : ℕ → Option ℕ} {bs : List Block}
    (hheap : HeapInv m live bs) {fuel size q : ℕ} (hsize : size ≤ 4096)
    (hrun : memoryAlloc fuel m size = some (q, m')) {x : ℕ}
    (hx : x < heapStart ∨ heapStart + heapSize ≤ x) : m' x = m x := by
  obtain ⟨live', bs', -, ha⟩ := memoryAlloc_owned hheap hsize hrun
  exact ha.kept x 1 (Or.inl (by omega)) x le_rfl (Nat.lt_succ_self x)

/-- What it hands out is in the heap. -/
theorem memoryAlloc_inHeap {m m' : Mem} {live : ℕ → Option ℕ} {bs : List Block}
    (hheap : HeapInv m live bs) {fuel size q : ℕ} (hsize : size ≤ 4096)
    (hrun : memoryAlloc fuel m size = some (q, m')) (hq : q ≠ 0) : heapStart ≤ q := by
  obtain ⟨q', m'', hall, -, hcases⟩ := memoryAlloc_spec hheap (show size ≤ 0xFFFFFFFC by omega)
  have heq := (memoryAlloc_fuelMono m size).unique hrun hall
  simp only [Prod.mk.injEq] at heq
  obtain ⟨rfl, rfl⟩ := heq
  obtain ⟨-, -, bs', -, hinv'⟩ := hcases.resolve_left fun h0 => hq h0.1
  exact hinv'.le_of_live (by simp)

/-- The stores into the new task behind its second allocation leave its directory alone. -/
theorem prepareTask_cr3 (m : Mem) {t base : ℕ} (entryPoint readyQueue : ℕ)
    (hbase : base + 4096 < 4294967296) (hapart : base + 4096 ≤ t ∨ t + taskSize ≤ base) :
    taskCr3 (prepareTask m t base entryPoint readyQueue) t = taskCr3 m t := by
  unfold taskSize at hapart
  simp (disch := omega) only [taskCr3, prepareTask, initialFrame_eq m hbase, setTaskEsp, setTaskEbp,
    setTaskEip, setTaskNext, le32_put32_of_disjoint]

/-- Everything `create_kernel_thread` writes is in the heap; the new task takes the directory of the
    running one. -/
theorem SchedulerInv.creates_outside {h : History} (hinv : SchedulerInv h)
    {fuel entryPoint t base : ℕ} {s' : Sys}
    (hrun : createKernelThread fuel h.kernel.sys entryPoint = some (s', t, base)) (ht : t ≠ 0)
    (hbase : base ≠ 0) :
    (heapStart ≤ base ∧ base + 4096 ≤ heapStart + heapSize) ∧ s'.cpu.cr3 = h.kernel.sys.cpu.cr3 ∧
      taskCr3 s'.cpu.mem t = taskCr3 h.kernel.mem h.kernel.sys.currentTask ∧
      ∀ x < heapStart, s'.cpu.mem x = h.kernel.mem x := by
  obtain ⟨m₁, m₂, tail, h₁, h₂, h₃, rfl⟩ := createKernelThread_inv hrun
  have hprepared := hinv.next_prepared h₁ h₂ entryPoint
  obtain ⟨tail', hlast, hsearch⟩ := hinv.ring.search fun u hu => (hprepared u hu).2
  obtain rfl := (Loop.FuelMono.iterate _ _).unique h₃ fun fuel hfuel => hsearch fuel hfuel.le
  have htail := List.mem_of_getLast? hlast
  have hle := hinv.heapStart_le tail htail
  have hapart := (hprepared tail htail).1
  obtain ⟨live, bs, hheap, hown⟩ := hinv.ring.kernel.owned
  obtain ⟨live₁, bs₁, hheap₁, ha₁⟩ := memoryAlloc_owned hheap (by decide) h₁
  have hlabel := hheap₁.labelTask (s := h.kernel.sys) ha₁.owned
  obtain ⟨live₂, bs₂, -, ha₂⟩ := memoryAlloc_owned hlabel le_rfl h₂
  have hlt := memoryAlloc_inHeap hheap (by decide) h₁ ht
  have hlbase := memoryAlloc_inHeap hlabel le_rfl h₂ hbase
  have hmax := ha₂.stop_le
  have hself := ha₂.apart hbase t taskSize ha₁.owned
  have hend := hmax
  unfold heapStart heapSize at hend
  refine ⟨⟨hlbase, hmax⟩, rfl, ?_, fun x hx => ?_⟩
  · obtain ⟨⟨lo, hi⟩, hcur⟩ := Option.ne_none_iff_exists'.1 hinv.ring.kernel.current
    have hown := (hown _ lo hi hcur).1
    have hfar := ha₁.apart ht _ taskSize hown
    unfold taskSize at hapart hfar
    calc taskCr3 (setTaskNext (prepareTask m₂ t base entryPoint h.kernel.sys.readyQueue) tail t) t
        = taskCr3 (prepareTask m₂ t base entryPoint h.kernel.sys.readyQueue) t :=
          le32_put32_of_disjoint _ _ (by omega)
      _ = taskCr3 m₂ t := prepareTask_cr3 m₂ entryPoint _ (by omega) (hself.symm)
      _ = taskCr3 (labelTask h.kernel.sys m₁ t) t :=
          le32_congr fun j hj => ha₂.kept t taskSize ha₁.owned _ (by omega) (by unfold taskSize; omega)
      _ = taskCr3 (setTaskId m₁ t h.kernel.sys.nextPid) h.kernel.sys.currentTask := by
          rw [labelTask, taskCr3, setTaskCr3, le32_put32]
          exact Nat.mod_eq_of_lt (le32_lt _ _)
      _ = taskCr3 m₁ h.kernel.sys.currentTask := le32_put32_of_disjoint _ _ (by omega)
      _ = taskCr3 h.kernel.mem h.kernel.sys.currentTask :=
          le32_congr fun j hj => ha₁.kept _ taskSize hown _ (by omega) (by unfold taskSize; omega)
  · calc setTaskNext (prepareTask m₂ t base entryPoint h.kernel.sys.readyQueue) tail t x
        = prepareTask m₂ t base entryPoint h.kernel.sys.readyQueue x :=
          put32_of_outside _ _ (by omega)
      _ = m₂ x := prepareTask_outside m₂ (by omega) (by omega) (by omega)
      _ = labelTask h.kernel.sys m₁ t x := memoryAlloc_outside hlabel le_rfl h₂ (Or.inl hx)
      _ = m₁ x := labelTask_outside _ _ _ (by omega)
      _ = h.kernel.mem x := memoryAlloc_outside hheap (by decide) h₁ (Or.inl hx)

theorem Mapped.creates {h : History} (hinv : SchedulerInv h) (hmap : Mapped directory table h)
    {fuel entryPoint t base : ℕ} {s' : Sys}
    (hrun : createKernelThread fuel h.kernel.sys entryPoint = some (s', t, base)) (ht : t ≠ 0)
    (hbase : base ≠ 0) :
    Mapped directory table
      ⟨⟨s', Function.update h.kernel.stack t (some (base, base + 4096))⟩, h.tasks ++ [t]⟩ := by
  have hkernel := hinv.ring.kernel
  obtain ⟨hrange, hcr3, hnew, hkeep⟩ := hinv.creates_outside hrun ht hbase
  obtain ⟨tail, hcreated⟩ := (hkernel.creates_of_run hrun ht hbase).inv hkernel
  have hbelow := hmap.below
  refine ⟨hbelow, hmap.tables.congr fun x hx => hkeep x ?_, hcr3 ▸ hmap.register, fun u hu => ?_,
    fun u lo hi hu => ?_⟩
  · unfold InTables at hx
    omega
  · by_cases hut : u = t
    · rw [hut]
      exact hnew.trans (hmap.tasks _ hkernel.current)
    · have hold : h.kernel.stack u ≠ none :=
        (PartialMap.update_some_ne_none.1 hu).resolve_left fun heq => hut heq
      obtain ⟨⟨lo, hi⟩, hstack⟩ := Option.ne_none_iff_exists'.1 hold
      have htasks := hkernel.apart.tasks u tail hold hcreated.task
      unfold taskSize at htasks
      refine Eq.trans (le32_congr fun j hj => ?_) (hmap.tasks u hold)
      refine hcreated.kept u lo hi hstack _ (Or.inl (by unfold taskSize; omega)) ?_
      by_cases heq : u = tail
      · omega
      · have := htasks heq
        omega
  · rcases PartialMap.update_some_eq_some.1 hu with ⟨-, hp⟩ | ⟨-, hold⟩
    · obtain ⟨rfl, rfl⟩ := Prod.mk.inj hp
      refine ⟨hrange.2, fun x hx => Or.inl ?_⟩
      unfold InTables at hx
      omega
    · exact hmap.places u lo hi hold

/-! ## Whole runs -/

theorem Mapped.step {h h' : History} (hinv : SchedulerInv h) (hmap : Mapped directory table h)
    (hs : TaskStep h h') (hspares : SparesTables directory table h h') :
    Mapped directory table h' := by
  cases hs with
  | computes hc _ _ =>
      obtain ⟨hcr3, htasks, hm⟩ := hspares hc.stack hc.current
      exact hmap.same hc.stack hcr3 htasks hm
  | returns hs =>
      obtain rfl := taskSwitch_returns hs
      exact hmap
  | switches hs => exact hmap.switches hinv hs
  | creates hrun ht hbase => exact hmap.creates hinv hrun ht hbase

theorem Mapped.run {h h' : History} (hinv : SchedulerInv h) (hmap : Mapped directory table h)
    (hrun : SparingRun directory table h h') : SchedulerInv h' ∧ Mapped directory table h' := by
  induction hrun with
  | refl => exact ⟨hinv, hmap⟩
  | tail _ hstep ih =>
      exact ⟨ih.1.run (.single hstep.1), ih.2.step ih.1 hstep.1 hstep.2⟩

/-- `tasking_init` gives the first task the directory that is loaded. -/
theorem taskingInit_mapped {fuel : ℕ} {s s' : Sys} {live : ℕ → Option ℕ} {bs : List Block} {lo hi : ℕ}
    (hheap : HeapInv s.cpu.mem live bs) (hrun : taskingInit fuel s = some s')
    (hne : s'.currentTask ≠ 0) (hhi : hi ≤ heapStart)
    (hbelow : directory + 4096 ≤ heapStart ∧ table + 4096 ≤ heapStart)
    (hplace : ∀ x, InTables directory table x → x < lo ∨ hi ≤ x)
    (htables : IdentityTables (le32 s.cpu.mem) directory table)
    (hcr3 : s.cpu.cr3.toNat = directory) :
    Mapped directory table ⟨⟨s', oneTask s'.currentTask lo hi⟩, [s'.currentTask]⟩ := by
  obtain ⟨⟨t, m₁⟩, h₁, rfl⟩ := Option.map_eq_some_iff.1 hrun
  have hlt := memoryAlloc_inHeap hheap (by decide) h₁ hne
  refine ⟨hbelow, htables.congr fun x hx => ?_, hcr3, fun u hu => ?_, fun u lo' hi' hu => ?_⟩
  · have hx' : x < heapStart := by
      unfold InTables at hx
      omega
    refine Eq.trans ?_ (memoryAlloc_outside hheap (by decide) h₁ (Or.inl hx'))
    simp (disch := omega) only [Kernel.mem, setTaskId, setTaskEsp, setTaskEbp, setTaskEip, setTaskCr3,
      setTaskNext, put32_of_outside]
  · obtain rfl := oneTask_ne_none.1 hu
    simp (disch := omega) only [Kernel.mem, taskCr3, setTaskCr3, setTaskNext, le32_put32_of_disjoint,
      le32_put32, hcr3]
    unfold heapStart at hbelow
    omega
  · obtain ⟨-, hp⟩ := oneTask_eq_some.1 hu
    obtain ⟨rfl, rfl⟩ := Prod.mk.inj hp
    exact ⟨hhi.trans (Nat.le_add_right _ _), hplace⟩

/-- What the processor makes of an address in a history. -/
def History.walk (h : History) (v : ℕ) : Option ℕ :=
  X86.walk (le32 h.kernel.mem) h.kernel.sys.cpu.cr3.toNat v

/-- `memory_init` writes to the heap only. -/
theorem memoryInit_outside (m : Mem) {x : ℕ} (hx : x < heapStart ∨ heapStart + heapSize ≤ x) :
    memoryInit m x = m x := by
  unfold heapStart heapSize at hx
  simp (disch := omega) only [memoryInit, setBlockSize, setBlockIsFree, setBlockNext, heapStart,
    put32_of_outside]

end BlackHole
