import BlackHole.Kernel.Allocation
import BlackHole.Kernel.RoundRobin

set_option autoImplicit false

/-! # New threads on any heap

`create_kernel_thread` looks at neither of its two allocations. Where the heap has room for both
(`ThreadRoom`) it appends one task in blocks of its own. Where it has not, the ring is broken: `NULL`
is linked into it, or a task whose stack is at address 0 (`createKernelThread_safe_iff`). -/

namespace BlackHole

open Bytes FirstFit

/-! ## What a call may do -/

/-- At `p` a block with room for `n` bytes has been allocated, apart from all that were. -/
def FreshBlock (m m' : Mem) (p n : ℕ) : Prop :=
  ∃ bs bs', BlockList m heapStart bs ∧ BlockList m' heapStart bs' ∧
    (∃ b ∈ bs', b.free = false ∧ b.addr + headerSize = p ∧ n ≤ b.size) ∧
    ∀ c ∈ bs, c.free = false → p + n ≤ c.addr ∨ c.stop headerSize ≤ p

/-- One task has been appended to the ring; its control block and its stack are fresh. -/
structure ThreadAppended (h : History) (s' : Sys) (t base : ℕ) : Prop where
  ring : LinkedRing (taskNext s'.cpu.mem) (h.tasks ++ [t])
  readyQueue : s'.readyQueue = h.kernel.sys.readyQueue
  currentTask : s'.currentTask = h.kernel.sys.currentTask
  task : FreshBlock h.kernel.mem s'.cpu.mem t taskSize
  stack : FreshBlock h.kernel.mem s'.cpu.mem base 4096
  apart : t + taskSize ≤ base ∨ base + 4096 ≤ t

/-- The ring, `current_task` and the memory outside the heap are as they were. -/
structure ThreadRefused (h : History) (s' : Sys) : Prop where
  ring : LinkedRing (taskNext s'.cpu.mem) h.tasks
  readyQueue : s'.readyQueue = h.kernel.sys.readyQueue
  currentTask : s'.currentTask = h.kernel.sys.currentTask
  outside : ∀ x, x < heapStart ∨ heapStart + heapSize ≤ x → s'.cpu.mem x = h.kernel.mem x

/-- What is expected of a call that got `t` and `base` from `memory_alloc`. Every call stores through
    both pointers, so neither may be `NULL`. -/
structure CreatesSafely (h : History) (s' : Sys) (t base : ℕ) : Prop where
  outcome : ThreadAppended h s' t base ∨ ThreadRefused h s'
  stores : t ≠ 0 ∧ base ≠ 0
  links : ∀ u ∈ h.tasks, taskNext s'.cpu.mem u ≠ 0

/-- The heap has room for a control block and, after it, a stack. -/
def ThreadRoom (m : Mem) : Prop :=
  ∃ bs, BlockList m heapStart bs ∧ RoomForTwo headerSize taskSize 4096 bs

/-! ## The two allocations -/

/-- What the two allocations of `create_kernel_thread` return. -/
structure ThreadRequests (s : Sys) (t base : ℕ) (m₁ m₂ : Mem) : Prop where
  runs : ∃ n, ∀ fuel, n < fuel → memoryAlloc fuel s.cpu.mem taskSize = some (t, m₁) ∧
    memoryAlloc fuel (labelTask s m₁ t) 4096 = some (base, m₂)
  room : t ≠ 0 ∧ base ≠ 0 ↔ ThreadRoom s.cpu.mem
  null : t = 0 → base = 0
  fresh : t ≠ 0 → base ≠ 0 →
    FreshBlock s.cpu.mem m₂ t taskSize ∧ FreshBlock s.cpu.mem m₂ base 4096
  inHeap : t ≠ 0 → heapStart ≤ t

theorem threadRoom_iff {m : Mem} {live : ℕ → Option ℕ} {bs : List Block} (h : HeapInv m live bs) :
    ThreadRoom m
      ↔ ((alloc headerSize 4 taskSize bs).bind fun r => alloc headerSize 4 4096 r.2) ≠ none := by
  rw [alloc_alloc_ne_none_iff (by decide) (by decide)]
  exact ⟨fun ⟨cs, hcs, hroom⟩ => h.list.unique hcs ▸ hroom, fun hroom => ⟨bs, h.list, hroom⟩⟩

/-- A live pointer of a later heap that was not live in an earlier one is a fresh block, when the
    blocks that were allocated still are. -/
theorem HeapInv.freshBlock {m m' : Mem} {live live' : ℕ → Option ℕ} {bs bs' : List Block} {p n : ℕ}
    (h : HeapInv m live bs) (h' : HeapInv m' live' bs')
    (hkeep : ∀ c ∈ bs, c.free = false → c ∈ bs') (hold : live p = none) (hnew : live' p = some n) :
    FreshBlock m m' p n := by
  obtain ⟨b, hb, hbfree, hbp, hn⟩ := h'.live p n hnew
  refine ⟨bs, bs', h.list, h'.list, ⟨b, hb, hbfree, hbp, hn⟩, fun c hc hcfree => ?_⟩
  rcases h'.tiles.apart hb (hkeep c hc hcfree) with rfl | hlt | hlt
  · exact absurd (hbp ▸ hold) (h.owned b hc hcfree)
  · unfold Block.stop at hlt
    omega
  · omega

theorem HeapInv.le_of_live {m : Mem} {live : ℕ → Option ℕ} {bs : List Block} {q : ℕ}
    (h : HeapInv m live bs) (hq : live q ≠ none) : heapStart ≤ q := by
  obtain ⟨n, hn⟩ := Option.ne_none_iff_exists'.1 hq
  obtain ⟨b, hb, -, rfl, -⟩ := h.live q n hn
  have hin := h.tiles.mem hb
  omega

/-- The stores into a task that was just allocated, or through `NULL`, leave the heap in order. -/
theorem HeapInv.labelTask {s : Sys} {m : Mem} {live : ℕ → Option ℕ} {bs : List Block} {t : ℕ}
    (h : HeapInv m live bs) (ht : Owned live t taskSize) :
    HeapInv (BlackHole.labelTask s m t) live bs :=
  h.clientWrite (clientWrite_of_owned fun x hx =>
    labelTask_outside s m t (by have := hx t taskSize ht; omega))

/-- Without room for the control block there is none for the stack either. -/
theorem HeapInv.threadRequests_null {s : Sys} {live : ℕ → Option ℕ} {bs : List Block}
    (h : HeapInv s.cpu.mem live bs) {m₁ : Mem} {n : ℕ}
    (hall : ∀ fuel, n < fuel → memoryAlloc fuel s.cpu.mem taskSize = some (0, m₁))
    (hnone : alloc headerSize 4 taskSize bs = none) (hsame : m₁ = s.cpu.mem) :
    ∃ base m₂, ThreadRequests s 0 base m₁ m₂ := by
  subst hsame
  obtain ⟨base, m₂, hall₂, -, hcases⟩ := memoryAlloc_spec
    (h.labelTask (s := s) (t := 0) (Or.inl (Or.inl (by decide)))) (show 4096 ≤ 0xFFFFFFFC by decide)
  have hbig : alloc headerSize 4 (alignSize 4096) bs = none :=
    alloc_eq_none_iff.2 fun b hb hfree =>
      lt_of_lt_of_le (alloc_eq_none_iff.1 hnone b hb hfree) (by decide)
  have hbase : base = 0 := by
    rcases hcases with ⟨hbase, -⟩ | ⟨-, -, bs₂, halloc, -⟩
    · exact hbase
    · simp [hbig] at halloc
  refine ⟨base, m₂, ⟨n + bs.length, fun fuel hfuel =>
      ⟨hall fuel (by omega), hall₂ fuel (by omega)⟩⟩, ?_, fun _ => hbase,
    fun h0 => absurd rfl h0, fun h0 => absurd rfl h0⟩
  rw [threadRoom_iff h, hnone]
  simp

/-- The stack is requested from the heap that the control block was taken from. -/
theorem HeapInv.threadRequests_task {s : Sys} {live : ℕ → Option ℕ} {bs bs₁ : List Block}
    (h : HeapInv s.cpu.mem live bs) {t n : ℕ} {m₁ : Mem}
    (hall : ∀ fuel, n < fuel → memoryAlloc fuel s.cpu.mem taskSize = some (t, m₁)) (ht : t ≠ 0)
    (hnew : live t = none) (halloc : alloc headerSize 4 taskSize bs = some (t, bs₁))
    (hinv : HeapInv m₁ (Function.update live t (some taskSize)) bs₁) :
    ∃ base m₂, ThreadRequests s t base m₁ m₂ := by
  have hlive : Function.update live t (some taskSize) t = some taskSize := Function.update_self ..
  have hown : Owned (Function.update live t (some taskSize)) t taskSize :=
    Or.inr ⟨t, taskSize, hlive, le_rfl, le_rfl⟩
  obtain ⟨base, m₂, hall₂, -, hcases⟩ :=
    memoryAlloc_spec (hinv.labelTask (s := s) hown) (show 4096 ≤ 0xFFFFFFFC by decide)
  refine ⟨base, m₂, ⟨n + bs₁.length, fun fuel hfuel =>
      ⟨hall fuel (by omega), hall₂ fuel (by omega)⟩⟩, ?_, fun h0 => absurd h0 ht,
    fun _ hbase => ?_, fun _ => hinv.le_of_live (by rw [hlive]; simp)⟩
  · rw [threadRoom_iff h, halloc, Option.bind_some]
    rcases hcases with ⟨hbase, -, hnone⟩ | ⟨hbase, -, bs₂, halloc₂, -⟩
    · have hnone : alloc headerSize 4 4096 bs₁ = none := hnone.resolve_left (by decide)
      simp [hbase, hnone]
    · have halloc₂ : alloc headerSize 4 4096 bs₁ = some (base, bs₂) := halloc₂
      simp [ht, hbase, halloc₂]
  · obtain ⟨-, hnew₂, bs₂, halloc₂, hinv₂⟩ := hcases.resolve_left fun h0 => hbase h0.1
    obtain ⟨c₁, -, -, -, -, hmem₁⟩ := mem_alloc halloc
    obtain ⟨c₂, -, -, -, -, hmem₂⟩ := mem_alloc halloc₂
    have hne : t ≠ base := by
      rintro rfl
      simp at hnew₂
    rw [Function.update_of_ne hne.symm] at hnew₂
    have hkeep : ∀ c ∈ bs, c.free = false → c ∈ bs₂ := fun c hc hfree =>
      ((hmem₂ c).2 (Or.inr ((hmem₁ c).2 (Or.inr ⟨hc, hfree⟩)))).1
    exact ⟨h.freshBlock hinv₂ hkeep hnew (by rw [Function.update_of_ne hne, hlive]),
      h.freshBlock hinv₂ hkeep hnew₂ (Function.update_self ..)⟩

theorem HeapInv.threadRequests {s : Sys} {live : ℕ → Option ℕ} {bs : List Block}
    (h : HeapInv s.cpu.mem live bs) : ∃ t base m₁ m₂, ThreadRequests s t base m₁ m₂ := by
  obtain ⟨t, m₁, hall, -, hcases⟩ := memoryAlloc_spec h (show taskSize ≤ 0xFFFFFFFC by decide)
  rcases hcases with ⟨rfl, hsame, hnone⟩ | ⟨ht, hnew, bs₁, halloc, hinv⟩
  · obtain ⟨base, m₂, hreq⟩ :=
      h.threadRequests_null hall (hnone.resolve_left (by decide)) hsame
    exact ⟨0, base, m₁, m₂, hreq⟩
  · obtain ⟨base, m₂, hreq⟩ := h.threadRequests_task hall ht hnew halloc hinv
    exact ⟨t, base, m₁, m₂, hreq⟩

/-- What is handed out is apart from the control blocks of the tasks, whether or not the other
    allocation succeeds. -/
theorem TasksOwned.allocates_apart {s : Sys} {stack : ℕ → Option (ℕ × ℕ)} {m₁ m₂ : Mem}
    {fuel t base : ℕ} (h : TasksOwned s.cpu.mem stack)
    (h₁ : memoryAlloc fuel s.cpu.mem taskSize = some (t, m₁))
    (h₂ : memoryAlloc fuel (BlackHole.labelTask s m₁ t) 4096 = some (base, m₂)) {u lo hi : ℕ}
    (hu : stack u = some (lo, hi)) :
    (t ≠ 0 → u + taskSize ≤ t ∨ t + taskSize ≤ u) ∧
      (base ≠ 0 → u + taskSize ≤ base ∨ base + 4096 ≤ u) := by
  obtain ⟨live, bs, hheap, hown⟩ := h
  obtain ⟨live₁, bs₁, hheap₁, ha₁⟩ := memoryAlloc_owned hheap (by decide) h₁
  obtain ⟨live₂, bs₂, hheap₂, ha₂⟩ := memoryAlloc_owned (hheap₁.labelTask ha₁.owned) le_rfl h₂
  have hownu := (hown u lo hi hu).1
  exact ⟨fun ht => ha₁.apart ht u taskSize hownu,
    fun hbase => ha₂.apart hbase u taskSize (ha₁.mono u taskSize hownu)⟩

/-! ## Control blocks are in the heap -/

theorem ThreadRequests.eq_of_run {s s' : Sys} {t base t' base' fuel entryPoint : ℕ} {m₁ m₂ : Mem}
    (hreq : ThreadRequests s t base m₁ m₂)
    (hrun : createKernelThread fuel s entryPoint = some (s', t', base')) :
    t' = t ∧ base' = base := by
  obtain ⟨m₁', m₂', tail, h₁, h₂, -⟩ := createKernelThread_inv hrun
  obtain ⟨n, hall⟩ := hreq.runs
  have heq₁ := (memoryAlloc_fuelMono _ _).unique h₁ fun fuel hfuel => (hall fuel hfuel).1
  simp only [Prod.mk.injEq] at heq₁
  obtain ⟨rfl, rfl⟩ := heq₁
  have heq₂ := (memoryAlloc_fuelMono _ _).unique h₂ fun fuel hfuel => (hall fuel hfuel).2
  simp only [Prod.mk.injEq] at heq₂
  exact ⟨rfl, heq₂.1⟩

theorem TaskStep.heapStart_le {h h' : History} (hinv : RingInv h) (hs : TaskStep h h')
    (hle : ∀ t ∈ h.tasks, heapStart ≤ t) : ∀ t ∈ h'.tasks, heapStart ≤ t := by
  cases hs with
  | computes _ _ _ => exact hle
  | returns _ => exact hle
  | switches _ => exact hle
  | creates hrun ht _ =>
      obtain ⟨live, bs, hheap, -⟩ := hinv.kernel.owned
      obtain ⟨t, base, m₁, m₂, hreq⟩ := HeapInv.threadRequests hheap
      obtain ⟨rfl, -⟩ := hreq.eq_of_run hrun
      intro u hu
      rcases List.mem_append.1 hu with hold | hnew
      · exact hle u hold
      · exact List.mem_singleton.1 hnew ▸ hreq.inHeap ht

/-- The states the scheduler can be in, with every control block in the heap. -/
structure SchedulerInv (h : History) : Prop where
  ring : RingInv h
  heapStart_le : ∀ t ∈ h.tasks, heapStart ≤ t

theorem SchedulerInv.run {h h' : History} (hinv : SchedulerInv h) (hs : TaskRun h h') :
    SchedulerInv h' := by
  induction hs with
  | refl => exact hinv
  | tail _ hstep ih => exact ⟨ih.ring.step hstep, hstep.heapStart_le ih.ring ih.heapStart_le⟩

theorem taskingInit_scheduler {fuel : ℕ} {s s' : Sys} {live : ℕ → Option ℕ} {bs : List Block}
    {lo hi : ℕ} (hheap : HeapInv s.cpu.mem live bs) (hpid : s.nextPid = 1)
    (hrun : taskingInit fuel s = some s') (hne : s'.currentTask ≠ 0) (hlo : lo ≤ hi)
    (hhi : hi < 4294967296) (hout : hi ≤ heapStart ∨ heapStart + heapSize ≤ lo) :
    SchedulerInv ⟨⟨s', oneTask s'.currentTask lo hi⟩, [s'.currentTask]⟩ := by
  refine ⟨taskingInit_ring hheap hpid hrun hne hlo hhi hout, fun t ht => ?_⟩
  obtain rfl := List.mem_singleton.1 ht
  obtain ⟨t, m₁, m, h₁, -, -, rfl⟩ := taskingInit_eq hrun
  obtain ⟨q, m', hall, -, hcases⟩ := memoryAlloc_spec hheap (show taskSize ≤ 0xFFFFFFFC by decide)
  have heq := (memoryAlloc_fuelMono _ _).unique h₁ hall
  simp only [Prod.mk.injEq] at heq
  obtain ⟨rfl, rfl⟩ := heq
  obtain ⟨-, -, bs', -, hinv'⟩ := hcases.resolve_left fun h0 => hne h0.1
  exact hinv'.le_of_live (by simp)

/-! ## The call -/

/-- What `create_kernel_thread` leaves when its allocations have returned `t` and `base`, and the tail
    of the ring is `tail`. -/
def linkThread (s : Sys) (m₂ : Mem) (t base entryPoint tail : ℕ) : Sys :=
  { s with
    cpu := { s.cpu with
      mem := setTaskNext (prepareTask m₂ t base entryPoint s.readyQueue) tail t }
    nextPid := u32 (s.nextPid + 1) }

/-- The new task and its stack meet no control block of the ring: they are fresh blocks, or they lie
    below the heap. -/
theorem SchedulerInv.next_prepared {h : History} (hinv : SchedulerInv h) {fuel t base : ℕ}
    {m₁ m₂ : Mem} (h₁ : memoryAlloc fuel h.kernel.mem taskSize = some (t, m₁))
    (h₂ : memoryAlloc fuel (labelTask h.kernel.sys m₁ t) 4096 = some (base, m₂)) (entryPoint : ℕ) :
    ∀ u ∈ h.tasks, (u + taskSize ≤ t ∨ t + taskSize ≤ u) ∧
      taskNext (prepareTask m₂ t base entryPoint h.kernel.sys.readyQueue) u
        = taskNext h.kernel.mem u := by
  intro u hu
  obtain ⟨live, bs, -, hth⟩ := hinv.ring.kernel.owned.allocates h₁ h₂
  obtain ⟨⟨lo, hi⟩, hstack⟩ := Option.ne_none_iff_exists'.1 ((hinv.ring.tasks u).1 hu)
  obtain ⟨hut, hub⟩ := hinv.ring.kernel.owned.allocates_apart h₁ h₂ hstack
  have hlow := hinv.heapStart_le u hu
  unfold heapStart at hlow
  have ht : u + taskSize ≤ t ∨ t + taskSize ≤ u := by
    by_cases h0 : t = 0
    · unfold taskSize
      omega
    · exact hut h0
  have hb : u + taskSize ≤ base ∨ base + 4096 ≤ u := by
    by_cases h0 : base = 0
    · omega
    · exact hub h0
  refine ⟨ht, le32_congr fun j hj => ?_⟩
  unfold taskSize at ht hb
  exact hth.prepared entryPoint hstack (Or.inl (by unfold taskSize; omega))
    (by unfold taskSize; omega) (by omega)

/-- Whatever its allocations return, `create_kernel_thread` comes to the tail of the ring. -/
theorem SchedulerInv.returns {h : History} (hinv : SchedulerInv h) {t base : ℕ} {m₁ m₂ : Mem}
    (hreq : ThreadRequests h.kernel.sys t base m₁ m₂) (entryPoint : ℕ) :
    ∃ tail bound, h.tasks.getLast? = some tail ∧
      ∀ fuel, bound < fuel → createKernelThread fuel h.kernel.sys entryPoint
        = some (linkThread h.kernel.sys m₂ t base entryPoint tail, t, base) := by
  obtain ⟨n, hall⟩ := hreq.runs
  obtain ⟨h₁, h₂⟩ := hall (n + 1) (Nat.lt_succ_self n)
  obtain ⟨tail, htail, hsearch⟩ :=
    hinv.ring.search fun u hu => (hinv.next_prepared h₁ h₂ entryPoint u hu).2
  exact ⟨tail, n + h.tasks.length, htail, fun fuel hfuel =>
    createKernelThread_eq (hall fuel (by omega)).1 (hall fuel (by omega)).2
      (hsearch fuel (by omega))⟩

theorem FreshBlock.heap {m m₂ m' : Mem} {live : ℕ → Option ℕ} {bs : List Block} {p n : ℕ}
    (h : FreshBlock m m₂ p n) (hold : HeapInv m₂ live bs) (hnew : HeapInv m' live bs) :
    FreshBlock m m' p n := by
  obtain ⟨cs, cs', hcs, hcs', hblock⟩ := h
  obtain rfl := hold.list.unique hcs'
  exact ⟨cs, bs, hcs, hnew.list, hblock⟩

/-- With room for both the new task comes last in the ring, in fresh blocks. -/
theorem SchedulerInv.createsSafely {h : History} (hinv : SchedulerInv h)
    {t base fuel entryPoint tail : ℕ} {m₁ m₂ : Mem}
    (hreq : ThreadRequests h.kernel.sys t base m₁ m₂) (htail : h.tasks.getLast? = some tail)
    (hrun : createKernelThread fuel h.kernel.sys entryPoint
      = some (linkThread h.kernel.sys m₂ t base entryPoint tail, t, base)) (ht : t ≠ 0)
    (hbase : base ≠ 0) :
    CreatesSafely h (linkThread h.kernel.sys m₂ t base entryPoint tail) t base := by
  obtain ⟨n, hall⟩ := hreq.runs
  obtain ⟨h₁, h₂⟩ := hall (n + 1) (Nat.lt_succ_self n)
  obtain ⟨live, bs, hheap, hth⟩ := hinv.ring.kernel.owned.allocates h₁ h₂
  obtain ⟨htask, hstack⟩ := hreq.fresh ht hbase
  have hring := (hinv.ring.creates (hinv.ring.kernel.creates_of_run hrun ht hbase)).ring
  have hmem : tail ∈ h.tasks := List.mem_of_getLast? htail
  have hheap' := hth.heap hheap ((hinv.ring.tasks tail).1 hmem) entryPoint
  refine ⟨Or.inl ⟨hring, rfl, rfl, htask.heap hheap hheap', hstack.heap hheap hheap',
    hth.self hbase⟩, ⟨ht, hbase⟩, fun u hu => ?_⟩
  -- the successors are tasks, and those are in the heap
  obtain ⟨i, hi⟩ := List.mem_iff_getElem?.1 (List.mem_append_left [t] hu)
  have hsucc := List.mem_of_getElem? (hring.step i u hi)
  rw [List.mem_append, List.mem_singleton] at hsucc
  have hlow : ∀ v, v ∈ h.tasks ∨ v = t → heapStart ≤ v := by
    rintro v (hold | rfl)
    · exact hinv.heapStart_le v hold
    · exact hreq.inHeap ht
  exact Nat.ne_of_gt (lt_of_lt_of_le (by decide) (hlow _ hsucc))

/-- Without it the ring has lost its link from the last task to the first, and the new stack is not in
    the heap. -/
theorem SchedulerInv.not_createsSafely {h : History} (hinv : SchedulerInv h)
    {t base entryPoint tail : ℕ} {m₁ m₂ : Mem} (hreq : ThreadRequests h.kernel.sys t base m₁ m₂)
    (htail : h.tasks.getLast? = some tail) (hnull : base = 0) :
    ¬ ThreadAppended h (linkThread h.kernel.sys m₂ t base entryPoint tail) t base ∧
      ¬ ThreadRefused h (linkThread h.kernel.sys m₂ t base entryPoint tail) := by
  constructor
  · intro happ
    obtain ⟨-, -, -, -, ⟨b, -, -, hb, -⟩, -⟩ := happ.stack
    unfold headerSize at hb
    omega
  · intro href
    obtain ⟨n, hall⟩ := hreq.runs
    obtain ⟨h₁, h₂⟩ := hall (n + 1) (Nat.lt_succ_self n)
    have hmem : tail ∈ h.tasks := List.mem_of_getLast? htail
    have hready : h.kernel.sys.readyQueue ∈ h.tasks := List.mem_of_head? hinv.ring.head
    have hback := (href.ring.next_eq_head_iff hinv.ring.head hmem).2 htail
    rw [linkThread, taskNext, setTaskNext, le32_put32] at hback
    have hapart := (hinv.next_prepared h₁ h₂ entryPoint _ hready).1
    obtain ⟨live, bs, -, hth⟩ := hinv.ring.kernel.owned.allocates h₁ h₂
    have hmax := hth.task.2
    unfold taskSize heapStart heapSize at hmax
    unfold taskSize at hapart
    rw [Nat.mod_eq_of_lt (by omega)] at hback
    omega

/-! ## The result -/

/-- In every state reached from `tasking_init`, whatever the heap looks like, `create_kernel_thread`
    returns, and it does as expected exactly if the heap has room for the control block and the stack.
    If it has not, neither outcome is the case. -/
theorem createKernelThread_safe_iff {fuel : ℕ} {s s₀ : Sys} {live : ℕ → Option ℕ} {bs : List Block}
    {lo hi : ℕ} (hheap : HeapInv s.cpu.mem live bs) (hpid : s.nextPid = 1)
    (hinit : taskingInit fuel s = some s₀) (hne : s₀.currentTask ≠ 0) (hlo : lo ≤ hi)
    (hhi : hi < 4294967296) (hout : hi ≤ heapStart ∨ heapStart + heapSize ≤ lo) {h : History}
    (hrun : TaskRun ⟨⟨s₀, oneTask s₀.currentTask lo hi⟩, [s₀.currentTask]⟩ h) (entryPoint : ℕ) :
    ∃ s' t base bound, (∀ fuel, bound < fuel →
        createKernelThread fuel h.kernel.sys entryPoint = some (s', t, base)) ∧
      (CreatesSafely h s' t base ↔ ThreadRoom h.kernel.mem) ∧
      (¬ ThreadRoom h.kernel.mem → base = 0 ∧ ¬ ThreadAppended h s' t base ∧ ¬ ThreadRefused h s') := by
  have hinv := (taskingInit_scheduler hheap hpid hinit hne hlo hhi hout).run hrun
  obtain ⟨live, bs, hheap, -⟩ := hinv.ring.kernel.owned
  obtain ⟨t, base, m₁, m₂, hreq⟩ := HeapInv.threadRequests hheap
  obtain ⟨tail, bound, htail, hall⟩ := hinv.returns hreq entryPoint
  have hroom := hreq.room
  have hnull : ¬ ThreadRoom h.kernel.mem → base = 0 := fun hno => by
    by_contra hbase
    exact hno (hroom.1 ⟨fun ht => hbase (hreq.null ht), hbase⟩)
  refine ⟨_, t, base, bound, hall, ⟨fun hsafe => hroom.1 hsafe.stores, fun h' => ?_⟩, fun hno => ?_⟩
  · obtain ⟨ht, hbase⟩ := hroom.2 h'
    exact hinv.createsSafely hreq htail (hall _ (Nat.lt_succ_self bound)) ht hbase
  · exact ⟨hnull hno, hinv.not_createsSafely hreq htail (hnull hno)⟩

theorem createKernelThread_fuelMono (s : Sys) (entryPoint : ℕ) :
    Loop.FuelMono fun fuel => createKernelThread fuel s entryPoint :=
  (memoryAlloc_fuelMono _ _).bind fun _ => (memoryAlloc_fuelMono _ _).bind fun _ =>
    (Loop.FuelMono.iterate _ _).map _

/-- An allocation of the running task's leaves all tasks alone. -/
theorem KernelInv.computes_alloc {k : Kernel} (hinv : KernelInv k) {fuel size q : ℕ} {m' : Mem}
    (hsize : size ≤ 0xFFFFFFFC) (hrun : memoryAlloc fuel k.mem size = some (q, m')) :
    Computes k ⟨{ k.sys with cpu := { k.sys.cpu with mem := m' } }, k.stack⟩ ∧
      ∀ t, k.stack t ≠ none → taskId m' t = taskId k.mem t ∧ taskNext m' t = taskNext k.mem t := by
  obtain ⟨live, bs, hheap, hown⟩ := hinv.owned
  obtain ⟨q', m'', hall, hkept, hcases⟩ := memoryAlloc_spec hheap hsize
  have heq := (memoryAlloc_fuelMono k.mem size).unique hrun hall
  simp only [Prod.mk.injEq] at heq
  obtain ⟨rfl, rfl⟩ := heq
  have htcb : ∀ t, k.stack t ≠ none → ∀ x, t ≤ x → x < t + taskSize → m' x = k.mem x := by
    intro t ht x hx hlt
    obtain ⟨⟨lo, hi⟩, hstack⟩ := Option.ne_none_iff_exists'.1 ht
    exact (hown t lo hi hstack).1.kept hheap hkept hx hlt
  unfold taskSize at htcb
  have hnext : ∀ t, k.stack t ≠ none → taskNext m' t = taskNext k.mem t := fun t ht =>
    le32_congr fun j hj => htcb t ht _ (by omega) (by omega)
  refine ⟨⟨rfl, rfl, rfl, fun t lo hi hstack _ x hx hlt => ?_, fun t ht =>
    le32_congr fun j hj => htcb t ht _ (by omega) (by omega), fun t ht => ?_, ?_⟩, fun t ht =>
    ⟨le32_congr fun j hj => htcb t ht _ (by omega) (by omega), hnext t ht⟩⟩
  · exact (hown t lo hi hstack).2.kept hheap hkept hx (by omega)
  · exact (congrArg k.stack (hnext t ht)).trans_ne (hinv.next t ht)
  · rcases hcases with ⟨-, rfl, -⟩ | ⟨-, hnew, bs', -, hheap'⟩
    · exact ⟨live, bs, hheap, hown⟩
    · exact ⟨_, bs', hheap', fun t lo hi hstack =>
        (hown t lo hi hstack).imp (fun htcb => htcb.alloc hnew) (fun hs => hs.alloc hnew)⟩

/-- The first task takes all that is left of the heap and makes a thread. -/
theorem exhausted_run : ∃ s₀ h s', taskingInit 2 bootSys = some s₀ ∧ s₀.currentTask = 0x10000C ∧
    h.tasks = [s₀.currentTask] ∧
    TaskRun ⟨⟨s₀, oneTask s₀.currentTask 0x80000 0x90000⟩, [s₀.currentTask]⟩ h ∧
    createKernelThread 4 h.kernel.sys 0x2000 = some (s', 0, 0) ∧
    le32 h.kernel.mem 4092 = 0 ∧ le32 s'.cpu.mem 4092 = 0x2000 ∧
    taskNext s'.cpu.mem s₀.currentTask = 0 := by
  obtain ⟨s₀, -, hinit, hcur, -⟩ := bootSys_run
  have hrun : ((taskingInit 2 bootSys).bind fun s => (memoryAlloc 3 s.cpu.mem 1048528).bind fun r =>
      (createKernelThread 4 { s with cpu := { s.cpu with mem := r.2 } } 0x2000).map fun c =>
        (c.2, le32 r.2 4092, le32 c.1.cpu.mem 4092, taskNext c.1.cpu.mem 0x10000C))
      = some ((0, 0), 0, 0x2000, 0) := by decide +kernel
  rw [hinit, Option.bind_some] at hrun
  obtain ⟨⟨q, m⟩, halloc, hrun⟩ := Option.bind_eq_some_iff.1 hrun
  obtain ⟨⟨s', t, base⟩, hcreate, heq⟩ := Option.map_eq_some_iff.1 hrun
  simp only [Prod.mk.injEq] at heq
  obtain ⟨⟨rfl, rfl⟩, hbefore, hafter, hlink⟩ := heq
  have hinv : KernelInv ⟨s₀, oneTask s₀.currentTask 0x80000 0x90000⟩ :=
    taskingInit_inv (memoryInit_inv fun _ => 0) hinit (by rw [hcur]; decide) (by decide) (by decide)
      (Or.inl (by decide))
  obtain ⟨hcomputes, htcb⟩ := hinv.computes_alloc (by decide) halloc
  have hstep : TaskStep ⟨⟨s₀, oneTask s₀.currentTask 0x80000 0x90000⟩, [s₀.currentTask]⟩
      ⟨⟨{ s₀ with cpu := { s₀.cpu with mem := m } }, oneTask s₀.currentTask 0x80000 0x90000⟩,
        [s₀.currentTask]⟩ := .computes hcomputes htcb rfl
  exact ⟨s₀, _, s', hinit, hcur, rfl, .single hstep, hcreate, hbefore, hafter,
    by rw [hcur]; exact hlink⟩

/-- At boot the call does as expected; on the exhausted heap it gets no stack and does neither. -/
theorem createKernelThread_safe_boot : ∃ s₀ s₁ h s₂, taskingInit 2 bootSys = some s₀ ∧
    createKernelThread 4 s₀ 0x2000 = some (s₁, 0x100030, 0x100054) ∧
    CreatesSafely ⟨⟨s₀, oneTask s₀.currentTask 0x80000 0x90000⟩, [s₀.currentTask]⟩ s₁ 0x100030
      0x100054 ∧
    TaskRun ⟨⟨s₀, oneTask s₀.currentTask 0x80000 0x90000⟩, [s₀.currentTask]⟩ h ∧
    createKernelThread 4 h.kernel.sys 0x2000 = some (s₂, 0, 0) ∧ ¬ ThreadRoom h.kernel.mem ∧
    ¬ CreatesSafely h s₂ 0 0 ∧ ¬ ThreadAppended h s₂ 0 0 ∧ ¬ ThreadRefused h s₂ := by
  obtain ⟨s₀, s₁, hinit, hcur, -, hcreate⟩ := bootSys_run
  obtain ⟨s₀', h, s₂, hinit', -, -, hrun, hcreate', -⟩ := exhausted_run
  obtain rfl : s₀ = s₀' := Option.some.inj (hinit.symm.trans hinit')
  have hcall {h : History} (hrun : TaskRun ⟨⟨s₀, oneTask s₀.currentTask 0x80000 0x90000⟩,
      [s₀.currentTask]⟩ h) := createKernelThread_safe_iff (memoryInit_inv fun _ => 0) rfl hinit
    (by rw [hcur]; decide) (show 0x80000 ≤ 0x90000 by decide) (by decide) (Or.inl (by decide)) hrun
    0x2000
  obtain ⟨s', t, base, bound, hall, hiff, hno⟩ := hcall .refl
  obtain ⟨rfl, rfl, rfl⟩ : s₁ = s' ∧ _ = t ∧ _ = base := by
    simpa using (createKernelThread_fuelMono _ _).unique hcreate hall
  obtain ⟨s', t, base, bound', hall', hiff', hno'⟩ := hcall hrun
  obtain ⟨rfl, rfl, rfl⟩ : s₂ = s' ∧ _ = t ∧ _ = base := by
    simpa using (createKernelThread_fuelMono _ _).unique hcreate' hall'
  have hroom : ThreadRoom s₀.cpu.mem := by
    by_contra hnone
    exact absurd (hno hnone).1 (by decide)
  have hfull : ¬ ThreadRoom h.kernel.mem := fun hroom' => (hiff'.2 hroom').stores.1 rfl
  exact ⟨s₀, s₁, h, s₂, hinit, hcreate, hiff.2 hroom, hrun, hcreate', hfull, mt hiff'.1 hfull,
    (hno' hfull).2⟩

/-- The first task takes all that is left of the heap and makes a thread: its entry point is stored at
    address 4092, and `NULL` is linked into the ring. -/
theorem createKernelThread_exhausted : ∃ s₀ h s', taskingInit 2 bootSys = some s₀ ∧
    TaskRun ⟨⟨s₀, oneTask s₀.currentTask 0x80000 0x90000⟩, [s₀.currentTask]⟩ h ∧
    createKernelThread 4 h.kernel.sys 0x2000 = some (s', 0, 0) ∧
    le32 h.kernel.mem 4092 = 0 ∧ le32 s'.cpu.mem 4092 = 0x2000 ∧
    (∃ u ∈ h.tasks, taskNext s'.cpu.mem u = 0) ∧ ¬ CreatesSafely h s' 0 0 := by
  obtain ⟨s₀, h, s', hinit, -, htasks, hrun, hcreate, hbefore, hafter, hlink⟩ := exhausted_run
  have hmem : s₀.currentTask ∈ h.tasks := by rw [htasks]; exact List.mem_singleton_self _
  exact ⟨s₀, h, s', hinit, hrun, hcreate, hbefore, hafter, ⟨_, hmem, hlink⟩,
    fun hsafe => hsafe.links _ hmem hlink⟩

end BlackHole
