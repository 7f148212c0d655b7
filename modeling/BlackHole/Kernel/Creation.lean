import BlackHole.Kernel.Schedule

set_option autoImplicit false

/-! # New threads

What `create_kernel_thread` does to the tasks there are, and the frame it builds by hand on the new
stack: `switch_task` pops it exactly as it pops the frames it has pushed itself. -/

namespace BlackHole

open Bytes FirstFit

/-! ## The parts of `create_kernel_thread` -/

/-- The stores into the new task before its stack is allocated. -/
def labelTask (s : Sys) (m : Mem) (t : ℕ) : Mem :=
  let m := setTaskId m t s.nextPid
  setTaskCr3 m t (taskCr3 m s.currentTask)

/-- The stores into the new stack and the new task. -/
def prepareTask (m : Mem) (t stack entryPoint readyQueue : ℕ) : Mem :=
  let p := initialFrame m stack entryPoint
  let m := setTaskEsp p.2 t p.1
  let m := setTaskEbp m t 0
  let m := setTaskEip m t entryPoint
  setTaskNext m t readyQueue

theorem createKernelThread_inv {fuel : ℕ} {s s' : Sys} {entryPoint t base : ℕ}
    (h : createKernelThread fuel s entryPoint = some (s', t, base)) :
    ∃ m₁ m₂ tail, memoryAlloc fuel s.cpu.mem taskSize = some (t, m₁) ∧
      memoryAlloc fuel (labelTask s m₁ t) 4096 = some (base, m₂) ∧
      Loop.iterate (tailStep (prepareTask m₂ t base entryPoint s.readyQueue) s.readyQueue) fuel
        s.readyQueue = some tail ∧
      s' = { s with
        cpu := { s.cpu with
          mem := setTaskNext (prepareTask m₂ t base entryPoint s.readyQueue) tail t }
        nextPid := u32 (s.nextPid + 1) } := by
  obtain ⟨⟨t', m₁⟩, h₁, h⟩ := Option.bind_eq_some_iff.1 h
  obtain ⟨⟨base', m₂⟩, h₂, h⟩ := Option.bind_eq_some_iff.1 h
  obtain ⟨tail, h₃, h⟩ := Option.map_eq_some_iff.1 h
  simp only [Prod.mk.injEq] at h
  obtain ⟨rfl, rfl, rfl⟩ := h
  exact ⟨m₁, m₂, tail, h₁, h₂, h₃, rfl⟩

theorem labelTask_outside (s : Sys) (m : Mem) (t : ℕ) {x : ℕ} (hx : x < t ∨ t + taskSize ≤ x) :
    labelTask s m t x = m x := by
  unfold taskSize at hx
  simp (disch := omega) only [labelTask, setTaskId, setTaskCr3, put32_of_outside]

theorem initialFrame_eq (m : Mem) {base entryPoint : ℕ} (hbase : base + 4096 < 4294967296) :
    initialFrame m base entryPoint = (base + 4076,
      put32 (put32 (put32 (put32 (put32 m (base + 4092) entryPoint) (base + 4088) 0)
        (base + 4084) 0) (base + 4080) 0) (base + 4076) 0) := by
  have hsub : ∀ k, k ≤ 20 → u32sub (base + 4096) k = base + 4096 - k := fun k hk =>
    u32sub_of_le (by omega) hbase
  simp only [initialFrame, u32_of_lt hbase, hsub 4 (by omega), hsub 8 (by omega),
    hsub 12 (by omega), hsub 16 (by omega), hsub 20 (by omega)]
  rfl

theorem prepareTask_outside (m : Mem) {t base entryPoint readyQueue x : ℕ}
    (hbase : base + 4096 < 4294967296) (hx : x < t ∨ t + taskSize ≤ x)
    (hx' : x < base ∨ base + 4096 ≤ x) : prepareTask m t base entryPoint readyQueue x = m x := by
  unfold taskSize at hx
  simp (disch := omega) only [prepareTask, initialFrame_eq m hbase, setTaskEsp, setTaskEbp,
    setTaskEip, setTaskNext, put32_of_outside]

/-- The context a new thread starts in. -/
def startContext (entryPoint base : ℕ) : Context :=
  ⟨0, 0, 0, 0, UInt32.ofNat entryPoint, UInt32.ofNat (base + 4096)⟩

/-- The new task's `esp` points to a frame for its start, at the top of its stack. -/
theorem prepareTask_frame (m : Mem) {t base : ℕ} (entryPoint readyQueue : ℕ)
    (hbase : base + 4096 < 4294967296) (hapart : base + 4096 ≤ t ∨ t + taskSize ≤ base) :
    taskEsp (prepareTask m t base entryPoint readyQueue) t = base + 4076 ∧
    taskNext (prepareTask m t base entryPoint readyQueue) t = readyQueue % 4294967296 ∧
    FrameAt (prepareTask m t base entryPoint readyQueue) (base + 4076)
      (startContext entryPoint base) := by
  unfold taskSize at hapart
  have hword : ∀ k, k ≤ 16 →
      le32 (prepareTask m t base entryPoint readyQueue) (base + 4076 + k)
        = le32 (initialFrame m base entryPoint).2 (base + 4076 + k) := fun k hk =>
    le32_congr fun j hj => by
      simp (disch := omega) only [prepareTask, setTaskEsp, setTaskEbp, setTaskEip, setTaskNext,
        put32_of_outside]
  rw [initialFrame_eq m hbase] at hword
  refine ⟨?_, ?_, (hword 0 (by omega)).trans ?_, (hword 4 (by omega)).trans ?_,
    (hword 8 (by omega)).trans ?_, (hword 12 (by omega)).trans ?_,
    (hword 16 (by omega)).trans ?_, ?_⟩
  · simp (disch := omega) only [prepareTask, taskEsp, setTaskEsp, setTaskEbp, setTaskEip,
      setTaskNext, le32_put32_of_disjoint, le32_put32, initialFrame_eq m hbase]
    omega
  · simp only [prepareTask, taskNext, setTaskNext, le32_put32]
  · rw [Nat.add_zero, le32_put32]
    rfl
  · simp (disch := omega) only [le32_put32_of_disjoint, Nat.add_assoc, Nat.reduceAdd, le32_put32]
    rfl
  · simp (disch := omega) only [le32_put32_of_disjoint, Nat.add_assoc, Nat.reduceAdd, le32_put32]
    rfl
  · simp (disch := omega) only [le32_put32_of_disjoint, Nat.add_assoc, Nat.reduceAdd, le32_put32]
    rfl
  · simp (disch := omega) only [le32_put32_of_disjoint, Nat.add_assoc, Nat.reduceAdd, le32_put32]
    rfl
  · exact (Nat.mod_eq_of_lt hbase).symm

/-! ## The tail of the queue -/

/-- The search for the tail ends at a task whose successor is the head, when the successors of tasks
    are tasks. -/
theorem tailStep_iterate {m : Mem} {stack : ℕ → Option (ℕ × ℕ)} {readyQueue fuel tail : ℕ}
    (hready : stack readyQueue ≠ none) (hnext : ∀ u, stack u ≠ none → stack (taskNext m u) ≠ none)
    (h : Loop.iterate (tailStep m readyQueue) fuel readyQueue = some tail) :
    stack tail ≠ none ∧ taskNext m tail = readyQueue := by
  refine Loop.iterate_invariant (fun u => stack u ≠ none)
    (fun r => stack r ≠ none ∧ taskNext m r = readyQueue) ?_ ?_ fuel readyQueue tail hready h
  · intro u u' hu hstep
    unfold tailStep at hstep
    split at hstep
    · obtain rfl := Sum.inr.inj hstep
      exact hnext u hu
    · simp at hstep
  · intro u r hu hstep
    unfold tailStep at hstep
    split at hstep
    · simp at hstep
    next hlast =>
      obtain rfl := Sum.inl.inj hstep
      exact ⟨hu, not_not.1 hlast⟩

/-- The search only looks at the successors of the tasks. -/
theorem tailStep_congr {m m' : Mem} {stack : ℕ → Option (ℕ × ℕ)} {readyQueue fuel : ℕ}
    (hready : stack readyQueue ≠ none)
    (hsame : ∀ u, stack u ≠ none → taskNext m' u = taskNext m u)
    (hnext : ∀ u, stack u ≠ none → stack (taskNext m u) ≠ none) :
    Loop.iterate (tailStep m' readyQueue) fuel readyQueue
      = Loop.iterate (tailStep m readyQueue) fuel readyQueue := by
  refine Loop.iterate_congr (fun u => stack u ≠ none) (fun u hu => ?_) (fun u u' hu hstep => ?_) fuel
    readyQueue hready
  · simp only [tailStep, hsame u hu]
  · unfold tailStep at hstep
    split at hstep
    · obtain rfl := Sum.inr.inj hstep
      rw [hsame u hu]
      exact hnext u hu
    · simp at hstep

/-! ## Creating a thread -/

/-- What the two allocations give the new thread and leave to the tasks. -/
structure ThreadMemory (s : Sys) (stack : ℕ → Option (ℕ × ℕ)) (m₁ m₂ : Mem) (t base : ℕ)
    (live : ℕ → Option ℕ) : Prop where
  task : Owned live t taskSize ∧ t + taskSize ≤ heapStart + heapSize
  frames : Owned live base 4096 ∧ base + 4096 ≤ heapStart + heapSize
  tasks : ∀ u lo hi, stack u = some (lo, hi) → Owned live u taskSize ∧ Owned live lo (hi - lo)
  kept : ∀ u lo hi, stack u = some (lo, hi) → ∀ x, u ≤ x ∧ x < u + taskSize ∨ lo ≤ x ∧ x < hi →
    x < t ∨ t + taskSize ≤ x → m₂ x = s.cpu.mem x
  label : ∀ x, t ≤ x → x < t + taskSize → m₂ x = labelTask s m₁ t x
  self : base ≠ 0 → t + taskSize ≤ base ∨ base + 4096 ≤ t
  apart : t ≠ 0 → base ≠ 0 → ∀ u lo hi, stack u = some (lo, hi) → ∀ a n,
    a = u ∧ n = taskSize ∨ a = lo ∧ n = hi - lo →
    (a + n ≤ t ∨ t + taskSize ≤ a) ∧ (a + n ≤ base ∨ base + 4096 ≤ a)

theorem TasksOwned.allocates {s : Sys} {stack : ℕ → Option (ℕ × ℕ)} {m₁ m₂ : Mem}
    {fuel t base : ℕ} (h : TasksOwned s.cpu.mem stack)
    (h₁ : memoryAlloc fuel s.cpu.mem taskSize = some (t, m₁))
    (h₂ : memoryAlloc fuel (labelTask s m₁ t) 4096 = some (base, m₂)) :
    ∃ live bs, HeapInv m₂ live bs ∧ ThreadMemory s stack m₁ m₂ t base live := by
  obtain ⟨live, bs, hheap, hown⟩ := h
  obtain ⟨live₁, bs₁, hheap₁, ha₁⟩ := memoryAlloc_owned hheap (by decide) h₁
  have hlabel : HeapInv (labelTask s m₁ t) live₁ bs₁ :=
    hheap₁.clientWrite (clientWrite_of_owned fun x hx =>
      labelTask_outside s m₁ t (by have := hx t taskSize ha₁.owned; omega))
  obtain ⟨live₂, bs₂, hheap₂, ha₂⟩ := memoryAlloc_owned hlabel le_rfl h₂
  refine ⟨live₂, bs₂, hheap₂, ⟨ha₂.mono _ _ ha₁.owned, ha₁.stop_le⟩, ⟨ha₂.owned, ha₂.stop_le⟩,
    fun u lo hi hu => ?_, fun u lo hi hu x hx hxt => ?_, fun x hx hlt => ?_, fun hbase => ?_,
    fun ht hbase u lo hi hu a n han => ?_⟩
  · obtain ⟨hownu, howns⟩ := hown u lo hi hu
    exact ⟨ha₂.mono _ _ (ha₁.mono _ _ hownu), ha₂.mono _ _ (ha₁.mono _ _ howns)⟩
  · obtain ⟨hownu, howns⟩ := hown u lo hi hu
    have hboth : m₂ x = labelTask s m₁ t x ∧ m₁ x = s.cpu.mem x := by
      rcases hx with hx | hx
      · exact ⟨ha₂.kept _ _ (ha₁.mono _ _ hownu) x hx.1 hx.2, ha₁.kept _ _ hownu x hx.1 hx.2⟩
      · exact ⟨ha₂.kept _ _ (ha₁.mono _ _ howns) x hx.1 (by omega),
          ha₁.kept _ _ howns x hx.1 (by omega)⟩
    rw [hboth.1, labelTask_outside _ _ _ hxt, hboth.2]
  · exact ha₂.kept t taskSize ha₁.owned x hx hlt
  · exact ha₂.apart hbase t taskSize ha₁.owned
  · have hown : Owned live a n := by
      obtain ⟨hownu, howns⟩ := hown u lo hi hu
      rcases han with ⟨rfl, rfl⟩ | ⟨rfl, rfl⟩
      · exact hownu
      · exact howns
    exact ⟨ha₁.apart ht a n hown, ha₂.apart hbase a n (ha₁.mono a n hown)⟩

/-- The stores into the new task and its stack leave the tasks' memory alone. -/
theorem ThreadMemory.prepared {s : Sys} {stack : ℕ → Option (ℕ × ℕ)} {m₁ m₂ : Mem}
    {t base : ℕ} {live : ℕ → Option ℕ} (h : ThreadMemory s stack m₁ m₂ t base live)
    (entryPoint : ℕ) {u lo hi x : ℕ} (hu : stack u = some (lo, hi))
    (hx : u ≤ x ∧ x < u + taskSize ∨ lo ≤ x ∧ x < hi) (hxt : x < t ∨ t + taskSize ≤ x)
    (hxb : x < base ∨ base + 4096 ≤ x) :
    prepareTask m₂ t base entryPoint s.readyQueue x = s.cpu.mem x := by
  have hbase := h.frames.2
  unfold heapStart heapSize at hbase
  rw [prepareTask_outside m₂ (by omega) hxt hxb]
  exact h.kept u lo hi hu x hx hxt

/-- All the stores behind the second allocation are in owned memory. -/
theorem ThreadMemory.heap {s : Sys} {stack : ℕ → Option (ℕ × ℕ)} {m₁ m₂ : Mem} {t base tail : ℕ}
    {live : ℕ → Option ℕ} {bs : List Block} (h : ThreadMemory s stack m₁ m₂ t base live)
    (hheap : HeapInv m₂ live bs) (htail : stack tail ≠ none) (entryPoint : ℕ) :
    HeapInv (setTaskNext (prepareTask m₂ t base entryPoint s.readyQueue) tail t) live bs := by
  obtain ⟨⟨lo, hi⟩, hu⟩ := Option.ne_none_iff_exists'.1 htail
  have hbase := h.frames.2
  unfold heapStart heapSize at hbase
  refine hheap.clientWrite (clientWrite_of_owned fun x hx => ?_)
  have hxtail := hx tail taskSize (h.tasks tail lo hi hu).1
  have hxt := hx t taskSize h.task.1
  have hxb := hx base 4096 h.frames.1
  unfold taskSize at hxtail
  rw [setTaskNext, put32_of_outside _ _ (by omega)]
  exact prepareTask_outside m₂ (by omega) (by omega) (by omega)

/-- When both allocations succeed the new task has memory of its own. -/
theorem KernelInv.creates_of_run {k : Kernel} (hinv : KernelInv k) {fuel entryPoint t base : ℕ}
    {s' : Sys} (hrun : createKernelThread fuel k.sys entryPoint = some (s', t, base)) (ht : t ≠ 0)
    (hbase : base ≠ 0) :
    Creates k entryPoint t base
      ⟨s', Function.update k.stack t (some (base, base + 4096))⟩ := by
  obtain ⟨m₁, m₂, tail, h₁, h₂, -⟩ := createKernelThread_inv hrun
  obtain ⟨live, bs, -, hth⟩ := hinv.owned.allocates h₁ h₂
  have hapart := hth.apart ht hbase
  have hself := hth.self hbase
  have hmax := hth.frames.2
  unfold heapStart heapSize at hmax
  refine ⟨⟨fuel, hrun⟩, rfl, ?_, hinv.apart.update (by omega) (by omega) fun u lo hi hu => ?_⟩
  · by_contra hne
    obtain ⟨⟨lo, hi⟩, hu⟩ := Option.ne_none_iff_exists'.1 hne
    have htt := (hapart t lo hi hu t taskSize (Or.inl ⟨rfl, rfl⟩)).1
    unfold taskSize at htt
    omega
  · have hbounds := hinv.apart.bounds u lo hi hu
    have htask := hapart u lo hi hu u taskSize (Or.inl ⟨rfl, rfl⟩)
    have hstack := hapart u lo hi hu lo (hi - lo) (Or.inr ⟨rfl, rfl⟩)
    omega

theorem Creates.stack_self {k k' : Kernel} {entryPoint t base : ℕ}
    (h : Creates k entryPoint t base k') : k'.stack t = some (base, base + 4096) := by
  rw [h.stack, Function.update_self]

theorem Creates.stack_old {k k' : Kernel} {entryPoint t base : ℕ}
    (h : Creates k entryPoint t base k') {u : ℕ} (hu : k.stack u ≠ none) :
    u ≠ t ∧ k'.stack u = k.stack u := by
  have hne : u ≠ t := by
    rintro rfl
    exact hu h.fresh
  exact ⟨hne, by rw [h.stack, Function.update_of_ne hne]⟩

/-- The memory of the other tasks is outside the new task and its stack. -/
theorem Creates.far {k k' : Kernel} {entryPoint t base : ℕ} (h : Creates k entryPoint t base k')
    {u lo hi : ℕ} (hu : k.stack u = some (lo, hi)) {x : ℕ}
    (hx : u ≤ x ∧ x < u + taskSize ∨ lo ≤ x ∧ x < hi) :
    (x < t ∨ t + taskSize ≤ x) ∧ (x < base ∨ base + 4096 ≤ x) := by
  have hself := h.stack_self
  have hselfsome : k'.stack t ≠ none := by rw [hself]; simp
  obtain ⟨hne, hsame⟩ := h.stack_old (by rw [hu]; simp)
  rw [hu] at hsame
  have husome : k'.stack u ≠ none := by rw [hsame]; simp
  have hd := h.apart.disjoint u t lo hi base (base + 4096) hsame hself hne
  have ht := h.apart.tasks u t husome hselfsome hne
  have hst := h.apart.stackTask u t lo hi hsame hselfsome
  have hts := h.apart.stackTask t u base (base + 4096) hself husome
  omega

/-- Everything `create_kernel_thread` does: of the tasks there were it changes the `next` pointer of
    the last one only, and the new one is ready to start. -/
structure Created (k : Kernel) (entryPoint t base : ℕ) (k' : Kernel) (tail : ℕ) : Prop where
  found : ∃ fuel, Loop.iterate (tailStep k.mem k.sys.readyQueue) fuel k.sys.readyQueue = some tail
  task : k.stack tail ≠ none
  currentTask : k'.sys.currentTask = k.sys.currentTask
  readyQueue : k'.sys.readyQueue = k.sys.readyQueue
  kept : ∀ u lo hi, k.stack u = some (lo, hi) → ∀ x, u ≤ x ∧ x < u + taskSize ∨ lo ≤ x ∧ x < hi →
    x < tail + 20 ∨ tail + 24 ≤ x → k'.mem x = k.mem x
  next : ∀ u, k.stack u ≠ none → u ≠ tail → taskNext k'.mem u = taskNext k.mem u
  link : taskNext k'.mem tail = t
  last : taskNext k'.mem t = k.sys.readyQueue
  esp : taskEsp k'.mem t = base + 4076
  frame : FrameAt k'.mem (base + 4076) (startContext entryPoint base)
  owned : TasksOwned k'.mem k'.stack

/-- The stores of `create_kernel_thread` behind its two allocations, and the tail they link. -/
structure ThreadStores (k : Kernel) (entryPoint t base : ℕ) (k' : Kernel) (m₁ m₂ : Mem) (tail : ℕ) :
    Prop where
  sys : k'.sys = { k.sys with
    cpu := { k.sys.cpu with
      mem := setTaskNext (prepareTask m₂ t base entryPoint k.sys.readyQueue) tail t }
    nextPid := u32 (k.sys.nextPid + 1) }
  memory : ∃ live bs, HeapInv m₂ live bs ∧ ThreadMemory k.sys k.stack m₁ m₂ t base live
  found : ∃ fuel, Loop.iterate (tailStep k.mem k.sys.readyQueue) fuel k.sys.readyQueue = some tail
  task : k.stack tail ≠ none
  last : taskNext k.mem tail = k.sys.readyQueue

theorem Creates.stores {k k' : Kernel} {entryPoint t base : ℕ} (hinv : KernelInv k)
    (h : Creates k entryPoint t base k') :
    ∃ m₁ m₂ tail, ThreadStores k entryPoint t base k' m₁ m₂ tail := by
  obtain ⟨fuel, hrun⟩ := h.run
  obtain ⟨m₁, m₂, tail, h₁, h₂, h₃, hsys⟩ := createKernelThread_inv hrun
  obtain ⟨live, bs, hheap, hth⟩ := hinv.owned.allocates h₁ h₂
  have hnext₃ : ∀ u, k.stack u ≠ none →
      taskNext (prepareTask m₂ t base entryPoint k.sys.readyQueue) u = taskNext k.mem u := by
    intro u hu
    obtain ⟨⟨lo, hi⟩, hu⟩ := Option.ne_none_iff_exists'.1 hu
    refine le32_congr fun j hj => ?_
    have hx : u ≤ u + 20 + j ∧ u + 20 + j < u + taskSize := by
      unfold taskSize
      omega
    obtain ⟨hxt, hxb⟩ := h.far hu (Or.inl hx)
    exact hth.prepared entryPoint hu (Or.inl hx) hxt hxb
  rw [tailStep_congr hinv.ready hnext₃ hinv.next] at h₃
  obtain ⟨htail, hlast⟩ := tailStep_iterate hinv.ready hinv.next h₃
  exact ⟨m₁, m₂, tail, hsys, ⟨live, bs, hheap, hth⟩, ⟨fuel, h₃⟩, htail, hlast⟩

theorem Creates.inv {k k' : Kernel} {entryPoint t base : ℕ} (hinv : KernelInv k)
    (h : Creates k entryPoint t base k') : ∃ tail, Created k entryPoint t base k' tail := by
  obtain ⟨m₁, m₂, tail, hst⟩ := h.stores hinv
  obtain ⟨live, bs, hheap, hth⟩ := hst.memory
  obtain ⟨hownt, htmax⟩ := hth.task
  obtain ⟨hownb, hbmax⟩ := hth.frames
  unfold heapStart heapSize at htmax hbmax
  have hbase : base + 4096 < 4294967296 := by omega
  have htail := hst.task
  have hsys := hst.sys
  have hself' := h.apart.stackTask t t base (base + 4096) h.stack_self (by rw [h.stack_self]; simp)
  obtain ⟨hesp, hnext, hframe⟩ := prepareTask_frame m₂ entryPoint k.sys.readyQueue hbase hself'
  have hkeep : ∀ u lo hi, k.stack u = some (lo, hi) →
      ∀ x, u ≤ x ∧ x < u + taskSize ∨ lo ≤ x ∧ x < hi →
      prepareTask m₂ t base entryPoint k.sys.readyQueue x = k.mem x := by
    intro u lo hi hu x hx
    obtain ⟨hxt, hxb⟩ := h.far hu hx
    exact hth.prepared entryPoint hu hx hxt hxb
  have howned := hth.heap hheap htail entryPoint
  generalize prepareTask m₂ t base entryPoint k.sys.readyQueue = m₃ at *
  -- the link to the new task
  have hself := h.stack_self
  have hselfsome : k'.stack t ≠ none := by rw [hself]; simp
  obtain ⟨htailne, htailsame⟩ := h.stack_old htail
  have htailsome : k'.stack tail ≠ none := by rwa [htailsame]
  have hk' : k'.mem = setTaskNext m₃ tail t := by rw [Kernel.mem, hsys]
  have htailt := h.apart.tasks tail t htailsome hselfsome htailne
  have htails := h.apart.stackTask t tail base (base + 4096) hself htailsome
  have hready : k.sys.readyQueue < 4294967296 := hst.last ▸ le32_lt _ _
  unfold taskSize at htailt htails
  refine ⟨tail, hst.found, htail, by rw [hsys], by rw [hsys], fun u lo hi hu x hx hxt => ?_,
    fun u hu hut => ?_, ?_, ?_, ?_, ?_, live, bs, by rwa [hk'], fun u lo hi hu => ?_⟩
  · rw [hk', setTaskNext, put32_of_outside _ _ (by omega)]
    exact hkeep u lo hi hu x hx
  · have htasks := hinv.apart.tasks u tail hu htail hut
    obtain ⟨⟨lo, hi⟩, hu⟩ := Option.ne_none_iff_exists'.1 hu
    unfold taskSize at htasks hkeep
    rw [hk']
    refine (le32_put32_of_disjoint _ _ (by omega)).trans (le32_congr fun j hj => ?_)
    exact hkeep u lo hi hu _ (Or.inl (by omega))
  · rw [hk', taskNext, setTaskNext, le32_put32, Nat.mod_eq_of_lt (by omega)]
  · rw [hk', taskNext, setTaskNext, le32_put32_of_disjoint _ _ (by omega)]
    exact hnext.trans (Nat.mod_eq_of_lt hready)
  · rw [hk', taskEsp, setTaskNext, le32_put32_of_disjoint _ _ (by omega)]
    exact hesp
  · rw [hk']
    exact hframe.congr fun x hx hx' => put32_of_outside _ _ (by omega)
  · rw [h.stack] at hu
    rcases PartialMap.update_some_eq_some.1 hu with ⟨rfl, heq⟩ | ⟨-, hu'⟩
    · obtain ⟨rfl, rfl⟩ := Prod.mk.inj heq
      rw [Nat.add_sub_cancel_left]
      exact ⟨hownt, hownb⟩
    · exact hth.tasks u lo hi hu'

end BlackHole
