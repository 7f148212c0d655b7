import BlackHole.Kernel.HeapRuns
import BlackHole.Kernel.Switch

set_option autoImplicit false

/-! # Schedules

The kernel's tasks with their stacks, and what can happen to them: the running task computes,
`task_switch` switches to another task, `create_kernel_thread` makes a new one. `KernelInv` is kept
by all of it, and a task that is not running stays suspended in its context (`Suspended`). -/

namespace BlackHole

open Bytes FirstFit

/-! ## Tasks and their memory -/

/-- The system, and where the stack of each task (the address of its `task_t`) begins and ends. -/
structure Kernel where
  sys : Sys
  stack : ℕ → Option (ℕ × ℕ)

def Kernel.mem (k : Kernel) : Mem := k.sys.cpu.mem

/-- The stacks are pairwise disjoint and disjoint from the task control blocks. -/
structure TasksApart (stack : ℕ → Option (ℕ × ℕ)) : Prop where
  disjoint : ∀ t u lo hi lo' hi', stack t = some (lo, hi) → stack u = some (lo', hi') → t ≠ u →
    hi ≤ lo' ∨ hi' ≤ lo
  tasks : ∀ t u, stack t ≠ none → stack u ≠ none → t ≠ u → t + taskSize ≤ u ∨ u + taskSize ≤ t
  stackTask : ∀ t u lo hi, stack t = some (lo, hi) → stack u ≠ none → hi ≤ u ∨ u + taskSize ≤ lo
  bounds : ∀ t lo hi, stack t = some (lo, hi) → lo ≤ hi ∧ hi < 4294967296

/-- The `n` bytes at `a` lie outside the heap or in the payload of a live pointer. -/
def Owned (live : ℕ → Option ℕ) (a n : ℕ) : Prop :=
  (a + n ≤ heapStart ∨ heapStart + heapSize ≤ a) ∨
    ∃ q k, live q = some k ∧ q ≤ a ∧ a + n ≤ q + k

/-- The heap is in order and the tasks own their memory. -/
def TasksOwned (m : Mem) (stack : ℕ → Option (ℕ × ℕ)) : Prop :=
  ∃ live bs, HeapInv m live bs ∧ ∀ t lo hi, stack t = some (lo, hi) →
    Owned live t taskSize ∧ Owned live lo (hi - lo)

structure KernelInv (k : Kernel) : Prop where
  apart : TasksApart k.stack
  owned : TasksOwned k.mem k.stack
  current : k.stack k.sys.currentTask ≠ none
  ready : k.stack k.sys.readyQueue ≠ none
  next : ∀ t, k.stack t ≠ none → k.stack (taskNext k.mem t) ≠ none

/-! ## What can happen -/

/-- The running task computes: its registers and its own stack are its own, but it leaves the stacks
    of the others and every task's `esp` alone, may relink the queue among the tasks, and uses the
    heap as its interface allows. -/
structure Computes (k k' : Kernel) : Prop where
  stack : k'.stack = k.stack
  current : k'.sys.currentTask = k.sys.currentTask
  ready : k'.sys.readyQueue = k.sys.readyQueue
  others : ∀ t lo hi, k.stack t = some (lo, hi) → t ≠ k.sys.currentTask →
    ∀ x, lo ≤ x → x < hi → k'.mem x = k.mem x
  esp : ∀ t, k.stack t ≠ none → taskEsp k'.mem t = taskEsp k.mem t
  next : ∀ t, k.stack t ≠ none → k.stack (taskNext k'.mem t) ≠ none
  owned : TasksOwned k'.mem k.stack

/-- `task_switch`, called in `k` with a probe that does not read `0x12345678`, calls `switch_task`
    on the machine `call` and is to go on at `ret` afterwards. What the compiler makes of the
    function before the call is confined to the running task's stack and the registers. -/
structure Switches (k : Kernel) (call : Machine) (ret : UInt32) (k' : Kernel) : Prop where
  stack : k'.stack = k.stack
  run : ∃ eip magic oldEsp newEsp s₁ lo hi, magic ≠ 0x12345678 ∧
    taskSwitch k.sys eip magic = (s₁, some (oldEsp, newEsp)) ∧
    k.stack k.sys.currentTask = some (lo, hi) ∧
    lo + 20 ≤ call.esp.toNat ∧ call.esp.toNat + 8 ≤ hi ∧
    le32 call.mem call.esp.toNat = oldEsp ∧ le32 call.mem (call.esp.toNat + 4) = newEsp ∧
    (∀ x, x < lo ∨ hi ≤ x → call.mem x = s₁.cpu.mem x) ∧ call.cr3 = s₁.cpu.cr3 ∧
    k'.sys = { s₁ with cpu := callSwitchTask ret call }

/-- `create_kernel_thread(entryPoint)` makes the task `t` with the 4096 bytes at `base` as its
    stack, disjoint from what the other tasks have. -/
structure Creates (k : Kernel) (entryPoint t base : ℕ) (k' : Kernel) : Prop where
  run : ∃ fuel, createKernelThread fuel k.sys entryPoint = some (k'.sys, t, base)
  stack : k'.stack = Function.update k.stack t (some (base, base + 4096))
  fresh : k.stack t = none
  apart : TasksApart k'.stack

inductive KernelStep (k k' : Kernel) : Prop where
  | computes (h : Computes k k')
  | switches {call : Machine} {ret : UInt32} (h : Switches k call ret k')
  | creates {entryPoint t base : ℕ} (h : Creates k entryPoint t base k')

/-- Runs during which the task `t` is not running. -/
def RunWithout (t : ℕ) : Kernel → Kernel → Prop :=
  Relation.ReflTransGen fun k k' => k.sys.currentTask ≠ t ∧ KernelStep k k'

/-- The task `t` will go on in the context `c`: its saved stack pointer points to a frame for `c` in
    its stack. -/
def Suspended (k : Kernel) (t : ℕ) (c : Context) : Prop :=
  ∃ lo hi, k.stack t = some (lo, hi) ∧ lo ≤ taskEsp k.mem t ∧ c.esp.toNat ≤ hi ∧
    FrameAt k.mem (taskEsp k.mem t) c

/-! ## Tasks apart -/

/-- The stacks when `t` is the only task. -/
def oneTask (t lo hi : ℕ) : ℕ → Option (ℕ × ℕ) := Function.update (fun _ => none) t (some (lo, hi))

theorem oneTask_eq_some {t lo hi u : ℕ} {p : ℕ × ℕ} :
    oneTask t lo hi u = some p ↔ u = t ∧ p = (lo, hi) := by
  unfold oneTask
  by_cases hut : u = t
  · subst hut
    simp [eq_comm]
  · simp [hut]

theorem oneTask_self (t lo hi : ℕ) : oneTask t lo hi t = some (lo, hi) := Function.update_self ..

theorem oneTask_ne_none {t lo hi u : ℕ} : oneTask t lo hi u ≠ none ↔ u = t := by
  simp [Option.ne_none_iff_exists', oneTask_eq_some]

theorem TasksApart.empty : TasksApart fun _ => none :=
  ⟨fun _ _ _ _ _ _ h => by simp at h, fun _ _ h => by simp at h, fun _ _ _ _ h => by simp at h,
    fun _ _ _ h => by simp at h⟩

/-- One more task apart from the others. -/
theorem TasksApart.update {stack : ℕ → Option (ℕ × ℕ)} (h : TasksApart stack) {t lo hi : ℕ}
    (hbounds : lo ≤ hi ∧ hi < 4294967296) (hself : hi ≤ t ∨ t + taskSize ≤ lo)
    (hothers : ∀ u lo' hi', stack u = some (lo', hi') → (hi ≤ lo' ∨ hi' ≤ lo) ∧
      (t + taskSize ≤ u ∨ u + taskSize ≤ t) ∧ (hi ≤ u ∨ u + taskSize ≤ lo) ∧
      (hi' ≤ t ∨ t + taskSize ≤ lo')) :
    TasksApart (Function.update stack t (some (lo, hi))) := by
  have hcases : ∀ {u lo' hi'}, Function.update stack t (some (lo, hi)) u = some (lo', hi') →
      u = t ∧ lo' = lo ∧ hi' = hi ∨ u ≠ t ∧ stack u = some (lo', hi') := by
    intro u lo' hi' hu
    exact (PartialMap.update_some_eq_some.1 hu).imp_left fun hnew => hnew.imp_right Prod.mk.inj
  have hsome : ∀ {u}, Function.update stack t (some (lo, hi)) u ≠ none →
      ∃ lo' hi', Function.update stack t (some (lo, hi)) u = some (lo', hi') := fun hu => by
    obtain ⟨⟨lo', hi'⟩, hp⟩ := Option.ne_none_iff_exists'.1 hu
    exact ⟨lo', hi', hp⟩
  refine ⟨fun u v lo₁ hi₁ lo₂ hi₂ hu hv huv => ?_, fun u v hu hv huv => ?_,
    fun u v lo₁ hi₁ hu hv => ?_, fun u lo₁ hi₁ hu => ?_⟩
  · rcases hcases hu with ⟨rfl, rfl, rfl⟩ | ⟨-, hu'⟩ <;>
      rcases hcases hv with ⟨rfl, rfl, rfl⟩ | ⟨-, hv'⟩
    · exact absurd rfl huv
    · exact (hothers v lo₂ hi₂ hv').1
    · exact (hothers u lo₁ hi₁ hu').1.symm
    · exact h.disjoint u v lo₁ hi₁ lo₂ hi₂ hu' hv' huv
  · obtain ⟨lo₁, hi₁, hu⟩ := hsome hu
    obtain ⟨lo₂, hi₂, hv⟩ := hsome hv
    rcases hcases hu with ⟨rfl, -⟩ | ⟨-, hu'⟩ <;> rcases hcases hv with ⟨rfl, -⟩ | ⟨-, hv'⟩
    · exact absurd rfl huv
    · exact (hothers v lo₂ hi₂ hv').2.1
    · exact (hothers u lo₁ hi₁ hu').2.1.symm
    · exact h.tasks u v (by rw [hu']; simp) (by rw [hv']; simp) huv
  · obtain ⟨lo₂, hi₂, hv⟩ := hsome hv
    rcases hcases hu with ⟨rfl, rfl, rfl⟩ | ⟨-, hu'⟩ <;> rcases hcases hv with ⟨rfl, -⟩ | ⟨-, hv'⟩
    · exact hself
    · exact (hothers v lo₂ hi₂ hv').2.2.1
    · exact (hothers u lo₁ hi₁ hu').2.2.2
    · exact h.stackTask u v lo₁ hi₁ hu' (by rw [hv']; simp)
  · rcases hcases hu with ⟨-, rfl, rfl⟩ | ⟨-, hu'⟩
    · exact hbounds
    · exact h.bounds u lo₁ hi₁ hu'

/-! ## Owned memory -/

/-- Writing to owned memory only is a client's write. -/
theorem clientWrite_of_owned {live : ℕ → Option ℕ} {m m' : Mem}
    (h : ∀ x, (∀ a n, Owned live a n → ¬ (a ≤ x ∧ x < a + n)) → m' x = m x) :
    ClientWrite live m m' := by
  intro x hlo hhi hfree
  refine h x fun a n hown hx => ?_
  rcases hown with hout | ⟨q, k, hq, hqa, hak⟩
  · omega
  · exact hfree q k hq ⟨by omega, by omega⟩

/-- What is owned is so after an allocation. -/
theorem Owned.alloc {live : ℕ → Option ℕ} {q size a n : ℕ} (h : Owned live a n)
    (hnew : live q = none) : Owned (Function.update live q (some size)) a n :=
  h.imp_right fun ⟨r, k, hr, hra, hak⟩ =>
    ⟨r, k, PartialMap.update_some_of_eq_none hnew hr, hra, hak⟩

/-- Owned memory is kept by everything that keeps the heap. -/
theorem Owned.kept {live : ℕ → Option ℕ} {m m' : Mem} {bs : List Block} {a n : ℕ}
    (hown : Owned live a n) (hinv : HeapInv m live bs) (h : HeapKept live m m') {x : ℕ} (hx : a ≤ x)
    (hlt : x < a + n) : m' x = m x := by
  rcases hown with hout | ⟨q, k, hq, hqa, hak⟩
  · exact h.outside x (by omega)
  · have hsize := (hinv.sound.pointers q k hq).2.1
    exact h.payload q k hq x (by omega) (by omega)

/-- What a successful or failed allocation of at most 4096 bytes gives a task. -/
structure Allocated (live : ℕ → Option ℕ) (m : Mem) (q size : ℕ) (live' : ℕ → Option ℕ) (m' : Mem) :
    Prop where
  mono : ∀ a n, Owned live a n → Owned live' a n
  owned : Owned live' q size
  stop_le : q + size ≤ heapStart + heapSize
  kept : ∀ a n, Owned live a n → ∀ x, a ≤ x → x < a + n → m' x = m x
  apart : q ≠ 0 → ∀ a n, Owned live a n → a + n ≤ q ∨ q + size ≤ a

/-- A new block is apart from everything that was owned before. -/
theorem HeapInv.apart {m : Mem} {live : ℕ → Option ℕ} {bs : List Block} {q size : ℕ}
    (hinv : HeapInv m (Function.update live q (some size)) bs) (hnew : live q = none) {a n : ℕ}
    (hown : Owned live a n) : a + n ≤ q ∨ q + size ≤ a := by
  have hq : Function.update live q (some size) q = some size := Function.update_self ..
  obtain ⟨-, hsize, b, hb, -, hbq⟩ := hinv.sound.pointers q size hq
  have hin := hinv.tiles.mem hb
  rcases hown with hout | ⟨r, k, hr, hra, hak⟩
  · obtain ⟨c, hc, -, hcq, hn⟩ := hinv.live q size hq
    have hstop := (hinv.tiles.mem hc).2
    unfold Block.stop at hstop
    omega
  · have hne : r ≠ q := by
      rintro rfl
      simp [hnew] at hr
    have hr' : Function.update live q (some size) r = some k :=
      PartialMap.update_some_of_eq_none hnew hr
    have hk := (hinv.sound.pointers r k hr').2.1
    have hdisj := hinv.sound.payloads q size r k hq hr' (Ne.symm hne)
    omega

theorem memoryAlloc_owned {m m' : Mem} {live : ℕ → Option ℕ} {bs : List Block}
    (hinv : HeapInv m live bs) {fuel size q : ℕ} (hsize : size ≤ 4096)
    (hrun : memoryAlloc fuel m size = some (q, m')) :
    ∃ live' bs', HeapInv m' live' bs' ∧ Allocated live m q size live' m' := by
  have hle : size ≤ 0xFFFFFFFC := by omega
  obtain ⟨q', m'', hall, hkept, hcases⟩ := memoryAlloc_spec hinv hle
  have heq := (memoryAlloc_fuelMono m size).unique hrun hall
  simp only [Prod.mk.injEq] at heq
  obtain ⟨rfl, rfl⟩ := heq
  have hkeep : ∀ a n, Owned live a n → ∀ x, a ≤ x → x < a + n → m' x = m x :=
    fun a n hown x hx hlt => hown.kept hinv hkept hx hlt
  rcases hcases with ⟨rfl, rfl, -⟩ | ⟨-, hnew, bs', -, hinv'⟩
  · refine ⟨live, bs, hinv, fun _ _ h => h, Or.inl (Or.inl ?_), ?_, hkeep,
      fun h => absurd rfl h⟩ <;> unfold heapStart <;> omega
  · refine ⟨_, bs', hinv', fun a n hown => hown.alloc hnew,
      Or.inr ⟨q, size, by simp, le_rfl, le_rfl⟩, ?_, hkeep, fun _ a n hown => hinv'.apart hnew hown⟩
    obtain ⟨b, hb, -, rfl, hn⟩ := hinv'.live q size (by simp)
    have hin := (hinv'.tiles.mem hb).2
    unfold Block.stop at hin
    omega

/-- Writes to the tasks' own memory keep it owned. -/
theorem TasksOwned.write {m m' : Mem} {stack : ℕ → Option (ℕ × ℕ)} (h : TasksOwned m stack)
    (hw : ∀ x, (∀ t lo hi, stack t = some (lo, hi) →
      ¬ (t ≤ x ∧ x < t + taskSize) ∧ ¬ (lo ≤ x ∧ x < hi)) → m' x = m x) : TasksOwned m' stack := by
  obtain ⟨live, bs, hinv, hown⟩ := h
  refine ⟨live, bs, hinv.clientWrite (clientWrite_of_owned fun x hx => hw x ?_), hown⟩
  intro t lo hi ht
  obtain ⟨h1, h2⟩ := hown t lo hi ht
  exact ⟨hx _ _ h1, fun hxs => hx _ _ h2 ⟨hxs.1, by omega⟩⟩

/-! ## Switching -/

/-- Everything `task_switch` does when it switches: the memory differs from the one before in the
    running task's stack and control block only, the frame to come back to is there, and the next
    task goes on in the context its saved stack pointer points to. -/
structure Switched (k : Kernel) (call : Machine) (ret : UInt32) (k' : Kernel) (lo hi : ℕ) : Prop where
  stack : k.stack k.sys.currentTask = some (lo, hi)
  currentTask : k'.sys.currentTask = taskNext k.mem k.sys.currentTask
  ne : k'.sys.currentTask ≠ k.sys.currentTask
  readyQueue : k'.sys.readyQueue = k.sys.readyQueue
  kept : ∀ x, x < lo ∨ hi ≤ x → x < k.sys.currentTask ∨ k.sys.currentTask + 16 ≤ x →
    k'.mem x = k.mem x
  le_esp : lo ≤ taskEsp k'.mem k.sys.currentTask
  esp_le : call.esp.toNat ≤ hi
  frame : FrameAt k'.mem (taskEsp k'.mem k.sys.currentTask) { call.context with eip := ret }
  resumes : ∀ c, FrameAt k'.mem (taskEsp k.mem k'.sys.currentTask) c → k'.sys.cpu.context = c

/-- What `task_switch` has done when it calls `switch_task` in `call`: of the memory outside the
    running task's stack it has changed the task's `eip` only. -/
structure Calls (k : Kernel) (call : Machine) (ret : UInt32) (k' : Kernel) (lo hi : ℕ) : Prop where
  stack : k.stack k.sys.currentTask = some (lo, hi)
  le_esp : lo + 20 ≤ call.esp.toNat
  esp_le : call.esp.toNat + 8 ≤ hi
  old : le32 call.mem call.esp.toNat = k.sys.currentTask + 4
  new : le32 call.mem (call.esp.toNat + 4) = taskEsp k.mem (taskNext k.mem k.sys.currentTask)
  ne : taskNext k.mem k.sys.currentTask ≠ k.sys.currentTask
  kept : ∀ x, x < lo ∨ hi ≤ x → x < k.sys.currentTask + 12 ∨ k.sys.currentTask + 16 ≤ x →
    call.mem x = k.mem x
  sys : k'.sys = ⟨callSwitchTask ret call, taskNext k.mem k.sys.currentTask, k.sys.readyQueue,
    k.sys.nextPid⟩

theorem Switches.calls {k k' : Kernel} {call : Machine} {ret : UInt32} (hinv : KernelInv k)
    (h : Switches k call ret k') : ∃ lo hi, Calls k call ret k' lo hi := by
  obtain ⟨eip, magic, oldEsp, newEsp, s₁, lo, hi, hmagic, hswitch, hstack, hlo, hhi, hold, hnew,
    hcall, -, hsys⟩ := h.run
  set t := k.sys.currentTask with ht
  simp only [taskSwitch, ← ht] at hswitch
  split at hswitch
  · simp at hswitch
  next hguard =>
  simp only [Prod.mk.injEq, Option.some.injEq] at hswitch
  obtain ⟨rfl, rfl, rfl⟩ := hswitch
  rw [not_or] at hguard
  have hset : ∀ x, x < t + 12 ∨ t + 16 ≤ x → setTaskEip k.sys.cpu.mem t eip.toNat x = k.mem x :=
    fun x hx => put32_of_outside _ _ hx
  have hnext : taskNext (setTaskEip k.sys.cpu.mem t eip.toNat) t = taskNext k.mem t :=
    le32_congr fun j hj => hset _ (by omega)
  simp only [hnext] at hnew hsys hcall
  have hne : taskNext k.mem t ≠ t := hguard.2
  have hnexttask := hinv.next t hinv.current
  have hnt := hinv.apart.tasks t _ hinv.current hnexttask (Ne.symm hne)
  unfold taskSize at hnt
  have hnewEsp : taskEsp (setTaskEip k.sys.cpu.mem t eip.toNat) (taskNext k.mem t)
      = taskEsp k.mem (taskNext k.mem t) := le32_congr fun j hj => hset _ (by omega)
  rw [hnewEsp] at hnew
  refine ⟨lo, hi, hstack, hlo, hhi, hold, hnew, hne, fun x hx hxt => ?_, hsys⟩
  rw [hcall x hx]
  exact hset x hxt

/-- The call itself leaves a frame on the stack and its address in the task's `esp`. -/
theorem Calls.spec {k k' : Kernel} {call : Machine} {ret : UInt32} {lo hi : ℕ} (hinv : KernelInv k)
    (h : Calls k call ret k' lo hi) :
    FrameAt k'.mem (taskEsp k'.mem k.sys.currentTask) { call.context with eip := ret } ∧
    lo ≤ taskEsp k'.mem k.sys.currentTask ∧
    (∀ x, x < lo ∨ hi ≤ x → x < k.sys.currentTask + 4 ∨ k.sys.currentTask + 8 ≤ x →
      x < k.sys.currentTask + 12 ∨ k.sys.currentTask + 16 ≤ x → k'.mem x = k.mem x) ∧
    ∀ c, FrameAt k'.mem (taskEsp k.mem k'.sys.currentTask) c → k'.sys.cpu.context = c := by
  have hbounds := hinv.apart.bounds _ lo hi h.stack
  have htcb := hinv.apart.stackTask _ _ lo hi h.stack hinv.current
  unfold taskSize at htcb
  have hlo := h.le_esp
  have hhi := h.esp_le
  have hold := h.old
  have hnew := h.new
  obtain ⟨v, hv⟩ : ∃ v, call.esp.toNat = v + 20 := ⟨call.esp.toNat - 20, by omega⟩
  rw [hv] at hold hnew hlo hhi
  obtain ⟨m', hframe, hesp, hkeep, hmem, hctx⟩ :=
    callSwitchTask_spec ret hv (by omega) hold hnew (by omega)
  have hk' : k'.mem = m' := by
    rw [Kernel.mem, h.sys, hmem]
  have hesp' : taskEsp k'.mem k.sys.currentTask = v := by
    rw [hk']
    exact hesp
  refine ⟨?_, by omega, fun x hx hxt hxe => ?_, fun c hc => ?_⟩
  · rw [hesp', hk']
    exact hframe
  · rw [hk', hkeep x (by omega) (by omega)]
    exact h.kept x hx hxe
  · rw [hk', h.sys] at hc
    rw [h.sys]
    exact hctx c hc

theorem Switches.inv {k k' : Kernel} {call : Machine} {ret : UInt32} (hinv : KernelInv k)
    (h : Switches k call ret k') : ∃ lo hi, Switched k call ret k' lo hi := by
  obtain ⟨lo, hi, hcalls⟩ := h.calls hinv
  obtain ⟨hframe, hlo, hkeep, hctx⟩ := hcalls.spec hinv
  have hcur : k'.sys.currentTask = taskNext k.mem k.sys.currentTask := by rw [hcalls.sys]
  have hhi := hcalls.esp_le
  exact ⟨lo, hi, hcalls.stack, hcur, hcur ▸ hcalls.ne, by rw [hcalls.sys],
    fun x hx hxt => hkeep x hx (by omega) (by omega), hlo, by omega, hframe, hctx⟩

/-- A switch leaves the queue as it is. -/
theorem Switches.next {k k' : Kernel} {call : Machine} {ret : UInt32} (hinv : KernelInv k)
    (h : Switches k call ret k') {t : ℕ} (ht : k.stack t ≠ none) :
    taskNext k'.mem t = taskNext k.mem t := by
  obtain ⟨lo, hi, hs⟩ := h.inv hinv
  have hst := hinv.apart.stackTask _ t lo hi hs.stack ht
  have hts := hinv.apart.tasks t k.sys.currentTask ht hinv.current
  unfold taskSize at hst hts
  refine le32_congr fun j hj => hs.kept _ (by omega) ?_
  by_cases heq : t = k.sys.currentTask
  · omega
  · have := hts heq
    omega

theorem KernelInv.switches {k k' : Kernel} {call : Machine} {ret : UInt32} (hinv : KernelInv k)
    (h : Switches k call ret k') : KernelInv k' := by
  obtain ⟨lo, hi, hs⟩ := h.inv hinv
  refine ⟨h.stack ▸ hinv.apart, ?_, ?_, ?_, fun t ht => ?_⟩
  · rw [h.stack]
    refine hinv.owned.write fun x hx => ?_
    obtain ⟨htcb, hst⟩ := hx _ lo hi hs.stack
    unfold taskSize at htcb
    exact hs.kept x (by omega) (by omega)
  · rw [h.stack, hs.currentTask]
    exact hinv.next _ hinv.current
  · rw [h.stack, hs.readyQueue]
    exact hinv.ready
  · rw [h.stack] at ht ⊢
    rw [h.next hinv ht]
    exact hinv.next t ht

/-- The task that is switched out is suspended in the context of its call. -/
theorem Switches.suspended {k k' : Kernel} {call : Machine} {ret : UInt32} (hinv : KernelInv k)
    (h : Switches k call ret k') :
    Suspended k' k.sys.currentTask { call.context with eip := ret } := by
  obtain ⟨lo, hi, hs⟩ := h.inv hinv
  exact ⟨lo, hi, h.stack ▸ hs.stack, hs.le_esp, hs.esp_le, hs.frame⟩

/-- A suspended task stays suspended while another one is switched out. -/
theorem Suspended.switches {k k' : Kernel} {call : Machine} {ret : UInt32} {t : ℕ} {c : Context}
    (hs : Suspended k t c) (hinv : KernelInv k) (ht : k.sys.currentTask ≠ t)
    (h : Switches k call ret k') :
    taskEsp k'.mem t = taskEsp k.mem t ∧ Suspended k' t c := by
  obtain ⟨lo, hi, hstack, hlo, hhi, hframe⟩ := hs
  obtain ⟨lo', hi', hsw⟩ := h.inv hinv
  have hsome : k.stack t ≠ none := by rw [hstack]; simp
  have htasks := hinv.apart.tasks t _ hsome hinv.current (Ne.symm ht)
  have hst := hinv.apart.stackTask _ t lo' hi' hsw.stack hsome
  have hdisj := hinv.apart.disjoint t _ lo hi lo' hi' hstack hsw.stack (Ne.symm ht)
  have hts := hinv.apart.stackTask t _ lo hi hstack hinv.current
  unfold taskSize at htasks hst hts
  have hesp : taskEsp k'.mem t = taskEsp k.mem t :=
    le32_congr fun j hj => hsw.kept _ (by omega) (by omega)
  refine ⟨hesp, lo, hi, h.stack ▸ hstack, by rwa [hesp], hhi, ?_⟩
  rw [hesp]
  have hend := hframe.esp
  exact hframe.congr fun x hx hx' => hsw.kept x (by omega) (by omega)

/-- Switching to a suspended task goes on in its context. -/
theorem Suspended.resumes {k k' : Kernel} {call : Machine} {ret : UInt32} {t : ℕ} {c : Context}
    (hs : Suspended k t c) (hinv : KernelInv k) (h : Switches k call ret k')
    (ht : k'.sys.currentTask = t) : k'.sys.cpu.context = c := by
  obtain ⟨lo, hi, hsw⟩ := h.inv hinv
  have hne := hsw.ne
  rw [ht] at hne
  obtain ⟨hesp, -, -, -, -, -, hframe⟩ := hs.switches hinv (Ne.symm hne) h
  refine hsw.resumes c ?_
  rwa [ht, ← hesp]

end BlackHole
