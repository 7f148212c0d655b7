import Mathlib.Data.List.Chain
import Mathlib.Logic.Relation
import BlackHole.Lib.Loop
import BlackHole.Lib.PartialMap

set_option autoImplicit false

/-! # Preemption

The control flow of the timer interrupt, statement by statement: the gate and the stub `_isr_irq0`,
`irq0_handler`, `timer_callback`, `task_switch` and `switch_task`, down to the EOI and the `iret`,
with the return addresses on the stacks of the threads. The gate clears IF, `iret` restores it, and
the PIC delivers no IRQ0 while one is in service. -/

namespace BlackHole

/-! ## The model -/

/-- Where control is: what the running thread executes next. -/
inductive Point where
  /-- its own code -/
  | body
  /-- `tasking_init` behind its `cli`; `t` is the `task_t` it gets -/
  | taskingInit (t : ℕ)
  /-- `create_kernel_thread` behind its `cli` -/
  | createKernelThread (entryPoint t : ℕ)
  /-- the `sti` of the two -/
  | sti
  /-- `call _irq0_handler` in `_isr_irq0` -/
  | isrIrq0
  /-- `timer_callback()` in `irq0_handler` -/
  | irq0Handler
  /-- `task_switch()` in `timer_callback` -/
  | timerCallback
  | taskSwitch
  /-- the call of `switch_task` in `task_switch`, `current_task` being the next task already -/
  | switchTask (oldTask : ℕ)
  | taskSwitchEnd
  | timerCallbackEnd
  /-- `outb(0x20, 0x20)` in `irq0_handler` -/
  | eoi
  | irq0HandlerEnd
  /-- `popa; iret` in `_isr_irq0` -/
  | iret
  deriving DecidableEq

/-- What a thread has on its stack to return to. -/
inductive Frame where
  /-- the EIP and the IF an interrupt has pushed -/
  | interrupt (point : Point) (intr : Bool)
  /-- the return address of a call -/
  | ret (point : Point)
  /-- the return address `create_kernel_thread` has written -/
  | entry (entryPoint : ℕ)
  deriving DecidableEq

/-- Where a `ret` that pops the frame goes. -/
def Frame.target : Frame → Point
  | .interrupt point _ => point
  | .ret point => point
  | .entry _ => .body

/-- A `task_t`: its successor, and what is on its stack while it is not running. -/
structure Thread where
  next : ℕ
  frames : List Frame

/-- The processor with the stack of the running thread, the PIC and the statics of `task.c`. -/
structure Sched where
  point : Point
  frames : List Frame
  /-- IF -/
  intr : Bool
  /-- IRQ0 is in service at the PIC. -/
  inService : Bool
  currentTask : ℕ
  readyQueue : ℕ
  thread : ℕ → Option Thread

/-- `t->next` -/
def Sched.next (s : Sched) (t : ℕ) : ℕ := ((s.thread t).map Thread.next).getD 0

def Sched.setThread (s : Sched) (t : ℕ) (th : Thread) : Sched :=
  { s with thread := Function.update s.thread t (some th) }

theorem Sched.thread_setThread_of_ne (s : Sched) {t u : ℕ} (th : Thread) (h : u ≠ t) :
    (s.setThread t th).thread u = s.thread u :=
  Function.update_of_ne h _ _

theorem Sched.thread_setThread_inv {s : Sched} {t u : ℕ} {th th' : Thread}
    (h : (s.setThread t th).thread u = some th') :
    u = t ∧ th' = th ∨ u ≠ t ∧ s.thread u = some th' :=
  PartialMap.update_some_eq_some.1 h

/-- A call that returns to `point`. -/
def Sched.call (s : Sched) (callee point : Point) : Sched :=
  { s with point := callee, frames := .ret point :: s.frames }

def Sched.ret (s : Sched) : Option Sched :=
  match s.frames with
  | [] => none
  | f :: fs => some { s with point := f.target, frames := fs }

/-- `iret` -/
def Sched.iret (s : Sched) : Option Sched :=
  match s.frames with
  | .interrupt point intr :: fs => some { s with point := point, intr := intr, frames := fs }
  | _ => none

/-- The PIC raises IRQ0 and the processor takes it. -/
def Sched.irq0 (s : Sched) : Option Sched :=
  if s.intr = true ∧ s.inService = false then
    some { s with
      point := .isrIrq0, frames := .interrupt s.point s.intr :: s.frames
      intr := false, inService := true }
  else none

/-- What `memory_alloc` can return for a `task_t`: memory that is not in use. -/
def Sched.Unused (s : Sched) (t : ℕ) : Prop := t ≠ 0 ∧ (s.thread t).isNone

instance (s : Sched) (t : ℕ) : Decidable (s.Unused t) := inferInstanceAs (Decidable (_ ∧ _))

/-- `tasking_init` between `cli` and `sti`. -/
def Sched.taskingInit (s : Sched) (t : ℕ) : Option Sched :=
  if s.Unused t then
    some { s.setThread t ⟨t, []⟩ with currentTask := t, readyQueue := t, point := .sti }
  else none

/-- One iteration of the search for the tail of the ready queue. -/
def Sched.tailStep (s : Sched) (tail : ℕ) : ℕ ⊕ ℕ :=
  if s.next tail ≠ s.readyQueue then .inr (s.next tail) else .inl tail

/-- `create_kernel_thread` between `cli` and `sti`. -/
def Sched.createKernelThread (fuel : ℕ) (s : Sched) (entryPoint t : ℕ) : Option Sched :=
  if s.Unused t then
    let s := s.setThread t ⟨s.readyQueue, [.entry entryPoint]⟩
    (Loop.iterate s.tailStep fuel s.readyQueue).bind fun tail =>
    (s.thread tail).map fun th =>
    { s.setThread tail { th with next := t } with point := .sti }
  else none

/-- `task_switch` up to its call of `switch_task`. `magic` is what the probe of `eax` reads. -/
def Sched.taskSwitch (s : Sched) (magic : UInt32) : Sched :=
  if s.currentTask = 0 ∨ s.next s.currentTask = s.currentTask then
    { s with point := .taskSwitchEnd }
  else if magic = 0x12345678 then { s with point := .taskSwitchEnd }
  else { s with currentTask := s.next s.currentTask, point := .switchTask s.currentTask }

/-- The call of `switch_task`: the return address goes on the old stack, and the `ret` pops one from
    the new stack. -/
def Sched.switchTask (s : Sched) (oldTask : ℕ) : Option Sched :=
  (s.thread oldTask).bind fun th =>
  let s := s.setThread oldTask { th with frames := .ret .taskSwitchEnd :: s.frames }
  (s.thread s.currentTask).bind fun th => { s with frames := th.frames }.ret

/-- The running thread goes on. -/
def Sched.run (fuel : ℕ) (magic : UInt32) (s : Sched) : Option Sched :=
  match s.point with
  | .body => some s
  | .taskingInit t => s.taskingInit t
  | .createKernelThread entryPoint t => s.createKernelThread fuel entryPoint t
  | .sti => some { s with intr := true, point := .body }
  | .isrIrq0 => some (s.call .irq0Handler .iret)
  | .irq0Handler => some (s.call .timerCallback .eoi)
  | .timerCallback => some (s.call .taskSwitch .timerCallbackEnd)
  | .taskSwitch => some (s.taskSwitch magic)
  | .switchTask oldTask => s.switchTask oldTask
  | .taskSwitchEnd => s.ret
  | .timerCallbackEnd => s.ret
  | .eoi => some { s with inService := false, point := .irq0HandlerEnd }
  | .irq0HandlerEnd => s.ret
  | .iret => s.iret

/-- What can happen next. -/
inductive Event where
  | irq0
  /-- The running thread calls `tasking_init`, which gets the `task_t` at `t`. -/
  | taskingInit (t : ℕ)
  /-- It calls `create_kernel_thread`, which gets the `task_t` at `t`. -/
  | createKernelThread (entryPoint t : ℕ)
  | run (magic : UInt32)

/-- One step. `tasking_init` is called once. -/
def Sched.step (fuel : ℕ) (s : Sched) : Event → Option Sched
  | .irq0 => s.irq0
  | .taskingInit t =>
      if s.point = .body ∧ s.currentTask = 0 then
        some { s with intr := false, point := .taskingInit t }
      else none
  | .createKernelThread entryPoint t =>
      if s.point = .body then
        some { s with intr := false, point := .createKernelThread entryPoint t }
      else none
  | .run magic => s.run fuel magic

def SchedStep (s s' : Sched) : Prop := ∃ fuel ev, s.step fuel ev = some s'

/-- `kernel_main` once `idt_init` has enabled interrupts. -/
def Sched.boot : Sched := ⟨.body, [], true, false, 0, 0, fun _ => none⟩

/-- In its body a thread can be preempted. -/
def Preemptible (s : Sched) : Prop := s.point = .body → s.intr = true ∧ s.inService = false

/-- The next step is the `ret` of `switch_task` into a thread that has never run. -/
def FirstDispatch (s : Sched) : Prop :=
  (∃ oldTask, s.point = .switchTask oldTask) ∧
    ∃ th e, s.thread s.currentTask = some th ∧ th.frames = [.entry e]

/-! ## The invariant -/

/-- What is on the stack at a point, when the thread was interrupted in its body with IF set. -/
def framesAt : Point → List Frame
  | .body => []
  | .taskingInit _ => []
  | .createKernelThread .. => []
  | .sti => []
  | .isrIrq0 => [.interrupt .body true]
  | .iret => [.interrupt .body true]
  | .irq0Handler => [.ret .iret, .interrupt .body true]
  | .eoi => [.ret .iret, .interrupt .body true]
  | .irq0HandlerEnd => [.ret .iret, .interrupt .body true]
  | .timerCallback => [.ret .eoi, .ret .iret, .interrupt .body true]
  | .timerCallbackEnd => [.ret .eoi, .ret .iret, .interrupt .body true]
  | .taskSwitch => [.ret .timerCallbackEnd, .ret .eoi, .ret .iret, .interrupt .body true]
  | .switchTask _ => [.ret .timerCallbackEnd, .ret .eoi, .ret .iret, .interrupt .body true]
  | .taskSwitchEnd => [.ret .timerCallbackEnd, .ret .eoi, .ret .iret, .interrupt .body true]

/-- IF at a point. -/
def intrAt : Point → Bool
  | .body => true
  | _ => false

/-- Whether IRQ0 is in service at a point. -/
def inServiceAt : Point → Bool
  | .isrIrq0 => true
  | .irq0Handler => true
  | .timerCallback => true
  | .taskSwitch => true
  | .switchTask _ => true
  | .taskSwitchEnd => true
  | .timerCallbackEnd => true
  | .eoi => true
  | _ => false

/-- The thread whose stack is the processor's. -/
def Sched.running (s : Sched) : ℕ :=
  match s.point with
  | .switchTask oldTask => oldTask
  | _ => s.currentTask

/-- The stack of a thread that is not running: it is suspended in `task_switch` or has never run. -/
def Waiting (th : Thread) : Prop :=
  th.frames = .ret .taskSwitchEnd :: framesAt .taskSwitchEnd ∨ ∃ e, th.frames = [.entry e]

/-- As long as no new thread has been switched to, the point determines the stack, IF and what is in
    service. -/
structure Clean (s : Sched) : Prop where
  frames : s.frames = framesAt s.point
  intr : s.intr = intrAt s.point
  inService : s.inService = inServiceAt s.point
  init : ∀ t, s.point = .taskingInit t → s.currentTask = 0
  switching : ∀ oldTask, s.point = .switchTask oldTask → oldTask ≠ s.currentTask
  zero : s.thread 0 = none
  others : ∀ t th, s.thread t = some th → t ≠ s.running → Waiting th

theorem Sched.boot_clean : Clean Sched.boot :=
  ⟨rfl, rfl, rfl, fun _ h => by simp [boot] at h, fun _ h => by simp [boot] at h, rfl,
    fun _ _ h => by simp [boot] at h⟩

/-- A clean state is preemptible. -/
theorem Clean.preemptible {s : Sched} (h : Clean s) : Preemptible s := by
  intro hp
  rw [h.intr, h.inService, hp]
  exact ⟨rfl, rfl⟩

/-- A step to a point that does not touch the threads. -/
theorem Clean.goto {s s' : Sched} (h : Clean s) (hthread : s'.thread = s.thread)
    (hrunning : s'.running = s.running) (hframes : s'.frames = framesAt s'.point)
    (hintr : s'.intr = intrAt s'.point) (hservice : s'.inService = inServiceAt s'.point)
    (hinit : ∀ t, s'.point = .taskingInit t → s'.currentTask = 0)
    (hswitch : ∀ oldTask, s'.point = .switchTask oldTask → oldTask ≠ s'.currentTask) : Clean s' :=
  ⟨hframes, hintr, hservice, hinit, hswitch, hthread ▸ h.zero, by
    rw [hthread, hrunning]
    exact h.others⟩

/-- An interrupt is taken in the body. -/
theorem Clean.irq0 {s s' : Sched} (h : Clean s) (hstep : s.irq0 = some s') : Clean s' := by
  unfold Sched.irq0 at hstep
  split at hstep
  next hguard =>
    obtain rfl := Option.some.inj hstep
    have hp : s.point = .body := by
      have hi := h.intr.symm.trans hguard.1
      cases hpoint : s.point <;> simp [hpoint, intrAt] at hi
      rfl
    refine h.goto rfl ?_ ?_ rfl rfl (by simp) (by simp)
    · simp [Sched.running, hp]
    · simp [h.frames, hp, framesAt, hguard.1]
  · simp at hstep

/-- `tasking_init` registers the running thread. -/
theorem Clean.taskingInit {s s' : Sched} {t : ℕ} (h : Clean s) (hp : s.point = .taskingInit t)
    (hstep : s.taskingInit t = some s') : Clean s' := by
  unfold Sched.taskingInit at hstep
  split at hstep
  next hunused =>
    obtain rfl := Option.some.inj hstep
    have hrunning : s.running = 0 := by
      rw [Sched.running, hp]
      exact h.init t hp
    refine ⟨?_, ?_, ?_, by simp, by simp, ?_, fun u th hu hne => ?_⟩
    · rw [Sched.setThread, h.frames, hp]
      rfl
    · rw [Sched.setThread, h.intr, hp]
      rfl
    · rw [Sched.setThread, h.inService, hp]
      rfl
    · exact (s.thread_setThread_of_ne _ hunused.1.symm).trans h.zero
    · obtain ⟨hut, -⟩ | ⟨-, hu⟩ := Sched.thread_setThread_inv hu
      · exact absurd hut hne
      · refine h.others u th hu fun hu0 => ?_
        rw [hu0, hrunning, h.zero] at hu
        simp at hu
  · simp at hstep

/-- A new thread waits for its first run, and linking it changes no stack. -/
theorem Clean.createKernelThread {s s' : Sched} {fuel entryPoint t : ℕ} (h : Clean s)
    (hp : s.point = .createKernelThread entryPoint t)
    (hstep : s.createKernelThread fuel entryPoint t = some s') : Clean s' := by
  unfold Sched.createKernelThread at hstep
  split at hstep
  next hunused =>
    obtain ⟨tail, -, hstep⟩ := Option.bind_eq_some_iff.1 hstep
    obtain ⟨th, htail, rfl⟩ := Option.map_eq_some_iff.1 hstep
    have hrunning : s.running = s.currentTask := by rw [Sched.running, hp]
    -- the threads with the new one
    set s₁ := s.setThread t ⟨s.readyQueue, [.entry entryPoint]⟩ with hs₁
    have hzero : s₁.thread 0 = none :=
      (s.thread_setThread_of_ne _ hunused.1.symm).trans h.zero
    have hothers : ∀ u th', s₁.thread u = some th' → u ≠ s.running → Waiting th' := by
      intro u th' hu hne
      obtain ⟨-, rfl⟩ | ⟨-, hu⟩ := Sched.thread_setThread_inv hu
      · exact Or.inr ⟨entryPoint, rfl⟩
      · exact h.others u th' hu hne
    refine ⟨?_, ?_, ?_, by simp, by simp, ?_, fun u th' hu hne => ?_⟩
    · rw [Sched.setThread, hs₁, Sched.setThread, h.frames, hp]
      rfl
    · rw [Sched.setThread, hs₁, Sched.setThread, h.intr, hp]
      rfl
    · rw [Sched.setThread, hs₁, Sched.setThread, h.inService, hp]
      rfl
    · refine (s₁.thread_setThread_of_ne _ ?_).trans hzero
      rintro rfl
      rw [hzero] at htail
      simp at htail
    · replace hne : u ≠ s.running := hrunning ▸ hne
      obtain ⟨rfl, rfl⟩ | ⟨-, hu⟩ := Sched.thread_setThread_inv hu
      · exact hothers u th htail hne
      · exact hothers u th' hu hne
  · simp at hstep

/-- `task_switch` returns or is about to switch to another thread. -/
theorem Clean.taskSwitch {s : Sched} (magic : UInt32) (h : Clean s) (hp : s.point = .taskSwitch) :
    Clean (s.taskSwitch magic) := by
  have hrunning : s.running = s.currentTask := by rw [Sched.running, hp]
  have hframes := h.frames
  have hintr := h.intr
  have hservice := h.inService
  rw [hp] at hframes hintr hservice
  unfold Sched.taskSwitch
  split
  · exact h.goto rfl hrunning.symm hframes hintr hservice (by simp) (by simp)
  next hguard =>
    split
    · exact h.goto rfl hrunning.symm hframes hintr hservice (by simp) (by simp)
    · refine h.goto rfl hrunning.symm hframes hintr hservice (by simp) ?_
      rintro oldTask ⟨⟩ heq
      exact hguard (Or.inr heq.symm)

/-- What `switch_task` does in a clean state: the thread that was interrupted waits in its handler,
    and the stack of the next one is popped. -/
theorem Clean.switchTask_inv {s s' : Sched} {oldTask : ℕ} (h : Clean s)
    (hp : s.point = .switchTask oldTask) (hstep : s.switchTask oldTask = some s') :
    ∃ th f, s.thread s.currentTask = some th ∧ Waiting th ∧ th.frames = f :: s'.frames ∧
      s'.point = f.target ∧ s'.currentTask = s.currentTask ∧ s'.intr = false ∧
      s'.inService = true ∧ s'.thread 0 = none ∧
      ∀ u th', s'.thread u = some th' → u ≠ s.currentTask → Waiting th' := by
  obtain ⟨old, hold, hstep⟩ := Option.bind_eq_some_iff.1 hstep
  obtain ⟨th, hth, hstep⟩ := Option.bind_eq_some_iff.1 hstep
  -- the two threads differ, so saving the old stack does not touch the new one
  have hne := h.switching oldTask hp
  have hrunning : s.running = oldTask := by rw [Sched.running, hp]
  replace hth : s.thread s.currentTask = some th :=
    (s.thread_setThread_of_ne _ (Ne.symm hne)).symm.trans hth
  have hwait := h.others _ th hth (by rw [hrunning]; exact Ne.symm hne)
  unfold Sched.ret at hstep
  split at hstep
  · simp at hstep
  next f fs hfs =>
    obtain rfl := Option.some.inj hstep
    refine ⟨th, f, hth, hwait, hfs, rfl, rfl, ?_, ?_, ?_, fun u th' hu hune => ?_⟩
    · exact h.intr.trans (by rw [hp]; rfl)
    · exact h.inService.trans (by rw [hp]; rfl)
    · refine (s.thread_setThread_of_ne _ ?_).trans h.zero
      rintro rfl
      rw [h.zero] at hold
      simp at hold
    · obtain ⟨-, rfl⟩ | ⟨hu', hu⟩ := Sched.thread_setThread_inv hu
      · left
        change _ :: s.frames = _
        rw [h.frames, hp]
        rfl
      · exact h.others u th' hu (by rwa [hrunning])

/-- A switch to a thread that was switched out before. -/
theorem Clean.switchTask {s s' : Sched} {oldTask : ℕ} (h : Clean s)
    (hp : s.point = .switchTask oldTask) (hfirst : ¬ FirstDispatch s)
    (hstep : s.switchTask oldTask = some s') : Clean s' := by
  obtain ⟨th, f, hth, hwait, hf, hpoint, hcur, hintr, hservice, hzero, hothers⟩ :=
    h.switchTask_inv hp hstep
  rcases hwait with hwait | ⟨e, hwait⟩
  · obtain ⟨rfl, hfs⟩ := List.cons.inj (hf.symm.trans hwait)
    have hrunning : s'.running = s.currentTask := by
      rw [Sched.running, hpoint]
      exact hcur
    refine ⟨?_, ?_, ?_, ?_, ?_, hzero, fun u th' hu hne => hothers u th' hu (hrunning ▸ hne)⟩
    · rw [hfs, hpoint]
      rfl
    · rw [hintr, hpoint]
      rfl
    · rw [hservice, hpoint]
      rfl
    · simp [hpoint, Frame.target]
    · simp [hpoint, Frame.target]
  · exact absurd ⟨⟨oldTask, hp⟩, th, e, hth, hwait⟩ hfirst

/-- A switch to a thread that has never run starts its body with interrupts disabled and IRQ0 still
    in service. -/
theorem Clean.firstDispatch {s s' : Sched} {fuel : ℕ} {ev : Event} (h : Clean s)
    (hfirst : FirstDispatch s) (hstep : s.step fuel ev = some s') :
    s'.point = .body ∧ s'.intr = false ∧ s'.inService = true := by
  obtain ⟨⟨oldTask, hp⟩, th, e, hth, he⟩ := hfirst
  have hintr : s.intr = false := h.intr.trans (by rw [hp]; rfl)
  cases ev with
  | irq0 => simp [Sched.step, Sched.irq0, hintr] at hstep
  | taskingInit t => simp [Sched.step, hp] at hstep
  | createKernelThread e t => simp [Sched.step, hp] at hstep
  | run magic =>
      simp only [Sched.step, Sched.run, hp] at hstep
      obtain ⟨th', f, hth', -, hf, hpoint, -, hintr', hservice, -⟩ := h.switchTask_inv hp hstep
      obtain rfl := Option.some.inj (hth.symm.trans hth')
      obtain ⟨rfl, -⟩ := List.cons.inj (he.symm.trans hf)
      exact ⟨hpoint, hintr', hservice⟩

/-- A return inside the handler. -/
theorem Clean.ret {s s' : Sched} (h : Clean s)
    (hp : s.point = .taskSwitchEnd ∨ s.point = .timerCallbackEnd ∨ s.point = .irq0HandlerEnd)
    (hstep : s.ret = some s') : Clean s' := by
  have hframes := h.frames
  have hintr := h.intr
  have hservice := h.inService
  unfold Sched.ret at hstep
  rcases hp with hp | hp | hp <;> rw [hp] at hframes hintr hservice <;>
    rw [hframes] at hstep <;> obtain rfl := Option.some.inj hstep <;>
    exact h.goto rfl (by simp [Sched.running, hp, Frame.target]) rfl hintr hservice
      (by simp [Frame.target]) (by simp [Frame.target])

/-- The interrupted thread goes on in its body, where interrupts were enabled. -/
theorem Clean.iret {s s' : Sched} (h : Clean s) (hp : s.point = .iret) (hstep : s.iret = some s') :
    Clean s' := by
  have hframes := h.frames
  have hservice := h.inService
  rw [hp] at hframes hservice
  unfold Sched.iret at hstep
  rw [hframes] at hstep
  obtain rfl := Option.some.inj hstep
  exact h.goto rfl (by simp [Sched.running, hp]) rfl rfl hservice (by simp) (by simp)

theorem Clean.run {s s' : Sched} {fuel : ℕ} {magic : UInt32} (h : Clean s)
    (hfirst : ¬ FirstDispatch s) (hstep : s.run fuel magic = some s') : Clean s' := by
  have hframes := h.frames
  have hintr := h.intr
  have hservice := h.inService
  unfold Sched.run at hstep
  cases hp : s.point with
  | body =>
      simp only [hp, Option.some.injEq] at hstep
      exact hstep ▸ h
  | taskingInit t => exact h.taskingInit hp (by simpa only [hp] using hstep)
  | createKernelThread e t => exact h.createKernelThread hp (by simpa only [hp] using hstep)
  | taskSwitch =>
      simp only [hp, Option.some.injEq] at hstep
      exact hstep ▸ h.taskSwitch magic hp
  | switchTask oldTask => exact h.switchTask hp hfirst (by simpa only [hp] using hstep)
  | taskSwitchEnd => exact h.ret (Or.inl hp) (by simpa only [hp] using hstep)
  | timerCallbackEnd => exact h.ret (Or.inr (Or.inl hp)) (by simpa only [hp] using hstep)
  | irq0HandlerEnd => exact h.ret (Or.inr (Or.inr hp)) (by simpa only [hp] using hstep)
  | iret => exact h.iret hp (by simpa only [hp] using hstep)
  -- the remaining statements only move on
  | _ =>
      simp only [hp, Option.some.injEq, Sched.call] at hstep
      rw [hp] at hframes hintr hservice
      subst hstep
      exact h.goto rfl (by simp [Sched.running, hp]) (by simp [hframes, framesAt])
        (by simp [hintr, intrAt]) (by simp [hservice, inServiceAt]) (by simp) (by simp)

/-- Every step but the first dispatch of a thread keeps the invariant. -/
theorem Clean.step {s s' : Sched} (h : Clean s) (hfirst : ¬ FirstDispatch s)
    (hstep : SchedStep s s') : Clean s' := by
  obtain ⟨fuel, ev, hstep⟩ := hstep
  cases ev with
  | irq0 => exact h.irq0 hstep
  | run magic => exact h.run hfirst hstep
  | taskingInit t =>
      simp only [Sched.step] at hstep
      split at hstep
      next hguard =>
        obtain rfl := Option.some.inj hstep
        have hp := hguard.1
        refine h.goto rfl (by simp [Sched.running, hp]) ?_ rfl ?_ (fun _ _ => hguard.2) (by simp)
        · exact h.frames.trans (by rw [hp]; rfl)
        · exact h.inService.trans (by rw [hp]; rfl)
      · simp at hstep
  | createKernelThread e t =>
      simp only [Sched.step] at hstep
      split at hstep
      next hp =>
        obtain rfl := Option.some.inj hstep
        refine h.goto rfl (by simp [Sched.running, hp]) ?_ rfl ?_ (by simp) (by simp)
        · exact h.frames.trans (by rw [hp]; rfl)
        · exact h.inService.trans (by rw [hp]; rfl)
      · simp at hstep

/-! ## Runs -/

/-- Along a run from a clean state the threads are preemptible as long as none is dispatched for the
    first time, and no longer. -/
theorem Clean.preemptible_iff : ∀ {l : List Sched} {s : Sched}, Clean s →
    (s :: l).IsChain SchedStep →
    ((∀ s' ∈ s :: l, Preemptible s') ↔ ∀ s' ∈ (s :: l).dropLast, ¬ FirstDispatch s') := by
  intro l
  induction l with
  | nil =>
      intro s h _
      simpa using h.preemptible
  | cons s₁ l ih =>
      intro s h hrun
      obtain ⟨hstep, hrest⟩ := List.isChain_cons_cons.1 hrun
      rw [List.dropLast_cons_cons, List.forall_mem_cons (l := s₁ :: l),
        List.forall_mem_cons (l := (s₁ :: l).dropLast)]
      by_cases hfirst : FirstDispatch s
      · -- the new thread's body is where preemption is lost
        obtain ⟨fuel, ev, hstep⟩ := hstep
        obtain ⟨hp, hintr, -⟩ := h.firstDispatch hfirst hstep
        constructor
        · rintro ⟨-, hall⟩
          have hpre := hall s₁ (List.mem_cons_self ..) hp
          simp [hintr] at hpre
        · rintro ⟨hnot, -⟩
          exact absurd hfirst hnot
      · rw [ih (h.step hfirst hstep) hrest]
        exact ⟨fun ⟨_, hall⟩ => ⟨hfirst, hall⟩, fun ⟨_, hall⟩ => ⟨h.preemptible, hall⟩⟩

/-- In a run of the scheduler every body can be preempted again exactly as long as `switch_task`
    has not started a thread that `create_kernel_thread` has made. -/
theorem preemptible_iff_no_firstDispatch {l : List Sched}
    (hrun : (Sched.boot :: l).IsChain SchedStep) :
    (∀ s ∈ Sched.boot :: l, Preemptible s) ↔
      ∀ s ∈ (Sched.boot :: l).dropLast, ¬ FirstDispatch s :=
  Sched.boot_clean.preemptible_iff hrun

/-- The states that a list of events leads through. -/
def Sched.exec (fuel : ℕ) : List Event → Sched → List Sched
  | [], _ => []
  | ev :: evs, s =>
      match s.step fuel ev with
      | some s' => s' :: exec fuel evs s'
      | none => []

theorem Sched.exec_isChain (fuel : ℕ) (evs : List Event) :
    ∀ s : Sched, (s :: s.exec fuel evs).IsChain SchedStep := by
  induction evs with
  | nil => exact fun s => List.isChain_singleton s
  | cons ev evs ih =>
      intro s
      rw [Sched.exec]
      split
      next s' hs => exact List.isChain_cons_cons.2 ⟨⟨fuel, ev, hs⟩, ih s'⟩
      · exact List.isChain_singleton s

/-- The first task is interrupted and goes on. -/
def firstTick : List Event :=
  [.taskingInit 0x10000C, .run 0, .run 0, .irq0] ++ List.replicate 9 (.run 0)

/-- All along this tick the first task is preemptible. -/
theorem preemptible_iff_no_firstDispatch_tick :
    (Sched.boot.exec 1 firstTick).length = firstTick.length ∧
      ∀ s ∈ Sched.boot :: Sched.boot.exec 1 firstTick, Preemptible s := by
  refine ⟨by decide,
    (preemptible_iff_no_firstDispatch (Sched.exec_isChain 1 firstTick Sched.boot)).2 ?_⟩
  rintro s hs ⟨⟨oldTask, hp⟩, -⟩
  have hpoints : (Sched.boot :: Sched.boot.exec 1 firstTick).dropLast.map Sched.point
      = [.body, .taskingInit 0x10000C, .sti, .body, .isrIrq0, .irq0Handler, .timerCallback,
        .taskSwitch, .taskSwitchEnd, .timerCallbackEnd, .eoi, .irq0HandlerEnd, .iret] := by decide
  have hmem := List.mem_map_of_mem (f := Sched.point) hs
  rw [hpoints, hp] at hmem
  simp at hmem

/-- The first task makes a thread, and the next tick switches to it. -/
def firstSwitch : List Event :=
  [.taskingInit 0x10000C, .run 0, .run 0, .createKernelThread 0x2000 0x100030, .run 0, .run 0, .irq0]
    ++ List.replicate 5 (.run 0)

/-- The new thread runs with interrupts disabled and IRQ0 in service. -/
theorem firstSwitch_not_preemptible :
    ¬ ∀ l, (Sched.boot :: l).IsChain SchedStep → ∀ s ∈ Sched.boot :: l, Preemptible s := by
  intro hall
  have hlast : ∃ s ∈ Sched.boot.exec 2 firstSwitch, s.point = .body ∧ s.intr = false ∧
      s.inService = true := by decide
  obtain ⟨s, hs, hp, hintr, -⟩ := hlast
  have hpre := hall _ (Sched.exec_isChain 2 firstSwitch Sched.boot) s (List.mem_cons_of_mem _ hs) hp
  simp [hintr] at hpre

end BlackHole
