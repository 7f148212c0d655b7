import BlackHole.Kernel.Memory

set_option autoImplicit false

/-! # Tasks

`kernel/task.c` and `kernel/switch.S`: the machine state a context switch touches, the instructions
of `switch_task`, and the two C functions that use it. A `task_t` is six 32-bit words at its
address; the statics of `task.c` are fields of `Sys`. -/

namespace BlackHole

open Bytes

/-! ## The machine -/

/-- The registers `switch_task` and its callers work on, and the memory. -/
structure Machine where
  eax : UInt32
  ebx : UInt32
  esi : UInt32
  edi : UInt32
  ebp : UInt32
  esp : UInt32
  eip : UInt32
  cr3 : UInt32
  mem : Mem

def loadWord (m : Mem) (a : UInt32) : UInt32 := UInt32.ofNat (le32 m a.toNat)

def storeWord (m : Mem) (a v : UInt32) : Mem := put32 m a.toNat v.toNat

def Machine.push (s : Machine) (v : UInt32) : Machine :=
  { s with esp := s.esp - 4, mem := storeWord s.mem (s.esp - 4) v }

/-- The word on top of the stack, and the machine without it. -/
def Machine.pop (s : Machine) : UInt32 × Machine :=
  (loadWord s.mem s.esp, { s with esp := s.esp + 4 })

/-- `_switch_task`, from its first instruction to the one `ret` jumps to. -/
def switchTask (s : Machine) : Machine :=
  -- preserve the non-volatile registers on the current task's stack
  let s := s.push s.ebp
  let s := s.push s.ebx
  let s := s.push s.esi
  let s := s.push s.edi
  -- mov eax, [esp+20]; mov [eax], esp; mov esp, [esp+24]
  let s := { s with eax := loadWord s.mem (s.esp + 20) }
  let s := { s with mem := storeWord s.mem s.eax s.esp }
  let s := { s with esp := loadWord s.mem (s.esp + 24) }
  -- restore the registers from the new task's stack
  let p := s.pop
  let s := { p.2 with edi := p.1 }
  let p := s.pop
  let s := { p.2 with esi := p.1 }
  let p := s.pop
  let s := { p.2 with ebx := p.1 }
  let p := s.pop
  let s := { p.2 with ebp := p.1 }
  let p := s.pop
  { p.2 with eip := p.1 }

/-- A `call` of `switch_task` that is to return to `ret`. -/
def callSwitchTask (ret : UInt32) (s : Machine) : Machine := switchTask (s.push ret)

/-! ## The fields of `task_t` -/

/-- `sizeof(task_t)` -/
def taskSize : ℕ := 24

def taskEsp (m : Mem) (t : ℕ) : ℕ := le32 m (t + 4)

def taskCr3 (m : Mem) (t : ℕ) : ℕ := le32 m (t + 16)

def taskNext (m : Mem) (t : ℕ) : ℕ := le32 m (t + 20)

def setTaskId (m : Mem) (t v : ℕ) : Mem := put32 m t v

def setTaskEsp (m : Mem) (t v : ℕ) : Mem := put32 m (t + 4) v

def setTaskEbp (m : Mem) (t v : ℕ) : Mem := put32 m (t + 8) v

def setTaskEip (m : Mem) (t v : ℕ) : Mem := put32 m (t + 12) v

def setTaskCr3 (m : Mem) (t v : ℕ) : Mem := put32 m (t + 16) v

def setTaskNext (m : Mem) (t v : ℕ) : Mem := put32 m (t + 20) v

/-! ## The C functions -/

/-- The machine and the statics of `task.c`. -/
structure Sys where
  cpu : Machine
  currentTask : ℕ
  readyQueue : ℕ
  nextPid : ℕ

/-- `tasking_init`: the running code becomes the first task. -/
def taskingInit (fuel : ℕ) (s : Sys) : Option Sys :=
  (memoryAlloc fuel s.cpu.mem taskSize).map fun (t, m) =>
  let m := setTaskId m t s.nextPid
  let m := setTaskEsp m t 0
  let m := setTaskEbp m t 0
  let m := setTaskEip m t 0
  let m := setTaskCr3 m t s.cpu.cr3.toNat
  let m := setTaskNext m t t
  { cpu := { s.cpu with mem := m }
    currentTask := t
    readyQueue := t
    nextPid := u32 (s.nextPid + 1) }

/-- `task_switch` up to its call of `switch_task`: the state, and the arguments of the call if it is
    made. `eip` is what `__read_eip` returns and `magic` what the probe of `eax` reads. -/
def taskSwitch (s : Sys) (eip magic : UInt32) : Sys × Option (ℕ × ℕ) :=
  let m := s.cpu.mem
  if s.currentTask = 0 ∨ taskNext m s.currentTask = s.currentTask then (s, none)
  else if magic = 0x12345678 then (s, none)
  else
    let m := setTaskEip m s.currentTask eip.toNat
    let nextTask := taskNext m s.currentTask
    let oldTask := s.currentTask
    let cr3 := if taskCr3 m oldTask ≠ taskCr3 m nextTask then UInt32.ofNat (taskCr3 m nextTask)
      else s.cpu.cr3
    ({ s with
        cpu := { s.cpu with eax := 0x12345678, cr3 := cr3, mem := m }
        currentTask := nextTask },
      some (oldTask + 4, taskEsp m nextTask))

/-- The stores of `create_kernel_thread` into the new stack, and the stack pointer they leave. -/
def initialFrame (m : Mem) (stack entryPoint : ℕ) : ℕ × Mem :=
  let stackTop := u32 (stack + 4096)
  let m := put32 m (u32sub stackTop 4) entryPoint
  let m := put32 m (u32sub stackTop 8) 0
  let m := put32 m (u32sub stackTop 12) 0
  let m := put32 m (u32sub stackTop 16) 0
  let m := put32 m (u32sub stackTop 20) 0
  (u32sub stackTop 20, m)

/-- One iteration of the search for the tail of the ready queue. -/
def tailStep (m : Mem) (readyQueue tail : ℕ) : ℕ ⊕ ℕ :=
  if taskNext m tail ≠ readyQueue then .inr (taskNext m tail) else .inl tail

/-- `create_kernel_thread`: the state, the new task and its stack. -/
def createKernelThread (fuel : ℕ) (s : Sys) (entryPoint : ℕ) : Option (Sys × ℕ × ℕ) :=
  (memoryAlloc fuel s.cpu.mem taskSize).bind fun (newTask, m) =>
  let m := setTaskId m newTask s.nextPid
  let m := setTaskCr3 m newTask (taskCr3 m s.currentTask)
  (memoryAlloc fuel m 4096).bind fun (stack, m) =>
  let (sp, m) := initialFrame m stack entryPoint
  let m := setTaskEsp m newTask sp
  let m := setTaskEbp m newTask 0
  let m := setTaskEip m newTask entryPoint
  let m := setTaskNext m newTask s.readyQueue
  (Loop.iterate (tailStep m s.readyQueue) fuel s.readyQueue).map fun tail =>
  ({ s with
      cpu := { s.cpu with mem := setTaskNext m tail newTask }
      nextPid := u32 (s.nextPid + 1) }, newTask, stack)

end BlackHole
