import BlackHole.Drivers.Identify
import BlackHole.Fat16.AtaStack
import BlackHole.Kernel.Handlers
import BlackHole.Kernel.Translation
import BlackHole.Shell.Commands

set_option autoImplicit false

/-! # Starting the kernel

`kernel_main` sets up every part of the kernel and leaves for `user_main`. Interrupts come from the end of
`idt_init` on. Whatever they are, and from any state of the machine in which the statics have their
initial values, it establishes what the other modules begin with: the heap, the ring of tasks and the
page tables, the controllers and the timer, the layout of the file system. Without a drive it does not
get past `fat16_init` (`kernelMain_boots`). -/

namespace BlackHole

open Bytes BlockProgram FirstFit

/-! ## The machine -/

/-- The machine with its devices, and the statics of the kernel. -/
structure KernelState (δ : Type) where
  processor : Processor
  registers : Registers
  irqs : Irqs
  drive : δ
  layout : Layout
  currentTask : ℕ
  readyQueue : ℕ
  nextPid : ℕ

variable {δ : Type}

/-- What `task.c` works on. -/
def KernelState.sys (k : KernelState δ) : Sys where
  cpu :=
    { eax := k.registers.eax
      ebx := k.registers.ebx
      esi := k.registers.esi
      edi := k.registers.edi
      ebp := k.registers.ebp
      esp := UInt32.ofNat k.processor.esp
      eip := UInt32.ofNat k.processor.eip
      cr3 := UInt32.ofNat k.processor.cr3
      mem := k.processor.mem }
  currentTask := k.currentTask
  readyQueue := k.readyQueue
  nextPid := k.nextPid

def KernelState.withMem (k : KernelState δ) (m : Mem) : KernelState δ :=
  { k with processor := { k.processor with mem := m } }

/-- The state when `task.c` has worked on it; it leaves the registers alone. -/
def KernelState.withSys (k : KernelState δ) (s : Sys) : KernelState δ :=
  { k.withMem s.cpu.mem with
    currentTask := s.currentTask, readyQueue := s.readyQueue, nextPid := s.nextPid }

/-- What happens to the devices that interrupt between two calls. -/
def KernelState.interrupted (k : KernelState δ) (events : List IrqEvent) : Option (KernelState δ) :=
  (k.irqs.run k.sys events).map fun d => { k with irqs := d }

/-! ## `kernel_main` -/

/-- `VGA_LIGHT_GREY` -/
def vgaLightGrey : UInt8 := 0x7

/-- `timer_init`, with the events behind each of its writes. -/
def KernelState.timerInit (frequency : ℕ) (events : ℕ → List IrqEvent) (k : KernelState δ) :
    Option (KernelState δ) :=
  let (timer, sent) := BlackHole.timerInit k.irqs.timer frequency
  (Irqs.writes k.sys events sent { k.irqs with timer := timer }).map fun d => { k with irqs := d }

/-- `kernel_main` behind `vga_init`, up to `fat16_init`: what it prints and the state. `sector` is what
    the buffer of `fat16_init` holds when it is called. -/
def startDevices (c : Ata.Channel δ) (sector : Sector) (fuel : ℕ) (q : Placement)
    (events : ℕ → List IrqEvent) (k : KernelState δ) : Option (List Output × KernelState δ) := do
  let k := { k with
    processor := setUpKernel q k.processor, irqs := { k.irqs with pics := picRemap k.irqs.pics } }
  let k ← k.interrupted (events 0)
  let k ← k.timerInit 100 fun i => events (i + 1)
  let k := { k with irqs := { k.irqs with keyboard := keyboardInit k.irqs.keyboard } }
  let k ← k.interrupted (events 4)
  let (found, drive) ← c.ataInit fuel k.drive
  let k ← { k with drive := drive }.interrupted (events 5)
  let ((_, layout, mounted), drive) ← Prog.exec (c.loadSector (fun _ => sector) fuel)
    (c.ataWriteSector fuel) (SectorProg.fat16Init k.layout) k.drive
  let k ← { k with drive := drive, layout := layout }.interrupted (events 6)
  return ([.setColor vgaLightGreen vgaBlack, .printf "BlackHole OS v0.0.3\n" [],
      .setColor vgaLightGrey vgaBlack, .printf "Kernel loaded successfully.\n" [],
      .printf "Initializing Global Descriptor Table (GDT)...\n" [],
      .printf "Initializing Virtual Memory (Paging)...\n" [],
      .printf "Initializing IDT & PIC...\n" [],
      .printf "Initializing Timer...\n" [],
      found,
      .printf "Initializing FAT16 Filesystem...\n" [],
      mounted],
    k)

/-- `kernel_main` behind `fat16_init`, up to the `iret` of `switch_to_user_mode`. -/
def startTasks (fuel : ℕ) (q : Placement) (events : ℕ → List IrqEvent) (k : KernelState δ) :
    Option (List Output × KernelState δ) := do
  let k ← (k.withMem (memoryInit k.processor.mem)).interrupted (events 7)
  let (ptr1, m) ← memoryAlloc fuel k.processor.mem 128
  let k ← (k.withMem m).interrupted (events 8)
  let (ptr2, m) ← memoryAlloc fuel k.processor.mem 256
  let k ← (k.withMem m).interrupted (events 9)
  let tested := if ptr1 ≠ 0 ∧ ptr2 ≠ 0 then "> Memory allocation test PASSED.\n\n"
    else "> Memory allocation test FAILED.\n\n"
  let s ← taskingInit fuel k.sys
  let k ← (k.withSys s).interrupted (events 10)
  return ([.setColor vgaWhite vgaBlack, .printf "> IDT initialized.\n" [],
      .printf "> Timer running at 100Hz.\n" [],
      .printf "> Keyboard driver ready.\n" [],
      .printf "> Memory allocator ready.\n" [],
      .printf tested [],
      .printf "Initializing Multitasking Scheduler...\n" [],
      .printf "> Task zero active.\n\n" [],
      .printf "Dropping to User Mode (Ring 3)...\n" []],
    { k with processor := switchToUserMode q.userMain { k.processor with esp := q.esp } })

/-- `kernel_main` behind `vga_init`, with the events between its calls from `idt_init` on. -/
def kernelMain (c : Ata.Channel δ) (sector : Sector) (fuel : ℕ) (q : Placement)
    (events : ℕ → List IrqEvent) (k : KernelState δ) : Option (List Output × KernelState δ) := do
  let (devices, k) ← startDevices c sector fuel q events k
  let (tasks, k) ← startTasks fuel q events k
  return (devices ++ tasks, k)

/-! ## Interrupts -/

/-- There is nothing to switch to, and an interrupt can be taken. -/
structure KernelState.Quiet (k : KernelState δ) : Prop where
  alone : k.sys.Alone
  served : k.irqs.pics.Served

theorem KernelState.Quiet.interrupted {k : KernelState δ} (h : k.Quiet) (events : List IrqEvent) :
    ∃ d, k.interrupted events = some { k with irqs := d } ∧ k.irqs.Follows d := by
  obtain ⟨d, hrun, hd⟩ := Irqs.run_follows h.alone h.served events
  refine ⟨d, ?_, hd⟩
  rw [KernelState.interrupted, hrun]
  rfl

theorem KernelState.Quiet.timerInit {k : KernelState δ} (h : k.Quiet) (frequency : ℕ)
    (events : ℕ → List IrqEvent) :
    ∃ d, k.timerInit frequency events = some { k with irqs := d } ∧
      { k.irqs with
        timer := (BlackHole.timerInit k.irqs.timer frequency).1
        pit := Pit.programmed (1193182 / frequency) }.Follows d := by
  obtain ⟨d, hrun, hd⟩ := Irqs.writes_timerInit h.alone
    (d := { k.irqs with timer := (BlackHole.timerInit k.irqs.timer frequency).1 }) h.served
    k.irqs.timer frequency events
  exact ⟨d, congrArg (Option.map fun d => ({ k with irqs := d } : KernelState δ)) hrun, hd⟩

/-! ## The devices -/

/-- What is printed about the devices when `fat16_init` prints `mounted`. -/
def deviceMessages (mounted : Output) : List Output :=
  [.setColor vgaLightGreen vgaBlack, .printf "BlackHole OS v0.0.3\n" [],
    .setColor vgaLightGrey vgaBlack, .printf "Kernel loaded successfully.\n" [],
    .printf "Initializing Global Descriptor Table (GDT)...\n" [],
    .printf "Initializing Virtual Memory (Paging)...\n" [],
    .printf "Initializing IDT & PIC...\n" [],
    .printf "Initializing Timer...\n" [],
    .printf "> Primary ATA Drive initialized.\n" [],
    .printf "Initializing FAT16 Filesystem...\n" [],
    mounted]

/-- The devices that interrupt when they have been set up: the timer runs at 100 Hz, and the keyboard
    driver has had the scancodes since `keyboard_init`. -/
structure Irqs.Up (d : Irqs) : Prop where
  served : d.pics.Served
  pit : ∃ n, d.pit = (Pit.programmed 11931).clocks n
  frequency : d.timer.currentFreq = 100
  keyboard : ∃ (found : Keyboard) (codes : List UInt8),
    d.keyboard = codes.foldl keyboardHandleScancode (keyboardInit found)

theorem Irqs.Up.follows {d d' : Irqs} (h : d.Up) (hd : d.Follows d') : d'.Up := by
  obtain ⟨m, hm⟩ := h.pit
  obtain ⟨n, hn⟩ := hd.pit
  obtain ⟨found, codes, hcodes⟩ := h.keyboard
  obtain ⟨codes', hcodes'⟩ := hd.keyboard
  refine ⟨hd.served, ⟨m + n, ?_⟩, hd.frequency.trans h.frequency, found, codes ++ codes', ?_⟩
  · rw [hn, hm, Pit.clocks_add]
  · rw [hcodes', hcodes, List.foldl_append]

/-- The state behind `fat16_init`, which has found this layout. -/
def KernelState.devicesUp (q : Placement) (k : KernelState δ) (d : Irqs) (drive : δ)
    (layout : Layout) : KernelState δ :=
  { k with processor := setUpKernel q k.processor, irqs := d, drive := drive, layout := layout }

/-- Whatever the drive is doing, unless it is in the middle of a write, its first sector is read. -/
theorem startDevices_eq (sector : Sector) (q : Placement) (events : ℕ → List IrqEvent)
    {k : KernelState Ata.Drive} (hcurrent : k.currentTask = 0) (hdrive : k.drive.NotWriting) :
    ∃ d drive, d.Up ∧ drive.Idle ∧ drive.device.disk = k.drive.device.disk ∧ ∃ N, ∀ fuel, N < fuel →
      startDevices Ata.Drive.channel sector fuel q events k
        = some (deviceMessages (fat16Init k.layout k.drive.device.disk).2.2,
            k.devicesUp q d drive (fat16Init k.layout k.drive.device.disk).2.1) := by
  have halone : ∀ (p : Processor) (d : Irqs) (drive : Ata.Drive) (L : Layout),
      { k with processor := p, irqs := d, drive := drive, layout := L }.sys.Alone :=
    fun _ _ _ _ => Or.inl hcurrent
  -- up to `keyboard_init`
  obtain ⟨d₀, hrun₀, h₀⟩ := KernelState.Quiet.interrupted
    (k := { k with
      processor := setUpKernel q k.processor, irqs := { k.irqs with pics := picRemap k.irqs.pics } })
    ⟨halone .., _, picRemap_remapped k.irqs.pics, fun _ => rfl⟩ (events 0)
  obtain ⟨d₁, hrun₁, h₁⟩ := KernelState.Quiet.timerInit
    (k := { k with processor := setUpKernel q k.processor, irqs := d₀ }) ⟨halone .., h₀.served⟩ 100
    fun i => events (i + 1)
  have hup : { d₁ with keyboard := keyboardInit d₁.keyboard }.Up :=
    ⟨h₁.served, h₁.pit, h₁.frequency, d₁.keyboard, [], rfl⟩
  obtain ⟨d₂, hrun₂, h₂⟩ := KernelState.Quiet.interrupted
    (k := { k with
      processor := setUpKernel q k.processor
      irqs := { d₁ with keyboard := keyboardInit d₁.keyboard } })
    ⟨halone .., hup.served⟩ (events 4)
  -- the drive
  obtain ⟨found, hidle, hfound, -, M, hinit⟩ := Ata.Drive.ataInit_eq hdrive
  obtain ⟨d₃, hrun₃, h₃⟩ := KernelState.Quiet.interrupted
    (k := { k with processor := setUpKernel q k.processor, irqs := d₂, drive := found })
    ⟨halone .., h₂.served⟩ (events 5)
  obtain ⟨drive, ⟨hidle', hdisk⟩, N, hmount⟩ := (Ata.Drive.serves.stores fun _ => sector).exec
    (SectorProg.within_fat16Init k.layout) ⟨hidle, hfound⟩
  rw [SectorProg.run_fat16Init] at hdisk hmount
  obtain ⟨d₄, hrun₄, h₄⟩ := KernelState.Quiet.interrupted
    (k := k.devicesUp q d₃ drive (fat16Init k.layout k.drive.device.disk).2.1)
    ⟨halone .., h₃.served⟩ (events 6)
  refine ⟨d₄, drive, ((hup.follows h₂).follows h₃).follows h₄, hidle', hdisk, max M N,
    fun fuel hfuel => ?_⟩
  simp only [KernelState.devicesUp] at hrun₄
  simp only [startDevices, Option.bind_eq_bind, hrun₀, hrun₁, hrun₂, hinit fuel (by omega), hrun₃,
    hmount fuel (by omega), hrun₄, Option.bind_some]
  rfl

/-- The heap when the two blocks of the test and the first task are in it. -/
def bootBlocks : List Block :=
  [⟨0x100000, 128, false⟩, ⟨0x10008C, 256, false⟩, ⟨0x100198, 24, false⟩, ⟨0x1001BC, 1048120, true⟩]

def bootLive : ℕ → Option ℕ :=
  Function.update (Function.update (Function.update (fun _ => none) 0x10000C (some 128))
    0x100098 (some 256)) 0x1001A4 (some taskSize)

/-- `tasking_init` when the heap has room for the first task. -/
theorem HeapInv.firstTask {s : Sys} {live : ℕ → Option ℕ} {bs bs' : List Block} {t : ℕ}
    (h : HeapInv s.cpu.mem live bs)
    (halloc : alloc headerSize 4 (alignSize taskSize) bs = some (t, bs')) :
    ∃ s', (∀ fuel, bs.length < fuel → taskingInit fuel s = some s') ∧
      s' = ⟨{ s.cpu with mem := s'.cpu.mem }, t, t, u32 (s.nextPid + 1)⟩ ∧
      taskNext s'.cpu.mem t = t % 4294967296 ∧ HeapInv s'.cpu.mem (Function.update live t (some taskSize)) bs' ∧
      ∀ x, x < heapStart ∨ heapStart + heapSize ≤ x → s'.cpu.mem x = s.cpu.mem x := by
  obtain ⟨m', hrun, -, hinv, hkept⟩ := h.alloc_eq (by decide) (by decide) halloc
  have hall : ∀ fuel, bs.length < fuel → taskingInit fuel s
      = taskingInit (bs.length + 1) s := by
    intro fuel hfuel
    rw [taskingInit, taskingInit, hrun fuel hfuel, hrun _ (Nat.lt_succ_self _)]
  obtain ⟨s', hs⟩ : ∃ s', taskingInit (bs.length + 1) s = some s' := by
    rw [taskingInit, hrun _ (Nat.lt_succ_self _)]
    exact ⟨_, rfl⟩
  obtain ⟨t', m₁, m, hrun', hkeep, hnext, rfl⟩ := taskingInit_eq hs
  obtain ⟨rfl, rfl⟩ := Prod.mk.inj (Option.some.inj ((hrun _ (Nat.lt_succ_self _)).symm.trans hrun'))
  have hlive : Function.update live t (some taskSize) t = some taskSize := Function.update_self ..
  refine ⟨_, fun fuel hfuel => (hall fuel hfuel).trans hs, rfl, hnext,
    hinv.clientWrite fun x _ _ hout => hkeep x ?_, fun x hx => ?_⟩
  · have := hout t taskSize hlive
    omega
  · have hlow := hinv.le_of_live (q := t) (by rw [hlive]; simp)
    obtain ⟨b, hb, -, hbt, hn⟩ := hinv.live t taskSize hlive
    have hin := hinv.tiles.mem hb
    unfold Block.stop at hin
    exact (hkeep x (by omega)).trans (hkept.outside x hx)

/-- The heap behind the test. -/
theorem memoryTest (m : Mem) : ∃ m₁ m₂,
    (∀ fuel, 2 < fuel → memoryAlloc fuel (memoryInit m) 128 = some (0x10000C, m₁)) ∧
    (∀ fuel, 2 < fuel → memoryAlloc fuel m₁ 256 = some (0x100098, m₂)) ∧
    HeapInv m₂ (Function.update (Function.update (fun _ => none) 0x10000C (some 128)) 0x100098
      (some 256)) [⟨0x100000, 128, false⟩, ⟨0x10008C, 256, false⟩, ⟨0x100198, 1048156, true⟩] ∧
    ∀ x, x < heapStart ∨ heapStart + heapSize ≤ x → m₂ x = m x := by
  obtain ⟨m₁, hrun₁, -, hinv₁, hkept₁⟩ := (memoryInit_inv m).alloc_eq (show 128 ≠ 0 by decide) (by decide)
    (show _ = some (0x10000C, [⟨0x100000, 128, false⟩, ⟨0x10008C, 1048424, true⟩]) by decide)
  obtain ⟨m₂, hrun₂, -, hinv₂, hkept₂⟩ := hinv₁.alloc_eq (show 256 ≠ 0 by decide) (by decide)
    (show _ = some (0x100098, [⟨0x100000, 128, false⟩, ⟨0x10008C, 256, false⟩,
      ⟨0x100198, 1048156, true⟩]) by decide)
  refine ⟨m₁, m₂, fun fuel hfuel => hrun₁ fuel ?_, fun fuel hfuel => hrun₂ fuel hfuel, hinv₂,
    fun x hx => ?_⟩
  · exact lt_trans (by decide) hfuel
  · rw [hkept₂.outside x hx, hkept₁.outside x hx, memoryInit_outside m hx]

/-! ## To user mode -/

variable {q : Placement}

/-- `switch_to_user_mode` above the tables of `paging_init`. -/
theorem switchToUserMode_inUserMode {p : Processor} (hesp : p.esp = q.esp) (hesp0 : p.tss.esp0 = 0)
    (hgates : ∀ n, n = 32 ∨ n = 33 ∨ n = 128 → X86.dpl (p.gdt ((p.idt n).selector / 8)).access = 0)
    (hcr3 : p.cr3 = alignPage q.pageDirectoryRaw)
    (htables : IdentityTables (le32 p.mem) (alignPage q.pageDirectoryRaw)
      (alignPage q.firstPageTableRaw)) :
    InUserMode q (switchToUserMode q.userMain p) ∧
      (switchToUserMode q.userMain p).cr3 = p.cr3 ∧ (switchToUserMode q.userMain p).idt = p.idt ∧
      ∀ x, x < q.esp - 20 ∨ q.esp ≤ x → (switchToUserMode q.userMain p).mem x = p.mem x := by
  have hd := alignPage_range q.directory_fits
  have ht := alignPage_range q.table_fits
  have h20 := q.stack_fits.1
  have hstackd := q.stack_directory
  have hstackt := q.stack_table
  obtain ⟨eflags, hswitch⟩ := switchToUserMode_eq (hesp ▸ q.stack_fits) q.userMain
  have hkeep : ∀ x, x < q.esp - 20 ∨ q.esp ≤ x →
      (switchToUserMode q.userMain p).mem x = p.mem x := by
    intro x hx
    rw [hswitch]
    show switchFrame p.mem p.esp eflags q.userMain x = p.mem x
    rw [hesp]
    exact switchFrame_of_outside _ _ _ h20 hx
  have hkept : IdentityTables (le32 (switchToUserMode q.userMain p).mem)
      (alignPage q.pageDirectoryRaw) (alignPage q.firstPageTableRaw) := htables.congr fun x hx =>
    hkeep x (by
      unfold InTables at hx
      omega)
  refine ⟨⟨?_, ?_, fun n hn => ?_, ?_, hkept.directory_entry, hkept.table_entry⟩, ?_, ?_, hkeep⟩
  · rw [hswitch]
    show le32 (switchFrame p.mem p.esp eflags q.userMain) (p.esp - 20 + 4) % 4 = 3
    rw [hesp, le32_switchFrame_cs _ _ _ h20]
  · rw [hswitch]
    exact hesp0
  · rw [hswitch]
    exact hgates n hn
  · rw [hswitch]
    exact hcr3
  · rw [hswitch]
    rfl
  · rw [hswitch]
    rfl

/-- `paging_init` writes to the two tables only. -/
theorem pagingInit_outside {directoryRaw tableRaw : ℕ} (m : Mem) {x : ℕ}
    (hx : ¬ InTables (alignPage directoryRaw) (alignPage tableRaw) x) :
    (pagingInit directoryRaw tableRaw m).1 x = m x := by
  unfold InTables at hx
  show put32 (fillTable (fillTable m _ _) _ _) _ _ x = m x
  rw [put32_of_outside _ _ (by omega), (fillTable_spec _ _ _).2 x (by omega),
    (fillTable_spec _ _ _).2 x (by omega)]

/-! ## The state in the end -/

/-- The stack of `kernel_main` and the arrays of `paging.c` are below the heap and apart. -/
structure Placement.Low (q : Placement) (lo hi : ℕ) : Prop where
  stack : lo + 20 ≤ q.esp ∧ q.esp ≤ hi ∧ hi ≤ heapStart
  directory : q.pageDirectoryRaw + 8192 ≤ heapStart ∧
    (hi ≤ q.pageDirectoryRaw ∨ q.pageDirectoryRaw + 8192 ≤ lo)
  table : q.firstPageTableRaw + 8192 ≤ heapStart ∧
    (hi ≤ q.firstPageTableRaw ∨ q.firstPageTableRaw + 8192 ≤ lo)

/-- The history that begins with the first task on its stack. -/
def KernelState.history (k : KernelState δ) (lo hi : ℕ) : History :=
  ⟨⟨k.sys, oneTask k.currentTask lo hi⟩, [k.currentTask]⟩

/-- What is printed behind `fat16_init`. -/
def taskMessages : List Output :=
  [.setColor vgaWhite vgaBlack, .printf "> IDT initialized.\n" [],
    .printf "> Timer running at 100Hz.\n" [],
    .printf "> Keyboard driver ready.\n" [],
    .printf "> Memory allocator ready.\n" [],
    .printf "> Memory allocation test PASSED.\n\n" [],
    .printf "Initializing Multitasking Scheduler...\n" [],
    .printf "> Task zero active.\n\n" [],
    .printf "Dropping to User Mode (Ring 3)...\n" []]

/-- The kernel with its heap, its first task and its page tables, in user mode. -/
structure TasksUp (q : Placement) (lo hi : ℕ) (k k' : KernelState δ) : Prop where
  user : InUserMode q k'.processor
  heap : HeapInv k'.processor.mem bootLive bootBlocks
  scheduler : SchedulerInv (k'.history lo hi)
  translation : Mapped (alignPage q.pageDirectoryRaw) (alignPage q.firstPageTableRaw) (k'.history lo hi)
  idt : k'.processor.idt = k.processor.idt
  statics : k' = { k with
    processor := k'.processor, irqs := k'.irqs
    currentTask := 0x1001A4, readyQueue := 0x1001A4, nextPid := 2 }
  irqs : k.irqs.Follows k'.irqs
  elsewhere : ∀ x, heapStart + heapSize ≤ x → k'.processor.mem x = k.processor.mem x

/-- The stores of a task into its own stack. -/
theorem KernelInv.computes_stack {k k' : Kernel} (hinv : KernelInv k) {lo hi : ℕ}
    (hplace : k.stack k.sys.currentTask = some (lo, hi)) (hstack : k'.stack = k.stack)
    (hcur : k'.sys.currentTask = k.sys.currentTask) (hready : k'.sys.readyQueue = k.sys.readyQueue)
    (hm : ∀ x, x < lo ∨ hi ≤ x → k'.mem x = k.mem x) :
    Computes k k' ∧ ∀ t, k.stack t ≠ none → ∀ j < taskSize, k'.mem (t + j) = k.mem (t + j) := by
  have htcb : ∀ t, k.stack t ≠ none → ∀ j < taskSize, k'.mem (t + j) = k.mem (t + j) := by
    intro t ht j hj
    have hapart := hinv.apart.stackTask _ t lo hi hplace ht
    exact hm _ (by omega)
  unfold taskSize at htcb
  refine ⟨⟨hstack, hcur, hready, fun t lo' hi' ht hne x hx hlt => hm x ?_, fun t ht => ?_,
    fun t ht => ?_, ?_⟩, htcb⟩
  · have hdisjoint := hinv.apart.disjoint t _ lo' hi' lo hi ht hplace hne
    omega
  · exact le32_congr fun j hj => by
      rw [Nat.add_assoc]
      exact htcb t ht _ (by omega)
  · have hnext : taskNext k'.mem t = taskNext k.mem t := le32_congr fun j hj => by
      rw [Nat.add_assoc]
      exact htcb t ht _ (by omega)
    rw [hnext]
    exact hinv.next t ht
  · refine hinv.owned.write fun x hx => hm x ?_
    have := (hx _ lo hi hplace).2
    omega

/-- So does the history in which they are made. -/
theorem SchedulerInv.computes_stack {h : History} (hinv : SchedulerInv h) {s' : Sys} {lo hi : ℕ}
    (hplace : h.kernel.stack h.kernel.sys.currentTask = some (lo, hi))
    (hcur : s'.currentTask = h.kernel.sys.currentTask)
    (hready : s'.readyQueue = h.kernel.sys.readyQueue) (hpid : s'.nextPid = h.kernel.sys.nextPid)
    (hm : ∀ x, x < lo ∨ hi ≤ x → s'.cpu.mem x = h.kernel.mem x) :
    SchedulerInv ⟨⟨s', h.kernel.stack⟩, h.tasks⟩ := by
  obtain ⟨hc, htcb⟩ : Computes h.kernel ⟨s', h.kernel.stack⟩ ∧ _ :=
    hinv.ring.kernel.computes_stack hplace rfl hcur hready hm
  unfold taskSize at htcb
  refine hinv.run (.single (.computes hc (fun t ht => ⟨?_, ?_⟩) hpid))
  · exact le32_congr fun j hj => htcb t ht j (by omega)
  · exact le32_congr fun j hj => by
      rw [Nat.add_assoc]
      exact htcb t ht _ (by omega)

/-- The tables are not in its stack. -/
theorem Mapped.computes_stack {h : History} {directory table : ℕ} (hinv : SchedulerInv h)
    (hmap : Mapped directory table h) {s' : Sys} {lo hi : ℕ}
    (hplace : h.kernel.stack h.kernel.sys.currentTask = some (lo, hi))
    (hcr3 : s'.cpu.cr3 = h.kernel.sys.cpu.cr3)
    (hm : ∀ x, x < lo ∨ hi ≤ x → s'.cpu.mem x = h.kernel.mem x) :
    Mapped directory table ⟨⟨s', h.kernel.stack⟩, h.tasks⟩ := by
  refine hmap.same rfl hcr3 (fun t ht => le32_congr fun j hj => hm _ ?_) fun x hx => hm x ?_
  · have hapart := hinv.ring.kernel.apart.stackTask _ t lo hi hplace ht
    unfold taskSize at hapart
    omega
  · exact (hmap.places _ lo hi hplace).2 x hx

/-- From the set-up of the heap to user mode, over the tables of `paging_init`. -/
theorem startTasks_eq {lo hi : ℕ} (hlow : q.Low lo hi) (events : ℕ → List IrqEvent)
    {k : KernelState δ} (hcurrent : k.currentTask = 0) (hserved : k.irqs.pics.Served)
    (hpid : k.nextPid = 1) (hesp0 : k.processor.tss.esp0 = 0)
    (hgates : ∀ n, n = 32 ∨ n = 33 ∨ n = 128 →
      X86.dpl (k.processor.gdt ((k.processor.idt n).selector / 8)).access = 0)
    (hcr3 : k.processor.cr3 = alignPage q.pageDirectoryRaw)
    (htables : IdentityTables (le32 k.processor.mem) (alignPage q.pageDirectoryRaw)
      (alignPage q.firstPageTableRaw)) :
    ∃ k', TasksUp q lo hi k k' ∧
      ∀ fuel, 3 < fuel → startTasks fuel q events k = some (taskMessages, k') := by
  have hd := alignPage_range q.directory_fits
  have ht := alignPage_range q.table_fits
  have hstack := hlow.stack
  have hdir := hlow.directory
  have htab := hlow.table
  have hheapStart : heapStart = 0x100000 := rfl
  have hends : ∀ x, InTables (alignPage q.pageDirectoryRaw) (alignPage q.firstPageTableRaw) x →
      x < heapStart ∧ (x < lo ∨ hi ≤ x) := by
    intro x hx
    unfold InTables at hx
    omega
  obtain ⟨m₁, m₂, hrun₁, hrun₂, hheap, hkeep⟩ := memoryTest k.processor.mem
  have hheap' : HeapInv (k.withMem m₂).sys.cpu.mem _ _ := hheap
  obtain ⟨s, hinit, hs, hself, hheap₃, hkeep₃⟩ := hheap'.firstTask
    (show _ = some (0x1001A4, bootBlocks) by decide)
  have hcur : s.currentTask = 0x1001A4 := by rw [hs]
  have hready : s.readyQueue = 0x1001A4 := by rw [hs]
  have hnext : s.nextPid = 2 := by
    rw [hs]
    show u32 (k.nextPid + 1) = 2
    rw [hpid]
    rfl
  have hscr3 : s.cpu.cr3 = UInt32.ofNat k.processor.cr3 := by
    rw [hs]
    rfl
  have hkeep₃' : ∀ x, x < heapStart ∨ heapStart + heapSize ≤ x → s.cpu.mem x = k.processor.mem x :=
    fun x hx => (hkeep₃ x hx).trans (hkeep x hx)
  have htables₃ : IdentityTables (le32 s.cpu.mem) (alignPage q.pageDirectoryRaw)
      (alignPage q.firstPageTableRaw) :=
    htables.congr fun x hx => hkeep₃' x (Or.inl (hends x hx).1)
  -- the interrupts between the calls
  have halone : ∀ m d, { k.withMem m with irqs := d }.sys.Alone := fun _ _ => Or.inl hcurrent
  obtain ⟨d₁, hevents₁, h₁⟩ := KernelState.Quiet.interrupted
    (k := k.withMem (memoryInit k.processor.mem)) ⟨halone _ k.irqs, hserved⟩ (events 7)
  obtain ⟨d₂, hevents₂, h₂⟩ := KernelState.Quiet.interrupted
    (k := { k.withMem m₁ with irqs := d₁ }) ⟨halone .., h₁.served⟩ (events 8)
  obtain ⟨d₃, hevents₃, h₃⟩ := KernelState.Quiet.interrupted
    (k := { k.withMem m₂ with irqs := d₂ }) ⟨halone .., h₂.served⟩ (events 9)
  have halone₃ : { k.withSys s with irqs := d₃ }.sys.Alone := by
    refine Or.inr (show taskNext s.cpu.mem s.currentTask = s.currentTask from ?_)
    rw [hcur]
    exact hself
  obtain ⟨d₄, hevents₄, h₄⟩ := KernelState.Quiet.interrupted
    (k := { k.withSys s with irqs := d₃ }) ⟨halone₃, h₃.served⟩ (events 10)
  -- to user mode
  let p : Processor := { k.processor with mem := s.cpu.mem, esp := q.esp }
  obtain ⟨huser, hcr3', hidt', hframe⟩ :=
    switchToUserMode_inUserMode (q := q) (p := p) rfl hesp0 hgates hcr3 htables₃
  have hinv := taskingInit_scheduler hheap' hpid (hinit 4 (by decide)) (by rw [hcur]; decide)
    (show lo ≤ hi by omega) (lt_of_le_of_lt hstack.2.2 (by decide)) (Or.inl hstack.2.2)
  have hmap := taskingInit_mapped hheap' (hinit 4 (by decide)) (by rw [hcur]; decide) hstack.2.2
    ⟨by omega, by omega⟩ (fun x hx => (hends x hx).2)
    (htables.congr fun x hx => hkeep x (Or.inl (hends x hx).1))
    (by
      show (UInt32.ofNat k.processor.cr3).toNat = alignPage q.pageDirectoryRaw
      rw [hcr3]
      exact Nat.mod_eq_of_lt (by omega))
  have hinStack : ∀ x, x < lo ∨ hi ≤ x → (switchToUserMode q.userMain p).mem x = s.cpu.mem x :=
    fun x hx => hframe x (by omega)
  refine ⟨{ k.withSys s with processor := switchToUserMode q.userMain p, irqs := d₄ },
    ⟨huser, ?_, ?_, ?_, hidt', ?_, ((h₁.trans h₂).trans h₃).trans h₄, ?_⟩, ?_⟩
  · exact hheap₃.clientWrite fun x hx _ _ => hinStack x (Or.inr (hstack.2.2.trans hx))
  · exact hinv.computes_stack (oneTask_self ..) rfl rfl rfl hinStack
  · refine hmap.computes_stack hinv (oneTask_self ..) ?_ hinStack
    show UInt32.ofNat (switchToUserMode q.userMain p).cr3 = s.cpu.cr3
    rw [hcr3', hscr3]
  · rw [KernelState.withSys, hcur, hready, hnext]
    rfl
  · intro x hx
    exact (hframe x (Or.inr (by omega))).trans (hkeep₃' x (Or.inr hx))
  · intro fuel hfuel
    have hfirst : taskingInit fuel { k.withMem m₂ with irqs := d₃ }.sys = some s := hinit fuel hfuel
    simp only [KernelState.withMem, KernelState.withSys] at hfirst hevents₁ hevents₂ hevents₃ hevents₄
    simp only [startTasks, KernelState.withMem, KernelState.withSys, Option.bind_eq_bind, hevents₁,
      hrun₁ fuel (by omega), hevents₂, hrun₂ fuel (by omega), hevents₃, hfirst, hevents₄,
      Option.bind_some]
    rfl

/-! ## The whole of it -/

/-- The statics of `task.c` have their initial values, and the drive is not in the middle of a write. -/
structure KernelState.Loaded (k : KernelState Ata.Drive) : Prop where
  currentTask : k.currentTask = 0
  nextPid : k.nextPid = 1
  drive : k.drive.NotWriting

/-- The parts of the kernel as the other modules begin with them. -/
structure Booted (q : Placement) (lo hi : ℕ) (k k' : KernelState Ata.Drive) : Prop where
  user : InUserMode q k'.processor
  heap : HeapInv k'.processor.mem bootLive bootBlocks
  scheduler : SchedulerInv (k'.history lo hi)
  translation : Mapped (alignPage q.pageDirectoryRaw) (alignPage q.firstPageTableRaw) (k'.history lo hi)
  irqs : k'.irqs.Up
  gates : ∀ irq : Irq, Gate (k'.processor.idt irq.vector) (q.handlers.stub irq)
  rate : ∃ left, 0 < left ∧ left ≤ 11932 ∧
    ∀ n, k'.irqs.pit.rises n = (n + 11931 - left) / 11931
  drive : k'.drive.Idle ∧ k'.drive.device.disk = k.drive.device.disk
  layout : k'.layout = (fat16Init k.layout k.drive.device.disk).2.1
  elsewhere : ∀ x, heapStart + heapSize ≤ x → k'.processor.mem x = k.processor.mem x

theorem TasksUp.booted {lo hi : ℕ} (hlow : q.Low lo hi) {k : KernelState Ata.Drive} {d : Irqs}
    {drive : Ata.Drive} {layout : Layout} (hup : d.Up) (hidle : drive.Idle)
    (hdisk : drive.device.disk = k.drive.device.disk)
    (hlayout : layout = (fat16Init k.layout k.drive.device.disk).2.1) {k' : KernelState Ata.Drive}
    (h : TasksUp q lo hi (k.devicesUp q d drive layout) k') : Booted q lo hi k k' := by
  have hd := alignPage_range q.directory_fits
  have ht := alignPage_range q.table_fits
  have hdir := hlow.directory
  have htab := hlow.table
  have hdrive : k'.drive = drive := congrArg KernelState.drive h.statics
  have hup' : k'.irqs.Up := hup.follows h.irqs
  refine ⟨h.user, h.heap, h.scheduler, h.translation, hup', fun irq => ?_, ?_,
    by rw [hdrive]; exact ⟨hidle, hdisk⟩, ?_, fun x hx => ?_⟩
  · rw [h.idt]
    exact idtInit_gate q.handlers _ irq
  · obtain ⟨n, hpit⟩ := hup'.pit
    rw [hpit]
    exact Pit.rises_programmed n
  · rw [← hlayout]
    exact congrArg KernelState.layout h.statics
  · refine (h.elsewhere x hx).trans (pagingInit_outside k.processor.mem ?_)
    unfold InTables
    omega

theorem kernelMain_drive {lo hi : ℕ} (hlow : q.Low lo hi) (sector : Sector)
    (events : ℕ → List IrqEvent) {k : KernelState Ata.Drive} (hk : k.Loaded) :
    ∃ k', Booted q lo hi k k' ∧ ∃ N, ∀ fuel, N < fuel →
      kernelMain Ata.Drive.channel sector fuel q events k
        = some (deviceMessages (fat16Init k.layout k.drive.device.disk).2.2 ++ taskMessages, k') := by
  obtain ⟨d, drive, hup, hidle, hdisk, N, hdevices⟩ :=
    startDevices_eq sector q events hk.currentTask hk.drive
  obtain ⟨k', htasksUp, htasks⟩ := startTasks_eq hlow events
    (k := k.devicesUp q d drive (fat16Init k.layout k.drive.device.disk).2.1) hk.currentTask hup.served
    hk.nextPid rfl (fun n hn => setUpKernel_gates q k.processor hn) rfl
    (pagingInit_identityTables k.processor.mem q.directory_fits q.table_fits q.apart)
  refine ⟨k', htasksUp.booted hlow hup hidle hdisk rfl, max N 3, fun fuel hfuel => ?_⟩
  rw [kernelMain, hdevices fuel (by omega)]
  simp only [Option.bind_eq_bind, Option.bind_some, htasks fuel (by omega)]
  rfl

/-- A machine whose controllers and timer are in the middle of being programmed and whose drive is
    busy with an answer of which a part has been read. -/
def busyMachine : KernelState Ata.Drive where
  processor := bootProcessor
  registers := ⟨0, 0, 0, 0, 0, 0, 0⟩
  irqs :=
    { pics := ⟨⟨.icw3, false, true, 8, 0, 0, 0, fun _ => true, fun _ => true⟩,
        ⟨.icw4, true, true, 0x70, 2, 0, 0, fun _ => true, fun _ => true⟩⟩
      pit := Pit.halfWritten
      timer := {}
      keyboard := ⟨fun _ => 0x61, 5, 3, true⟩
      scancode := 0 }
  drive := Ata.interrupted
  layout := {}
  currentTask := 0
  readyQueue := 0
  nextPid := 1

theorem busyMachine_loaded : busyMachine.Loaded := ⟨rfl, rfl, Ata.interrupted_notWriting⟩

/-- A key is pressed, and the timer counts, between any two calls. -/
def pressedKeys : ℕ → List IrqEvent := fun _ =>
  [.key 0x1E, .clock, .interrupt 0 0, .raise 14, .clock, .key 0x9E, .interrupt 0 0, .interrupt 0 0]

end BlackHole
