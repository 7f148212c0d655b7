import BlackHole.Kernel.Paging

set_option autoImplicit false

/-! # User mode

The set-up that `kernel_main` makes before it leaves for ring 3 (`gdt.c`, `paging.c`, `idt.c`,
`user_mode.S`), and what the processor checks afterwards: an access at level 3 needs user pages, and
an interrupt that finds the processor at level 3 pushes its frame on the stack of the TSS. -/

namespace BlackHole

open Bytes

/-! ## Descriptors -/

/-- `gdt_entry_t`. -/
structure GdtEntry where
  limitLow : ℕ
  baseLow : ℕ
  baseMiddle : ℕ
  access : ℕ
  granularity : ℕ
  baseHigh : ℕ
  deriving DecidableEq, Repr

/-- The fields of `tss_entry_t` that `write_tss` sets; all others are zero. -/
structure Tss where
  esp0 : ℕ
  ss0 : ℕ
  cs : ℕ
  ss : ℕ
  ds : ℕ
  es : ℕ
  fs : ℕ
  gs : ℕ
  deriving DecidableEq, Repr

/-- `idt_entry_t`. -/
structure IdtEntry where
  offsetLow : ℕ
  selector : ℕ
  zero : ℕ
  typeAttr : ℕ
  offsetHigh : ℕ
  deriving DecidableEq, Repr

/-- The processor with the tables its registers point to. -/
structure Processor where
  mem : Mem
  cr3 : ℕ
  gdt : ℕ → GdtEntry
  tss : Tss
  idt : ℕ → IdtEntry
  cs : ℕ
  ss : ℕ
  /-- `ds`, `es`, `fs` and `gs`, which are always loaded together -/
  dataSegment : ℕ
  tr : ℕ
  esp : ℕ
  eip : ℕ
  eflags : ℕ

/-! ## The set-up -/

/-- `gdt_set_gate`. -/
def gdtSetGate (base limit access gran : ℕ) : GdtEntry where
  baseLow := base &&& 0xFFFF
  baseMiddle := (base / 65536) &&& 0xFF
  baseHigh := (base / 16777216) &&& 0xFF
  limitLow := limit &&& 0xFFFF
  granularity := ((limit / 65536) &&& 0x0F) ||| (gran &&& 0xF0)
  access := access

/-- `write_tss`: the last of the three stores to `cs` counts. -/
def writeTss (ss0 esp0 : ℕ) : Tss where
  ss0 := ss0
  esp0 := esp0
  cs := 0x08
  ss := 0x10
  ds := 0x10
  es := 0x10
  fs := 0x10
  gs := 0x10

/-- `gdt_init`, with `gdt_flush` and `tss_flush`; `tssEntry` is the address of `tss_entry`, whose size
    is 104. -/
def gdtInit (tssEntry : ℕ) (p : Processor) : Processor :=
  { p with
    gdt := fun num =>
      if num = 0 then gdtSetGate 0 0 0 0
      else if num = 1 then gdtSetGate 0 0xFFFFFFFF 0x9A 0xCF
      else if num = 2 then gdtSetGate 0 0xFFFFFFFF 0x92 0xCF
      else if num = 3 then gdtSetGate 0 0xFFFFFFFF 0xFA 0xCF
      else if num = 4 then gdtSetGate 0 0xFFFFFFFF 0xF2 0xCF
      else if num = 5 then gdtSetGate tssEntry (104 - 1) 0xE9 0x00
      else p.gdt num
    tss := writeTss 0x10 0x0
    cs := 0x08, ss := 0x10, dataSegment := 0x10, tr := 0x2B }

/-- `tss_set_stack`. -/
def tssSetStack (esp : ℕ) (p : Processor) : Processor := { p with tss := { p.tss with esp0 := esp } }

/-- `idt_set_gate`. -/
def idtSetGate (handler sel flags : ℕ) : IdtEntry where
  offsetLow := handler &&& 0xFFFF
  selector := sel
  zero := 0
  typeAttr := flags
  offsetHigh := (handler / 65536) &&& 0xFFFF

/-- The entry points of the four handlers. -/
structure Handlers where
  isr14 : ℕ
  isrIrq0 : ℕ
  isrIrq1 : ℕ
  isr128 : ℕ

/-- `idt_init`; it ends with `sti`. -/
def idtInit (h : Handlers) (p : Processor) : Processor :=
  { p with
    idt := fun n =>
      if n = 14 then idtSetGate h.isr14 0x08 0x8E
      else if n = 32 then idtSetGate h.isrIrq0 0x08 0x8E
      else if n = 33 then idtSetGate h.isrIrq1 0x08 0x8E
      else if n = 128 then idtSetGate h.isr128 0x08 0xEE
      else idtSetGate 0 0 0
    eflags := p.eflags ||| 0x200 }

def Processor.push (p : Processor) (v : ℕ) : Processor :=
  { p with esp := u32sub p.esp 4, mem := put32 p.mem (u32sub p.esp 4) v }

/-- `iret` to an outer level: EIP, CS, EFLAGS, ESP and SS from the stack. -/
def Processor.iret (p : Processor) : Processor :=
  { p with
    eip := le32 p.mem p.esp
    cs := le32 p.mem (p.esp + 4)
    eflags := le32 p.mem (p.esp + 8)
    esp := le32 p.mem (p.esp + 12)
    ss := le32 p.mem (p.esp + 16) }

/-- `switch_to_user_mode`; the pushed ESP is the one after the push of SS. -/
def switchToUserMode (userMain : ℕ) (p : Processor) : Processor :=
  -- cli
  let p := { p with eflags := p.eflags &&& 0xFFFFFDFF, dataSegment := 0x23 }
  let p := p.push 0x23
  let p := p.push p.esp
  let p := p.push (p.eflags ||| 0x200)
  let p := p.push 0x1B
  let p := p.push userMain
  p.iret

/-- Where the linker and the bootloader put things: the two arrays of `paging.c` are apart and end
    below 4 GB, and the stack that `switch_to_user_mode` uses is not in them. -/
structure Placement where
  pageDirectoryRaw : ℕ
  firstPageTableRaw : ℕ
  tssEntry : ℕ
  userMain : ℕ
  handlers : Handlers
  esp : ℕ
  directory_fits : pageDirectoryRaw + 8192 ≤ 4294967296
  table_fits : firstPageTableRaw + 8192 ≤ 4294967296
  apart : pageDirectoryRaw + 8192 ≤ firstPageTableRaw ∨ firstPageTableRaw + 8192 ≤ pageDirectoryRaw
  stack_fits : 20 ≤ esp ∧ esp < 4294967296
  stack_directory : esp ≤ pageDirectoryRaw ∨ pageDirectoryRaw + 8192 ≤ esp - 20
  stack_table : esp ≤ firstPageTableRaw ∨ firstPageTableRaw + 8192 ≤ esp - 20

/-- `gdt_init`, `paging_init` and `idt_init`, as `kernel_main` calls them. -/
def setUpKernel (q : Placement) (p : Processor) : Processor :=
  let p := gdtInit q.tssEntry p
  let paging := pagingInit q.pageDirectoryRaw q.firstPageTableRaw p.mem
  idtInit q.handlers { p with mem := paging.1, cr3 := paging.2 }

/-- Then `switch_to_user_mode`, with the stack where the call finds it. -/
def enterUserMode (q : Placement) (p : Processor) : Processor :=
  switchToUserMode q.userMain { setUpKernel q p with esp := q.esp }

/-! ## Running at level 3 -/

/-- The current privilege level. -/
def Processor.cpl (p : Processor) : ℕ := p.cs % 4

/-- What can happen while the processor is at level 3. -/
inductive UserEvent where
  /-- `user_main` fetches, reads or writes at this address -/
  | access (v : ℕ)
  | timer
  | keyboard
  /-- `int $0x80` -/
  | syscall
  deriving DecidableEq, Repr

def Processor.mapped (p : Processor) (v : ℕ) : Bool := (X86.walk (le32 p.mem) p.cr3 v).isSome

/-- An interrupt through the gate of this vector: to an inner level it loads the stack of the TSS. -/
def Processor.interruptStack (p : Processor) (vector : ℕ) : ℕ :=
  if X86.dpl (p.gdt ((p.idt vector).selector / 8)).access < p.cpl then p.tss.esp0 else p.esp

/-- What the processor asks of an event: user access to the page, or a mapped place for the frame. -/
def Processor.allows (p : Processor) : UserEvent → Bool
  | .access v => X86.userMay (le32 p.mem) p.cr3 v
  | .timer => (X86.frameSlots (p.interruptStack 32)).all p.mapped
  | .keyboard => (X86.frameSlots (p.interruptStack 33)).all p.mapped
  | .syscall => (X86.frameSlots (p.interruptStack 128)).all p.mapped

/-- A sequence of events of which the processor allows each; `handled` is what the kernel's handlers
    make of the state. -/
def RunsUnfaulted (handled : Processor → UserEvent → Processor) :
    Processor → List UserEvent → Prop
  | _, [] => True
  | p, e :: events => p.allows e = true ∧ RunsUnfaulted handled (handled p e) events

/-! ## The state in user mode -/

/-- The five words below `esp` that `switch_to_user_mode` pushes. -/
def switchFrame (m : Mem) (esp eflags userMain : ℕ) : Mem :=
  let m := put32 m (esp - 4) 0x23
  let m := put32 m (esp - 8) (esp - 4)
  let m := put32 m (esp - 12) eflags
  let m := put32 m (esp - 16) 0x1B
  put32 m (esp - 20) userMain

theorem switchToUserMode_eq {p : Processor} (h : 20 ≤ p.esp ∧ p.esp < 4294967296) (userMain : ℕ) :
    ∃ eflags, switchToUserMode userMain p
      = { p with eflags := p.eflags &&& 0xFFFFFDFF, dataSegment := 0x23, esp := p.esp - 20,
                 mem := switchFrame p.mem p.esp eflags userMain : Processor }.iret := by
  refine ⟨(p.eflags &&& 0xFFFFFDFF) ||| 0x200, ?_⟩
  have h1 : u32sub p.esp 4 = p.esp - 4 := u32sub_of_le (by omega) h.2
  have h2 : u32sub (p.esp - 4) 4 = p.esp - 8 := u32sub_of_le (by omega) (by omega)
  have h3 : u32sub (p.esp - 8) 4 = p.esp - 12 := u32sub_of_le (by omega) (by omega)
  have h4 : u32sub (p.esp - 12) 4 = p.esp - 16 := u32sub_of_le (by omega) (by omega)
  have h5 : u32sub (p.esp - 16) 4 = p.esp - 20 := u32sub_of_le (by omega) (by omega)
  unfold switchToUserMode switchFrame
  simp only [Processor.push, h1, h2, h3, h4, h5]

theorem switchFrame_of_outside (m : Mem) {esp : ℕ} (eflags userMain : ℕ) {k : ℕ}
    (h20 : 20 ≤ esp) (h : k < esp - 20 ∨ esp ≤ k) : switchFrame m esp eflags userMain k = m k := by
  unfold switchFrame
  rw [put32_of_outside _ _ (by omega), put32_of_outside _ _ (by omega),
    put32_of_outside _ _ (by omega), put32_of_outside _ _ (by omega),
    put32_of_outside _ _ (by omega)]

theorem le32_switchFrame_cs (m : Mem) {esp : ℕ} (eflags userMain : ℕ) (h20 : 20 ≤ esp) :
    le32 (switchFrame m esp eflags userMain) (esp - 20 + 4) = 0x1B := by
  unfold switchFrame
  rw [le32_put32_of_disjoint _ _ (by omega), show esp - 20 + 4 = esp - 16 by omega, le32_put32]

/-- What the checks below look at, once `user_main` runs. -/
structure InUserMode (q : Placement) (p : Processor) : Prop where
  cpl : p.cpl = 3
  esp0 : p.tss.esp0 = 0
  gates : ∀ n, n = 32 ∨ n = 33 ∨ n = 128 →
    X86.dpl (p.gdt ((p.idt n).selector / 8)).access = 0
  cr3 : p.cr3 = alignPage q.pageDirectoryRaw
  directory : ∀ i < 1024, le32 p.mem (alignPage q.pageDirectoryRaw + 4 * i)
    = if i = 0 then alignPage q.firstPageTableRaw + 3 else 2
  table : ∀ i < 1024, le32 p.mem (alignPage q.firstPageTableRaw + 4 * i) = i * 4096 + 3

theorem setUpKernel_gates (q : Placement) (p : Processor) {n : ℕ} (hn : n = 32 ∨ n = 33 ∨ n = 128) :
    X86.dpl ((setUpKernel q p).gdt (((setUpKernel q p).idt n).selector / 8)).access = 0 := by
  rcases hn with rfl | rfl | rfl <;>
    simp [setUpKernel, idtInit, gdtInit, idtSetGate, gdtSetGate, X86.dpl]

theorem enterUserMode_inUserMode (q : Placement) (p : Processor) :
    InUserMode q (enterUserMode q p) := by
  obtain ⟨hdir, htab⟩ := pagingInit_tables p.mem q.directory_fits q.table_fits q.apart
  have hd := alignPage_range q.directory_fits
  have ht := alignPage_range q.table_fits
  have h20 := q.stack_fits.1
  have hstackd := q.stack_directory
  have hstackt := q.stack_table
  obtain ⟨eflags, hswitch⟩ :=
    switchToUserMode_eq (p := { setUpKernel q p with esp := q.esp }) q.stack_fits q.userMain
  have hmem : (enterUserMode q p).mem = switchFrame (setUpKernel q p).mem q.esp eflags q.userMain :=
    congrArg Processor.mem hswitch
  have hkeep : ∀ k, k < q.esp - 20 ∨ q.esp ≤ k → (enterUserMode q p).mem k
      = (pagingInit q.pageDirectoryRaw q.firstPageTableRaw p.mem).1 k := by
    intro k hk
    rw [hmem]
    exact switchFrame_of_outside _ _ _ h20 hk
  refine ⟨?_, ?_, fun n hn => ?_, ?_, fun i hi => ?_, fun i hi => ?_⟩
  · have hcs : (enterUserMode q p).cs
        = le32 (switchFrame (setUpKernel q p).mem q.esp eflags q.userMain) (q.esp - 20 + 4) :=
      congrArg Processor.cs hswitch
    unfold Processor.cpl
    rw [hcs, le32_switchFrame_cs _ _ _ h20]
  · exact congrArg (fun p => p.tss.esp0) hswitch
  · have hgate := congrArg (fun p => X86.dpl (p.gdt ((p.idt n).selector / 8)).access) hswitch
    exact hgate.trans (setUpKernel_gates q p hn)
  · exact congrArg Processor.cr3 hswitch
  · rw [← hdir i hi]
    exact le32_congr fun k hk => hkeep _ (by omega)
  · rw [← htab i hi]
    exact le32_congr fun k hk => hkeep _ (by omega)

/-! ## Nothing is allowed -/

variable {q : Placement} {p : Processor}

/-- The frame of `switch_to_user_mode` has left the tables as they were. -/
theorem InUserMode.tables (h : InUserMode q p) :
    IdentityTables (le32 p.mem) p.cr3 (alignPage q.firstPageTableRaw) := by
  rw [h.cr3]
  exact ⟨(alignPage_range q.directory_fits).2.2, (alignPage_range q.table_fits).2.2, h.directory,
    h.table⟩

/-- No directory entry has the U/S bit. -/
theorem InUserMode.not_userMay (h : InUserMode q p) (v : ℕ) :
    X86.userMay (le32 p.mem) p.cr3 v = false := by
  have ht := alignPage_range q.table_fits
  apply X86.not_userMay_of_pde
  rw [h.tables.pde_eq]
  unfold X86.userBit
  split
  · exact decide_eq_false (by omega)
  · rfl

/-- Addresses from 4 MB on are not mapped. -/
theorem InUserMode.not_mapped (h : InUserMode q p) {v : ℕ} (hv : v / 4194304 % 1024 ≠ 0) :
    p.mapped v = false := by
  unfold Processor.mapped
  rw [h.tables.walk_eq_none hv]
  rfl

/-- An interrupt pushes its frame below address 0, at the top of the address space. -/
theorem InUserMode.frame_not_mapped (h : InUserMode q p) {n : ℕ}
    (hn : n = 32 ∨ n = 33 ∨ n = 128) :
    (X86.frameSlots (p.interruptStack n)).all p.mapped = false := by
  have hstack : p.interruptStack n = 0 := by
    unfold Processor.interruptStack
    rw [h.gates n hn, h.cpl, if_pos (by decide), h.esp0]
  rw [hstack, List.all_eq_false]
  refine ⟨4294967292, by decide, ?_⟩
  rw [h.not_mapped (by decide)]
  decide

theorem InUserMode.not_allows (h : InUserMode q p) (e : UserEvent) : p.allows e = false := by
  cases e with
  | access v => exact h.not_userMay v
  | timer => exact h.frame_not_mapped (Or.inl rfl)
  | keyboard => exact h.frame_not_mapped (Or.inr (Or.inl rfl))
  | syscall => exact h.frame_not_mapped (Or.inr (Or.inr rfl))

/-- With a stack below 4 MB in the TSS the frames would be mapped: the interrupts fail for want of a
    call of `tss_set_stack`. -/
theorem InUserMode.interrupts_of_tssSetStack (h : InUserMode q p) {esp : ℕ}
    (hesp : 20 ≤ esp ∧ esp ≤ 4194304) {n : ℕ} (hn : n = 32 ∨ n = 33 ∨ n = 128) :
    (X86.frameSlots ((tssSetStack esp p).interruptStack n)).all (tssSetStack esp p).mapped
      = true := by
  have hstack : (tssSetStack esp p).interruptStack n = esp := by
    show (if X86.dpl (p.gdt ((p.idt n).selector / 8)).access < p.cpl then esp else p.esp) = esp
    rw [h.gates n hn, h.cpl, if_pos (by decide)]
  rw [hstack, List.all_eq_true]
  intro v hv
  obtain ⟨i, hi, rfl⟩ := List.mem_map.1 hv
  have hi5 := List.mem_range.1 hi
  set v := (esp + 4294967296 - 4 * (i + 1)) % 4294967296 with hvdef
  have hv4 : v < 4194304 := by omega
  show (X86.walk (le32 p.mem) p.cr3 v).isSome = true
  rw [h.tables.walk_eq_some hv4]
  rfl

/-- From the state that the kernel's set-up leaves, the processor allows no first event, whatever it
    is: a run is unfaulted exactly when nothing happens in it. -/
theorem user_mode_unfaulted_iff (q : Placement) (p : Processor)
    (handled : Processor → UserEvent → Processor) (events : List UserEvent) :
    RunsUnfaulted handled (enterUserMode q p) events ↔ events = [] := by
  cases events with
  | nil => exact ⟨fun _ => rfl, fun _ => trivial⟩
  | cons e events =>
      have hno := (enterUserMode_inUserMode q p).not_allows e
      refine ⟨fun hrun => ?_, fun hnil => absurd hnil (by simp)⟩
      have hyes := hrun.1
      rw [hno] at hyes
      exact absurd hyes (by decide)

/-- A placement like that of the build: the kernel at 64 KB, the stack at 576 KB. -/
def samplePlacement : Placement where
  pageDirectoryRaw := 0x8010
  firstPageTableRaw := 0xA010
  tssEntry := 0xC100
  userMain := 0x3000
  handlers := ⟨0x1100, 0x1110, 0x1120, 0x1130⟩
  esp := 0x8FFE0
  directory_fits := by decide
  table_fits := by decide
  apart := by decide
  stack_fits := by decide
  stack_directory := by decide
  stack_table := by decide

/-- A processor before the set-up. -/
def bootProcessor : Processor where
  mem := fun _ => 0
  cr3 := 0
  gdt := fun _ => ⟨0, 0, 0, 0, 0, 0⟩
  tss := ⟨0, 0, 0, 0, 0, 0, 0, 0⟩
  idt := fun _ => ⟨0, 0, 0, 0, 0⟩
  cs := 8
  ss := 16
  dataSegment := 16
  tr := 0
  esp := 0x90000
  eip := 0x1000
  eflags := 2

/-- The first instruction fetch of `user_main`, and the first timer interrupt. -/
theorem user_mode_first_event_faults :
    ¬ RunsUnfaulted (fun p _ => p) (enterUserMode samplePlacement bootProcessor) [.access 0x3000]
      ∧ ¬ RunsUnfaulted (fun p _ => p) (enterUserMode samplePlacement bootProcessor) [.timer] := by
  have hno := (enterUserMode_inUserMode samplePlacement bootProcessor).not_allows
  refine ⟨fun hrun => ?_, fun hrun => ?_⟩
  · exact absurd hrun.1 (by rw [hno]; decide)
  · exact absurd hrun.1 (by rw [hno]; decide)

end BlackHole
