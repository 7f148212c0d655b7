import BlackHole.Kernel.Interrupts
import BlackHole.Kernel.UserMode

set_option autoImplicit false

/-! # The interrupt controllers

`pic_remap` programs a pair of 8259A controllers through their ports. Whatever state it finds them in,
the pair then delivers the timer and the keyboard, in this order of priority, at the vectors for which
`idt_init` has installed the stubs, and nothing else (`picRemap_delivers`). -/

namespace BlackHole

/-! ## The controllers -/

/-- What a controller takes the next write to its data port for. -/
inductive Expects where
  | mask
  | icw2
  | icw3
  | icw4
  deriving DecidableEq

/-- An 8259A in fully nested mode with edge-triggered lines. -/
structure Chip where
  expects : Expects
  /-- ICW1 has announced that there is no ICW3 -/
  single : Bool
  /-- ICW1 has announced an ICW4 -/
  needsIcw4 : Bool
  vectors : UInt8
  cascade : UInt8
  mode : UInt8
  imr : UInt8
  requested : ℕ → Bool
  inService : ℕ → Bool

namespace Chip

def masks (c : Chip) (line : ℕ) : Bool := c.imr.toNat.testBit line

/-- At the master: a slave is connected to the line. -/
def cascades (c : Chip) (line : ℕ) : Bool := c.cascade.toNat.testBit line

/-- Bit 1 of ICW4: the end of an interrupt is automatic. -/
def autoEoi (c : Chip) : Bool := c.mode.toNat.testBit 1

/-- The vector of a line, in 8086 mode. -/
def vector (c : Chip) (line : ℕ) : ℕ := (c.vectors &&& 0xF8).toNat + line

/-- The line that is to be served when these are raised: none while one of at least its priority is
    in service. -/
def request (c : Chip) (raised : ℕ → Bool) : Option ℕ :=
  match (List.range 8).find? fun i => c.inService i || (raised i && !c.masks i) with
  | none => none
  | some i => if c.inService i then none else some i

def serve (c : Chip) (line : ℕ) : Chip :=
  { c with
    requested := Function.update c.requested line false
    inService := if c.autoEoi then c.inService else Function.update c.inService line true }

/-- A write to the command port: ICW1 (bit 4 set), or the non-specific end of interrupt. -/
def command (c : Chip) (v : UInt8) : Chip :=
  if v &&& 0x10 ≠ 0 then
    { c with
      expects := .icw2, single := v &&& 0x02 ≠ 0, needsIcw4 := v &&& 0x01 ≠ 0
      mode := 0, imr := 0, requested := fun _ => false, inService := fun _ => false }
  else if v = 0x20 then
    match (List.range 8).find? c.inService with
    | none => c
    | some i => { c with inService := Function.update c.inService i false }
  else c

/-- A write to the data port. -/
def data (c : Chip) (v : UInt8) : Chip :=
  match c.expects with
  | .mask => { c with imr := v }
  | .icw2 =>
      { c with
        vectors := v
        expects := if !c.single then .icw3 else if c.needsIcw4 then .icw4 else .mask }
  | .icw3 => { c with cascade := v, expects := if c.needsIcw4 then .icw4 else .mask }
  | .icw4 => { c with mode := v, expects := .mask }

end Chip

structure Pics where
  master : Chip
  slave : Chip

namespace Pics

def outb (p : Pics) (port : ℕ) (v : UInt8) : Pics :=
  if port = 0x20 then { p with master := p.master.command v }
  else if port = 0x21 then { p with master := p.master.data v }
  else if port = 0xA0 then { p with slave := p.slave.command v }
  else if port = 0xA1 then { p with slave := p.slave.data v }
  else p

/-- A device raises its line, `8` to `15` at the slave. -/
def raise (p : Pics) (line : ℕ) : Pics :=
  if line < 8 then
    { p with master := { p.master with requested := Function.update p.master.requested line true } }
  else
    { p with
      slave := { p.slave with requested := Function.update p.slave.requested (line - 8) true } }

def slaveRequest (p : Pics) : Option ℕ := p.slave.request p.slave.requested

/-- The master's line; those that cascade are raised by the slave. -/
def request (p : Pics) : Option ℕ :=
  p.master.request fun i =>
    if p.master.cascades i then p.slaveRequest.isSome else p.master.requested i

/-- The processor takes an interrupt, if there is one: its vector. -/
def acknowledge (p : Pics) : Option ℕ × Pics :=
  match p.request with
  | none => (none, p)
  | some i =>
      if p.master.cascades i then
        match p.slaveRequest with
        | none => (none, p)
        | some j =>
            (some (p.slave.vector j), { master := p.master.serve i, slave := p.slave.serve j })
      else (some (p.master.vector i), { p with master := p.master.serve i })

end Pics

/-! ## The kernel -/

/-- `pic_remap` -/
def picRemap (p : Pics) : Pics :=
  let p := p.outb 0x20 0x11
  let p := p.outb 0xA0 0x11
  let p := p.outb 0x21 0x20
  let p := p.outb 0xA1 0x28
  let p := p.outb 0x21 0x04
  let p := p.outb 0xA1 0x02
  let p := p.outb 0x21 0x01
  let p := p.outb 0xA1 0x01
  let p := p.outb 0x21 0xFC
  p.outb 0xA1 0xFF

/-- What can happen to the controllers after `pic_remap`. -/
inductive PicEvent where
  | raise (line : ℕ)
  | acknowledge
  /-- `outb(0x20, 0x20)` in `irq0_handler` or `irq1_handler` -/
  | eoi

/-- An event, with the vector of the interrupt that is taken. -/
def Pics.step (p : Pics) : PicEvent → Option ℕ × Pics
  | .raise line => (none, p.raise line)
  | .acknowledge => p.acknowledge
  | .eoi => (none, p.outb 0x20 0x20)

/-! ## Two lines -/

/-- The interrupts the kernel wants: which are pending and which are being handled. -/
structure TwoLines where
  pending : Irq → Bool
  handled : Irq → Bool

/-- `kernel/idt.c` installs the stubs at these vectors. -/
def Irq.vector : Irq → ℕ
  | .timer => 32
  | .keyboard => 33

def Irq.line : Irq → ℕ
  | .timer => 0
  | .keyboard => 1

namespace TwoLines

def idle : TwoLines := ⟨fun _ => false, fun _ => false⟩

/-- The timer goes first, and the keyboard waits while either is handled. -/
def next (s : TwoLines) : Option Irq :=
  if s.handled .timer then none
  else if s.pending .timer then some .timer
  else if s.handled .keyboard then none
  else if s.pending .keyboard then some .keyboard
  else none

def raise (s : TwoLines) (irq : Irq) : TwoLines :=
  { s with pending := Function.update s.pending irq true }

def handle (s : TwoLines) (irq : Irq) : TwoLines where
  pending := Function.update s.pending irq false
  handled := Function.update s.handled irq true

def finish (s : TwoLines) : TwoLines :=
  { s with handled := Function.update s.handled (if s.handled .timer then .timer else .keyboard) false }

def step (s : TwoLines) : PicEvent → Option ℕ × TwoLines
  | .raise line =>
      (none, if line = 0 then s.raise .timer else if line = 1 then s.raise .keyboard else s)
  | .acknowledge =>
      match s.next with
      | none => (none, s)
      | some irq => (some irq.vector, s.handle irq)
  | .eoi => (none, s.finish)

end TwoLines

/-! ## The controllers serve the two lines -/

/-- The controllers as `pic_remap` leaves them, with these interrupts. -/
structure Remapped (p : Pics) (s : TwoLines) : Prop where
  expects : p.master.expects = .mask
  vectors : p.master.vectors = 0x20
  cascade : p.master.cascade = 0x04
  mode : p.master.mode = 0x01
  imr : p.master.imr = 0xFC
  pending : ∀ irq, p.master.requested irq.line = s.pending irq
  handled : ∀ irq, p.master.inService irq.line = s.handled irq
  others : ∀ i, 2 ≤ i → p.master.inService i = false
  slave_imr : p.slave.imr = 0xFF
  slave_handled : ∀ i, p.slave.inService i = false

/-- In whatever state `pic_remap` finds the controllers, also halfway through an initialization. -/
theorem picRemap_remapped (p : Pics) : Remapped (picRemap p) .idle := by
  constructor <;> intros <;> rfl

/-- A search among the lines that only the first two can satisfy. -/
theorem find_line {q : ℕ → Bool} (h : ∀ i, 2 ≤ i → i < 8 → q i = false) :
    (List.range 8).find? q = if q 0 then some 0 else if q 1 then some 1 else none := by
  have hrest : [2, 3, 4, 5, 6, 7].find? q = none := by
    rw [List.find?_eq_none]
    intro i hi hq
    have hfalse := h i (by simp at hi; omega) (by simp at hi; omega)
    rw [hfalse] at hq
    exact Bool.false_ne_true hq
  rw [show List.range 8 = 0 :: 1 :: [2, 3, 4, 5, 6, 7] from rfl, List.find?_cons, List.find?_cons,
    hrest]
  cases q 0 <;> cases q 1 <;> rfl

theorem testBit_cascade : ∀ i < 8, (0x04 : UInt8).toNat.testBit i = decide (i = 2) := by decide

theorem testBit_imr : ∀ i < 8, (0xFC : UInt8).toNat.testBit i = decide (2 ≤ i) := by decide

theorem testBit_slave_imr : ∀ i < 8, (0xFF : UInt8).toNat.testBit i = true := by decide

section

variable {p : Pics} {s : TwoLines}

/-- The slave's lines are masked. -/
theorem Remapped.slaveRequest (h : Remapped p s) : p.slaveRequest = none := by
  have hfind : (List.range 8).find? (fun i =>
      p.slave.inService i || (p.slave.requested i && !p.slave.masks i)) = none := by
    rw [List.find?_eq_none]
    intro i hi
    rw [h.slave_handled, Chip.masks, h.slave_imr, testBit_slave_imr i (List.mem_range.1 hi)]
    simp
  rw [Pics.slaveRequest, Chip.request, hfind]

/-- The lines of the timer and the keyboard are not masked, and no slave is connected to them. -/
theorem Remapped.master (h : Remapped p s) {i : ℕ} (hi : i < 8) :
    p.master.masks i = decide (2 ≤ i) ∧ p.master.cascades i = decide (i = 2) := by
  rw [Chip.masks, Chip.cascades, h.imr, h.cascade]
  exact ⟨testBit_imr i hi, testBit_cascade i hi⟩

/-- The master asks for the interrupt that is to be handled next. -/
theorem Remapped.request (h : Remapped p s) : p.request = s.next.map Irq.line := by
  have ht : p.master.inService 0 = s.handled .timer := h.handled .timer
  have hk : p.master.inService 1 = s.handled .keyboard := h.handled .keyboard
  have ht' : p.master.requested 0 = s.pending .timer := h.pending .timer
  have hk' : p.master.requested 1 = s.pending .keyboard := h.pending .keyboard
  have h0 := h.master (show 0 < 8 by decide)
  have h1 := h.master (show 1 < 8 by decide)
  rw [Pics.request, Chip.request, find_line]
  · simp only [h0, h1, ht, hk, ht', hk', TwoLines.next]
    generalize s.handled .timer = a at ht ⊢
    generalize s.handled .keyboard = b at hk ⊢
    cases a <;> cases s.pending .timer <;> cases b <;> cases s.pending .keyboard <;>
      simp [ht, hk, Irq.line]
  · intro i h2 h8
    rw [h.others i h2, (h.master h8).1, decide_eq_true h2]
    simp

theorem Irq.line_lt (irq : Irq) : irq.line < 2 := by cases irq <;> decide

theorem Irq.line_injective : Function.Injective Irq.line := by
  rintro (_ | _) (_ | _) h
  · rfl
  · exact absurd h (by decide)
  · exact absurd h (by decide)
  · rfl

/-- A line of the master and its interrupt change together. -/
theorem update_line {f : ℕ → Bool} {g : Irq → Bool} (h : ∀ irq, f irq.line = g irq) (irq : Irq)
    (b : Bool) (i : Irq) :
    Function.update f irq.line b i.line = Function.update g irq b i := by
  by_cases hi : i = irq
  · rw [hi, Function.update_self, Function.update_self]
  · rw [Function.update_of_ne hi, Function.update_of_ne (Irq.line_injective.ne hi), h]

/-- The devices of the slave and those of the masked lines are not heard. -/
theorem Remapped.raise (h : Remapped p s) (line : ℕ) :
    Remapped (p.raise line) (s.step (.raise line)).2 := by
  have hirq : ∀ irq : Irq, irq.line = line → Remapped (p.raise line) (s.raise irq) := by
    rintro irq rfl
    rw [Pics.raise, if_pos (by have := irq.line_lt; omega)]
    exact ⟨h.expects, h.vectors, h.cascade, h.mode, h.imr, update_line h.pending irq true, h.handled,
      h.others, h.slave_imr, h.slave_handled⟩
  simp only [TwoLines.step]
  by_cases h0 : line = 0
  · rw [if_pos h0]
    exact hirq .timer h0.symm
  · by_cases h1 : line = 1
    · rw [if_neg h0, if_pos h1]
      exact hirq .keyboard h1.symm
    · rw [if_neg h0, if_neg h1, Pics.raise]
      split
      · refine ⟨h.expects, h.vectors, h.cascade, h.mode, h.imr, fun irq => ?_, h.handled, h.others,
          h.slave_imr, h.slave_handled⟩
        have hlt := irq.line_lt
        exact (Function.update_of_ne (by omega) _ _).trans (h.pending irq)
      · exact ⟨h.expects, h.vectors, h.cascade, h.mode, h.imr, h.pending, h.handled, h.others,
          h.slave_imr, h.slave_handled⟩

theorem Remapped.serve (h : Remapped p s) (irq : Irq) :
    Remapped { p with master := p.master.serve irq.line } (s.handle irq) := by
  have hauto : p.master.autoEoi = false := by
    rw [Chip.autoEoi, h.mode]
    decide
  have hserve : p.master.serve irq.line = { p.master with
      requested := Function.update p.master.requested irq.line false
      inService := Function.update p.master.inService irq.line true } := by
    rw [Chip.serve, hauto]
    rfl
  rw [hserve]
  refine ⟨h.expects, h.vectors, h.cascade, h.mode, h.imr, update_line h.pending irq false,
    update_line h.handled irq true, fun i h2 => ?_, h.slave_imr, h.slave_handled⟩
  have hlt := irq.line_lt
  exact (Function.update_of_ne (by omega) _ _).trans (h.others i h2)

/-- The end of an interrupt is the end of the one with the highest priority. -/
theorem Remapped.eoi (h : Remapped p s) : Remapped (p.outb 0x20 0x20) s.finish := by
  have hend : ∀ irq : Irq, Remapped { p with master := { p.master with
      inService := Function.update p.master.inService irq.line false } }
      { s with handled := Function.update s.handled irq false } := by
    intro irq
    refine ⟨h.expects, h.vectors, h.cascade, h.mode, h.imr, h.pending,
      update_line h.handled irq false, fun i h2 => ?_, h.slave_imr, h.slave_handled⟩
    have hlt := irq.line_lt
    exact (Function.update_of_ne (by omega) _ _).trans (h.others i h2)
  have hcommand : p.outb 0x20 0x20 = { p with master :=
      (match (List.range 8).find? p.master.inService with
      | none => p.master
      | some i => { p.master with inService := Function.update p.master.inService i false }) } := rfl
  have ht : p.master.inService 0 = s.handled .timer := h.handled .timer
  have hk : p.master.inService 1 = s.handled .keyboard := h.handled .keyboard
  rw [hcommand, find_line (fun i h2 _ => h.others i h2), ht, hk, TwoLines.finish]
  rcases htimer : s.handled .timer with _ | _
  · rcases hkeyboard : s.handled .keyboard with _ | _
    · have hsame : Function.update s.handled .keyboard false = s.handled := by
        rw [← hkeyboard, Function.update_eq_self]
      simp only [Bool.false_eq_true, if_false, hsame]
      exact h
    · exact hend .keyboard
  · exact hend .timer

/-- Every event. -/
theorem Remapped.step (h : Remapped p s) (e : PicEvent) :
    (p.step e).1 = (s.step e).1 ∧ Remapped (p.step e).2 (s.step e).2 := by
  cases e with
  | raise line => exact ⟨rfl, h.raise line⟩
  | eoi => exact ⟨rfl, h.eoi⟩
  | acknowledge =>
      simp only [Pics.step, Pics.acknowledge, TwoLines.step, h.request]
      rcases s.next with _ | irq
      · exact ⟨rfl, h⟩
      · have hcascade : p.master.cascades irq.line = false := by
          have hlt := irq.line_lt
          rw [(h.master (by omega)).2]
          exact decide_eq_false (by omega)
        have hvector : p.master.vector irq.line = irq.vector := by
          rw [Chip.vector, h.vectors]
          cases irq <;> rfl
        simp only [Option.map_some, hcascade, hvector]
        exact ⟨rfl, h.serve irq⟩

end

/-! ## The gates -/

/-- The offset that the processor puts together from its two halves. -/
def IdtEntry.offset (e : IdtEntry) : ℕ := e.offsetLow + 65536 * e.offsetHigh

/-- A present interrupt gate of level 0 to a handler in the code segment of the kernel. -/
structure Gate (e : IdtEntry) (handler : ℕ) : Prop where
  offset : e.offset = handler % 4294967296
  selector : e.selector = 0x08
  present : e.typeAttr.testBit 7 = true
  interruptGate : e.typeAttr % 32 = 0x0E
  dpl : X86.dpl e.typeAttr = 0

/-- What `idt_set_gate` takes apart. -/
theorem idtSetGate_offset (handler sel flags : ℕ) :
    (idtSetGate handler sel flags).offset = handler % 4294967296 := by
  have hmask : ∀ n : ℕ, n &&& 0xFFFF = n % 65536 := fun n => Nat.and_two_pow_sub_one_eq_mod n 16
  rw [IdtEntry.offset]
  show (handler &&& 0xFFFF) + 65536 * ((handler / 65536) &&& 0xFFFF) = _
  rw [hmask, hmask]
  omega

def Handlers.stub (h : Handlers) : Irq → ℕ
  | .timer => h.isrIrq0
  | .keyboard => h.isrIrq1

theorem idtInit_gate (h : Handlers) (q : Processor) (irq : Irq) :
    Gate ((idtInit h q).idt irq.vector) (h.stub irq) := by
  have hflags : (0x8E : ℕ).testBit 7 = true ∧ 0x8E % 32 = 0x0E ∧ X86.dpl 0x8E = 0 := by decide
  cases irq
  · exact ⟨idtSetGate_offset h.isrIrq0 _ _, rfl, hflags.1, hflags.2.1, hflags.2.2⟩
  · exact ⟨idtSetGate_offset h.isrIrq1 _ _, rfl, hflags.1, hflags.2.1, hflags.2.2⟩

/-! ## Every run -/

/-- An interrupt that is taken from two lines has one of their vectors. -/
theorem TwoLines.step_vector (s : TwoLines) (e : PicEvent) :
    ∀ v, (s.step e).1 = some v → ∃ irq : Irq, v = irq.vector := by
  intro v hv
  cases e with
  | raise line => exact nomatch hv
  | eoi => exact nomatch hv
  | acknowledge =>
      simp only [TwoLines.step] at hv
      split at hv
      · exact nomatch hv
      next irq _ => exact ⟨irq, (Option.some.inj hv).symm⟩

/-- From whatever state the controllers are in before `pic_remap`, in every order in which devices
    raise lines, the processor takes interrupts and handlers end them: the interrupts taken are those
    of the two lines, and each goes through a gate of `idt_init` to the stub of its line. -/
theorem picRemap_delivers (found : Pics) (h : Handlers) (q : Processor) (events : List PicEvent) :
    (Machine.runTotal Pics.step (picRemap found) events).1
        = (Machine.runTotal TwoLines.step .idle events).1 ∧
      ∀ v, some v ∈ (Machine.runTotal Pics.step (picRemap found) events).1 →
        ∃ irq : Irq, v = irq.vector ∧ Gate ((idtInit h q).idt v) (h.stub irq) := by
  have himpl : Machine.Implements (fun p e => some (Pics.step p e))
      (fun s e => some (TwoLines.step s e)) (fun _ => True) Remapped := by
    rintro p s e o s' hR - hstep
    obtain ⟨hanswer, hR'⟩ := hR.step e
    rw [Option.some.injEq] at hstep
    rw [hstep] at hanswer hR'
    exact ⟨_, congrArg some (Prod.ext hanswer rfl), hR'⟩
  obtain ⟨p, hrun, -⟩ := himpl.run (picRemap_remapped found) (fun _ _ => trivial)
    (Machine.run_total TwoLines.step .idle events)
  rw [Machine.run_total, Option.some.injEq] at hrun
  have hanswers := congrArg Prod.fst hrun
  refine ⟨hanswers, fun v hv => ?_⟩
  rw [hanswers] at hv
  obtain ⟨irq, rfl⟩ :=
    Machine.forall_mem_runTotal (A := fun o => ∀ v, o = some v → ∃ irq : Irq, v = irq.vector)
      TwoLines.step_vector TwoLines.idle events _ hv v rfl
  exact ⟨irq, rfl, idtInit_gate h q irq⟩

end BlackHole
