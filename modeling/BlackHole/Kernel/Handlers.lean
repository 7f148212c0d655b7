import BlackHole.Drivers.Keyboard
import BlackHole.Drivers.Pit
import BlackHole.Kernel.Pic
import BlackHole.Kernel.Task

set_option autoImplicit false

/-! # The interrupt handlers

`kernel/isr.c`: the interrupt of the timer counts a tick and calls the scheduler, that of the keyboard
takes a scancode, and both are ended at the master controller. As long as there is nothing to switch to,
every interrupt is handled to its end, in every order in which the timer counts, keys are pressed and
interrupts are taken (`Irqs.run_follows`). -/

namespace BlackHole

/-! ## The handlers -/

/-- The devices that interrupt, and the statics of their drivers. -/
structure Irqs where
  pics : Pics
  pit : Pit
  timer : Timer
  keyboard : Keyboard
  /-- what `inb(0x60)` reads -/
  scancode : UInt8

/-- `irq0_handler`, with the registers that `task_switch` reads; `none` when it switches to another
    task. -/
def irq0Handler (s : Sys) (eip magic : UInt32) (d : Irqs) : Option Irqs :=
  let d := { d with timer := timerCallback d.timer }
  match (taskSwitch s eip magic).2 with
  | none => some { d with pics := d.pics.outb 0x20 0x20 }
  | some _ => none

/-- `irq1_handler` -/
def irq1Handler (d : Irqs) : Irqs :=
  let d := { d with keyboard := keyboardHandleScancode d.keyboard d.scancode }
  { d with pics := d.pics.outb 0x20 0x20 }

inductive IrqEvent where
  /-- a clock of the timer -/
  | clock
  | key (scancode : UInt8)
  /-- another device raises its line -/
  | raise (line : ℕ)
  /-- the processor takes an interrupt if there is one, with these registers in `task_switch` -/
  | interrupt (eip magic : UInt32)

/-- One event while interrupts are enabled. Without a gate for its vector an interrupt is not
    handled. -/
def Irqs.step (s : Sys) (d : Irqs) : IrqEvent → Option Irqs
  | .clock =>
      let (rises, pit) := d.pit.clock
      some { d with pit := pit, pics := if rises then d.pics.raise Irq.timer.line else d.pics }
  | .key scancode => some { d with scancode := scancode, pics := d.pics.raise Irq.keyboard.line }
  | .raise line => some { d with pics := d.pics.raise line }
  | .interrupt eip magic =>
      match d.pics.acknowledge with
      | (none, pics) => some { d with pics := pics }
      | (some v, pics) =>
          if v = Irq.timer.vector then irq0Handler s eip magic { d with pics := pics }
          else if v = Irq.keyboard.vector then some (irq1Handler { d with pics := pics })
          else none

def Irqs.run (s : Sys) (events : List IrqEvent) (d : Irqs) : Option Irqs :=
  events.foldlM (Irqs.step s) d

/-- Writes to the timer, each with the events behind it. -/
def Irqs.writes (s : Sys) (events : ℕ → List IrqEvent) : List (ℕ × UInt8) → Irqs → Option Irqs
  | [], d => some d
  | w :: ws, d =>
      (Irqs.run s (events 0) { d with pit := d.pit.outb w.1 w.2 }).bind
        (Irqs.writes s (fun i => events (i + 1)) ws)

/-! ## Every event -/

/-- The controllers are as `pic_remap` leaves them, and no interrupt is being handled. -/
def Pics.Served (p : Pics) : Prop := ∃ s, Remapped p s ∧ ∀ irq, s.handled irq = false

/-- There is no task, or only one. -/
def Sys.Alone (s : Sys) : Prop := s.currentTask = 0 ∨ taskNext s.cpu.mem s.currentTask = s.currentTask

/-- What events make of the devices: the timer has counted, and the keyboard driver has had
    scancodes. -/
structure Irqs.Follows (d d' : Irqs) : Prop where
  served : d'.pics.Served
  pit : ∃ n, d'.pit = d.pit.clocks n
  frequency : d'.timer.currentFreq = d.timer.currentFreq
  keyboard : ∃ codes : List UInt8, d'.keyboard = codes.foldl keyboardHandleScancode d.keyboard

theorem Pit.clocks_add (p : Pit) (m n : ℕ) : p.clocks (m + n) = (p.clocks m).clocks n := by
  induction m generalizing p with
  | zero => rw [Nat.zero_add, Pit.clocks]
  | succ m ih => rw [Nat.succ_add, Pit.clocks, Pit.clocks, ih]

theorem Irqs.Follows.refl {d : Irqs} (h : d.pics.Served) : d.Follows d := ⟨h, ⟨0, rfl⟩, rfl, ⟨[], rfl⟩⟩

theorem Irqs.Follows.trans {d₁ d₂ d₃ : Irqs} (h₁ : d₁.Follows d₂) (h₂ : d₂.Follows d₃) :
    d₁.Follows d₃ := by
  obtain ⟨m, hm⟩ := h₁.pit
  obtain ⟨n, hn⟩ := h₂.pit
  obtain ⟨codes, hcodes⟩ := h₁.keyboard
  obtain ⟨codes', hcodes'⟩ := h₂.keyboard
  refine ⟨h₂.served, ⟨m + n, ?_⟩, h₂.frequency.trans h₁.frequency, codes ++ codes', ?_⟩
  · rw [hn, hm, Pit.clocks_add]
  · rw [hcodes', hcodes, List.foldl_append]

theorem Pics.Served.raise {p : Pics} (h : p.Served) (line : ℕ) : (p.raise line).Served := by
  obtain ⟨s, hs, hnone⟩ := h
  refine ⟨_, hs.raise line, fun irq => ?_⟩
  simp only [TwoLines.step]
  split
  · exact hnone irq
  · split <;> exact hnone irq

theorem Pics.Served.raise_if {p : Pics} (h : p.Served) (rises : Bool) (line : ℕ) :
    (if rises then p.raise line else p).Served := by
  cases rises with
  | false => exact h
  | true => exact h.raise line

/-- An interrupt is one of the two, and the handler that ends it leaves none behind. -/
theorem Pics.Served.acknowledge {p : Pics} (h : p.Served) :
    (p.acknowledge.1 = none ∧ p.acknowledge.2.Served) ∨
      ∃ irq : Irq, p.acknowledge.1 = some irq.vector ∧ (p.acknowledge.2.outb 0x20 0x20).Served := by
  obtain ⟨s, hs, hnone⟩ := h
  obtain ⟨hvector, hnext⟩ := hs.step .acknowledge
  simp only [Pics.step, TwoLines.step] at hvector hnext
  rcases hs' : s.next with _ | irq
  · rw [hs'] at hvector hnext
    exact Or.inl ⟨hvector, s, hnext, hnone⟩
  · rw [hs'] at hvector hnext
    refine Or.inr ⟨irq, hvector, _, hnext.eoi, fun irq' => ?_⟩
    cases irq <;> cases irq' <;> simp [TwoLines.finish, TwoLines.handle, hnone]

theorem taskSwitch_alone {s : Sys} (h : s.Alone) (eip magic : UInt32) :
    (taskSwitch s eip magic).2 = none := by
  have hnothing : taskSwitch s eip magic = (s, none) := if_pos h
  rw [hnothing]

theorem Irqs.step_follows {s : Sys} (hs : s.Alone) {d : Irqs} (hd : d.pics.Served) (e : IrqEvent) :
    ∃ d', d.step s e = some d' ∧ d.Follows d' := by
  cases e with
  | clock => exact ⟨_, rfl, hd.raise_if _ _, ⟨1, rfl⟩, rfl, [], rfl⟩
  | key scancode => exact ⟨_, rfl, hd.raise Irq.keyboard.line, ⟨0, rfl⟩, rfl, [], rfl⟩
  | raise line => exact ⟨_, rfl, hd.raise line, ⟨0, rfl⟩, rfl, [], rfl⟩
  | interrupt eip magic =>
      rcases hd.acknowledge with ⟨hnone, hserved⟩ | ⟨irq, hvector, hserved⟩
      · refine ⟨{ d with pics := d.pics.acknowledge.2 }, ?_, hserved, ⟨0, rfl⟩, rfl, [], rfl⟩
        rw [step, show d.pics.acknowledge = (none, d.pics.acknowledge.2) from Prod.ext hnone rfl]
      · rw [step, show d.pics.acknowledge = (some irq.vector, d.pics.acknowledge.2)
          from Prod.ext hvector rfl]
        cases irq with
        | timer =>
            simp only [if_true, irq0Handler, taskSwitch_alone hs]
            exact ⟨_, rfl, hserved, ⟨0, rfl⟩, rfl, [], rfl⟩
        | keyboard => exact ⟨_, rfl, hserved, ⟨0, rfl⟩, rfl, [d.scancode], rfl⟩

/-- Every interrupt is handled to its end, whatever happens in between. -/
theorem Irqs.run_follows {s : Sys} (hs : s.Alone) {d : Irqs} (hd : d.pics.Served)
    (events : List IrqEvent) : ∃ d', d.run s events = some d' ∧ d.Follows d' := by
  induction events generalizing d with
  | nil => exact ⟨d, rfl, .refl hd⟩
  | cons e events ih =>
      obtain ⟨d₁, hstep, h₁⟩ := step_follows hs hd e
      obtain ⟨d₂, hrun, h₂⟩ := ih h₁.served
      refine ⟨d₂, ?_, h₁.trans h₂⟩
      rw [run, List.foldlM_cons, hstep]
      exact hrun

/-! ## The timer -/

/-- Without a count the timer waits. -/
theorem Pit.clocks_waiting {p : Pit} (h : p.phase = .waiting) (n : ℕ) : p.clocks n = p := by
  have hclock : p.clock.2 = p := by
    unfold Pit.clock
    rw [h]
    split <;> rfl
  induction n with
  | zero => rfl
  | succ n ih => rw [Pit.clocks, hclock, ih]

/-- Clocks and interrupts between the writes of `timer_init` do not matter. -/
theorem Irqs.writes_timerInit {s : Sys} (hs : s.Alone) {d : Irqs} (hd : d.pics.Served) (t : Timer)
    (frequency : ℕ) (events : ℕ → List IrqEvent) :
    ∃ d', d.writes s events (timerInit t frequency).2 = some d' ∧
      { d with pit := Pit.programmed (1193182 / frequency) }.Follows d' := by
  obtain ⟨lo, hi, hsent⟩ : ∃ lo hi, (timerInit t frequency).2 = [(0x43, 0x36), (0x40, lo), (0x40, hi)] :=
    ⟨_, _, rfl⟩
  have hprogrammed : ((d.pit.outb 0x43 0x36).outb 0x40 lo).outb 0x40 hi
      = Pit.programmed (1193182 / frequency) := by
    rw [← Pit.writes_timerInit d.pit t, hsent]
    rfl
  obtain ⟨d₁, hrun₁, h₁⟩ := run_follows hs
    (d := { d with pit := d.pit.outb 0x43 0x36 }) hd (events 0)
  obtain ⟨n₁, hpit₁⟩ := h₁.pit
  rw [Pit.clocks_waiting rfl] at hpit₁
  obtain ⟨d₂, hrun₂, h₂⟩ := run_follows hs
    (d := { d₁ with pit := d₁.pit.outb 0x40 lo }) h₁.served (events 1)
  obtain ⟨n₂, hpit₂⟩ := h₂.pit
  rw [hpit₁, Pit.clocks_waiting rfl] at hpit₂
  obtain ⟨d₃, hrun₃, h₃⟩ := run_follows hs
    (d := { d₂ with pit := d₂.pit.outb 0x40 hi }) h₂.served (events 2)
  refine ⟨d₃, ?_, ?_⟩
  · rw [hsent, writes, hrun₁, Option.bind_some, writes, hrun₂, Option.bind_some, writes, hrun₃,
      Option.bind_some, writes]
  · obtain ⟨codes₁, hcodes₁⟩ := h₁.keyboard
    obtain ⟨codes₂, hcodes₂⟩ := h₂.keyboard
    obtain ⟨codes₃, hcodes₃⟩ := h₃.keyboard
    obtain ⟨n₃, hpit₃⟩ := h₃.pit
    refine ⟨h₃.served, ⟨n₃, ?_⟩, h₃.frequency.trans (h₂.frequency.trans h₁.frequency),
      codes₁ ++ codes₂ ++ codes₃, ?_⟩
    · rw [hpit₃, hpit₂, ← hprogrammed]
    · rw [hcodes₃, hcodes₂, hcodes₁, List.foldl_append, List.foldl_append]

/-- The timer of 100 Hz, some time after it has been programmed: its output rises once in 11931
    clocks. -/
theorem Pit.rises_programmed (n : ℕ) : ∃ left, 0 < left ∧ left ≤ 11932 ∧
    ∀ k, ((programmed 11931).clocks n).rises k = (k + 11931 - left) / 11931 := by
  cases n with
  | zero =>
      refine ⟨11932, by decide, le_rfl, fun k => ?_⟩
      cases k with
      | zero => rfl
      | succ k =>
          rw [Pit.clocks, Pit.rises_loading rfl ((Pit.square_programmed _).2 (by decide)),
            show (programmed 11931).period = 11931 from rfl]
          omega
  | succ n =>
      have hfirst : Pit.Counts (programmed 11931).clock.2 11931 11931 :=
        ⟨by decide, by decide, true, 5966, rfl, by decide, rfl, by decide⟩
      obtain ⟨left, hcounts⟩ := hfirst.clocks n
      obtain ⟨hpos, hle⟩ := hcounts.left_pos
      refine ⟨left, hpos, by omega, fun k => ?_⟩
      rw [Pit.clocks, hcounts.rises]
      omega

end BlackHole
