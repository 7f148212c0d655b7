import BlackHole.Drivers.Timer

set_option autoImplicit false

/-! # The interval timer

`timer_init` programs channel 0 of an 8254, whose output is IRQ0. The divisor has 16 bits, so that the
timer runs at the rate asked for exactly for the frequencies whose divisor fits (`timerInit_rate_iff`).
With the timer of `kernel_main` the ticks that `sleep` counts become a time (`sleep_lasts`). -/

namespace BlackHole

/-! ## The channel -/

/-- Where a square wave is: its control word has been written, its count too, or it counts the clocks
    that are left of a half. -/
inductive PitPhase where
  | waiting
  | loading
  | counting (high : Bool) (left : ℕ)
  deriving DecidableEq

/-- Channel 0 of the 8254. -/
structure Pit where
  /-- bits 4 and 5 of the control word: one byte of the count is written, or both -/
  access : ℕ
  mode : ℕ
  bcd : Bool
  /-- the low byte of a count whose high byte is to come -/
  low : Option UInt8
  count : ℕ
  phase : PitPhase

namespace Pit

/-- The clocks of a period; a count of 0 stands for 65536. -/
def period (p : Pit) : ℕ := if p.count = 0 then 65536 else p.count

/-- A new count: a counter that runs takes it when it reloads. -/
def load (p : Pit) (count : ℕ) : Pit :=
  { p with
    low := none, count := count
    phase := match p.phase with
      | .waiting => .loading
      | phase => phase }

/-- A control word: for another channel, a latch command, or the mode of this channel. -/
def control (p : Pit) (v : UInt8) : Pit :=
  if v.toNat / 64 ≠ 0 then p
  else if v.toNat / 16 % 4 = 0 then p
  else
    { p with
      access := v.toNat / 16 % 4, mode := v.toNat / 2 % 8, bcd := v.toNat % 2 = 1
      low := none, phase := .waiting }

/-- A byte of the count. -/
def data (p : Pit) (v : UInt8) : Pit :=
  if p.access = 1 then p.load v.toNat
  else if p.access = 2 then p.load (256 * v.toNat)
  else match p.low with
    | none => { p with low := some v }
    | some low => p.load (low.toNat + 256 * v.toNat)

def outb (p : Pit) (port : ℕ) (v : UInt8) : Pit :=
  if port = 0x43 then p.control v else if port = 0x40 then p.data v else p

/-- The writes to ports that a driver makes. -/
def writes (p : Pit) (ws : List (ℕ × UInt8)) : Pit := ws.foldl (fun p w => p.outb w.1 w.2) p

/-- The channel makes a square wave of binary counts; a count of 1 is illegal. -/
def Square (p : Pit) : Prop := p.mode % 4 = 3 ∧ p.bcd = false ∧ p.period ≠ 1

instance (p : Pit) : Decidable p.Square := inferInstanceAs (Decidable (_ ∧ _ ∧ _))

/-- One clock of 1193182 Hz, and whether the output has risen. The first half of an odd period is the
    longer one. -/
def clock (p : Pit) : Bool × Pit :=
  if p.Square then
    match p.phase with
    | .waiting => (false, p)
    | .loading => (false, { p with phase := .counting true ((p.period + 1) / 2) })
    | .counting high left =>
        if 1 < left then (false, { p with phase := .counting high (left - 1) })
        else if high then (false, { p with phase := .counting false (p.period / 2) })
        else (true, { p with phase := .counting true ((p.period + 1) / 2) })
  else (false, p)

def clocks : ℕ → Pit → Pit
  | 0, p => p
  | n + 1, p => clocks n p.clock.2

/-- How often the output rises in so many clocks. -/
def rises : ℕ → Pit → ℕ
  | 0, _ => 0
  | n + 1, p => p.clock.1.toNat + rises n p.clock.2

/-! ## The rate -/

/-- The channel counts a period of `n` clocks, with `left` of them to go. -/
structure Counts (p : Pit) (n left : ℕ) : Prop where
  square : p.Square
  period : p.period = n
  phase : ∃ high k, p.phase = .counting high k ∧ 0 < k ∧ left = (if high then k + n / 2 else k) ∧
    k ≤ (if high then (n + 1) / 2 else n / 2)

variable {p : Pit} {n left : ℕ}

theorem Counts.left_pos (h : Counts p n left) : 0 < left ∧ left ≤ n := by
  obtain ⟨high, k, -, hk, rfl, hle⟩ := h.phase
  cases high <;> simp only [if_true, if_false, Bool.false_eq_true] at hle ⊢ <;> omega

theorem Counts.two_le (h : Counts p n left) : 2 ≤ n := by
  have hne := h.square.2.2
  rw [h.period] at hne
  have := h.left_pos
  omega

/-- One clock takes one of the clocks left; behind the last one the output rises. -/
theorem Counts.clock (h : Counts p n left) :
    p.clock.1 = decide (left = 1) ∧ Counts p.clock.2 n (if left = 1 then n else left - 1) := by
  have htwo := h.two_le
  obtain ⟨high, k, hphase, hk, hleft, hle⟩ := h.phase
  have hstep : ∀ phase, { p with phase := phase }.Square ∧ { p with phase := phase }.period = n :=
    fun phase => ⟨h.square, h.period⟩
  unfold Pit.clock
  rw [if_pos h.square, hphase]
  simp only [h.period]
  by_cases hlast : 1 < k
  · rw [if_pos hlast]
    have hne : left ≠ 1 := by
      cases high <;> simp only [if_true, if_false, Bool.false_eq_true] at hleft <;> omega
    refine ⟨(decide_eq_false hne).symm, (hstep _).1, (hstep _).2, high, k - 1, rfl, by omega, ?_, ?_⟩
    · rw [if_neg hne]
      cases high <;> simp only [if_true, if_false, Bool.false_eq_true] at hleft ⊢ <;> omega
    · omega
  · rw [if_neg hlast]
    obtain rfl : k = 1 := by omega
    cases high with
    | true =>
        simp only [if_true] at hleft ⊢
        have hne : left ≠ 1 := by omega
        refine ⟨(decide_eq_false hne).symm, (hstep _).1, (hstep _).2, false, n / 2, rfl, by omega,
          ?_, ?_⟩
        · rw [if_neg hne]
          simp only [Bool.false_eq_true, if_false]
          omega
        · simp only [Bool.false_eq_true, if_false, le_refl]
    | false =>
        simp only [Bool.false_eq_true, if_false] at hleft ⊢
        subst hleft
        refine ⟨rfl, (hstep _).1, (hstep _).2, true, (n + 1) / 2, rfl, by omega, ?_, ?_⟩
        · simp only [if_true]
          omega
        · simp only [if_true, le_refl]

theorem Counts.clocks (h : Counts p n left) (k : ℕ) : ∃ left', Counts (p.clocks k) n left' := by
  induction k generalizing p left with
  | zero => exact ⟨left, h⟩
  | succ k ih => exact ih h.clock.2

/-- The output rises once in a period. -/
theorem Counts.rises (h : Counts p n left) (k : ℕ) : rises k p = (k + (n - left)) / n := by
  have htwo := h.two_le
  induction k generalizing p left with
  | zero =>
      have := h.left_pos
      rw [Pit.rises, Nat.zero_add, Nat.div_eq_of_lt (by omega)]
  | succ k ih =>
      obtain ⟨hrise, hnext⟩ := h.clock
      have hpos := h.left_pos
      rw [Pit.rises, hrise, ih hnext]
      by_cases hlast : left = 1
      · rw [if_pos hlast, hlast, decide_eq_true rfl, Nat.sub_self, Nat.add_zero,
          show k + 1 + (n - 1) = k + n by omega, Nat.add_div_right _ (by omega)]
        exact Nat.add_comm _ _
      · rw [if_neg hlast, decide_eq_false hlast,
          show k + (n - (left - 1)) = k + 1 + (n - left) by omega]
        exact Nat.zero_add _

/-- A square wave whose count has been written begins with a whole period. -/
theorem rises_loading (hphase : p.phase = .loading) (hsquare : p.Square) (k : ℕ) :
    rises (k + 1) p = k / p.period := by
  have hcounts : Counts { p with phase := .counting true ((p.period + 1) / 2) } p.period p.period := by
    have htwo : 2 ≤ p.period := by
      have hne := hsquare.2.2
      have hpos : p.period ≠ 0 := by
        unfold period
        split <;> omega
      omega
    refine ⟨hsquare, rfl, true, _, rfl, by omega, ?_, ?_⟩
    · simp only [if_true]
      omega
    · simp only [if_true, le_refl]
  have hclock : p.clock = (false, { p with phase := .counting true ((p.period + 1) / 2) }) := by
    unfold Pit.clock
    rw [if_pos hsquare, hphase]
  rw [rises, hclock, hcounts.rises, Nat.sub_self, Nat.add_zero]
  exact Nat.zero_add _

/-- Otherwise the output does not move. -/
theorem rises_of_not_square (hsquare : ¬ p.Square) (k : ℕ) : rises k p = 0 := by
  have hclock : p.clock = (false, p) := if_neg hsquare
  induction k with
  | zero => rfl
  | succ k ih =>
      rw [rises, hclock, ih]
      rfl

/-- The channel as `timer_init` leaves it, whatever it was before. -/
def programmed (divisor : ℕ) : Pit where
  access := 3
  mode := 3
  bcd := false
  low := none
  count := divisor % 65536
  phase := .loading

theorem period_programmed (divisor : ℕ) :
    (programmed divisor).period = if divisor % 65536 = 0 then 65536 else divisor % 65536 := rfl

theorem square_programmed (divisor : ℕ) : (programmed divisor).Square ↔ divisor % 65536 ≠ 1 := by
  have hperiod := period_programmed divisor
  refine ⟨fun h h1 => h.2.2 ?_, fun h => ⟨rfl, rfl, ?_⟩⟩
  · rw [hperiod, h1]
    rfl
  · rw [hperiod]
    split <;> omega

theorem writes_timerInit (p : Pit) (t : Timer) (frequency : ℕ) :
    p.writes (timerInit t frequency).2 = programmed (1193182 / frequency) := by
  show (((p.outb 0x43 0x36).outb 0x40 _).outb 0x40 _) = _
  have hcontrol : p.outb 0x43 0x36
      = { p with access := 3, mode := 3, bcd := false, low := none, phase := .waiting } := rfl
  rw [hcontrol]
  simp only [outb, data, load, programmed, UInt8.toNat_ofNat', Nat.reduceEqDiff, if_false, if_true,
    Pit.mk.injEq, true_and, and_true]
  omega

end Pit

/-- `timer_init` divides the clock of the timer by `1193182 / frequency`, from every state of the
    channel, exactly for these frequencies: below them the divisor has more than 16 bits, above them it
    is 1, which the channel does not count, or 0, which it takes for 65536. -/
theorem timerInit_rate_iff (p : Pit) (t : Timer) {frequency : ℕ} (hf : 0 < frequency) :
    (∀ n, (p.writes (timerInit t frequency).2).rises (n + 1) = n / (1193182 / frequency))
      ↔ 19 ≤ frequency ∧ frequency ≤ 596591 := by
  rw [Pit.writes_timerInit]
  have hlow : frequency ≤ 18 → 66287 ≤ 1193182 / frequency := fun h =>
    (Nat.le_div_iff_mul_le hf).2 (by omega)
  have hhigh : 19 ≤ frequency → 1193182 / frequency ≤ 62799 := fun h =>
    Nat.div_le_div_left h (by decide)
  have htwo : 2 ≤ 1193182 / frequency ↔ 2 * frequency ≤ 1193182 := Nat.le_div_iff_mul_le hf
  generalize 1193182 / frequency = d at *
  have hperiod := Pit.period_programmed d
  constructor
  · intro h
    by_cases hsquare : (Pit.programmed d).Square
    · -- both are periods of the same wave
      have hrate := fun n => (Pit.rises_loading rfl hsquare n).symm.trans (h n)
      set n := (Pit.programmed d).period with hn
      have hpos : 0 < n := by
        rw [hperiod]
        split <;> omega
      have hone : n / d = 1 := by rw [← hrate n, Nat.div_self hpos]
      have hdpos : 0 < d := by
        rcases Nat.eq_zero_or_pos d with h0 | h0
        · rw [h0, Nat.div_zero] at hone
          omega
        · exact h0
      have hone' : d / n = 1 := by rw [hrate d, Nat.div_self hdpos]
      have hle := (Nat.div_pos_iff.1 (hone ▸ Nat.one_pos)).2
      have hle' := (Nat.div_pos_iff.1 (hone' ▸ Nat.one_pos)).2
      have hne := hsquare.2.2
      split at hperiod <;> omega
    · -- a wave that stands still
      have hzero := (Pit.rises_of_not_square hsquare (d + 1)).symm.trans (h d)
      have hstill : d % 65536 = 1 := not_not.1 fun hne => hsquare ((Pit.square_programmed d).2 hne)
      rw [Nat.div_self (show 0 < d by omega)] at hzero
      omega
  · rintro ⟨hge, hle⟩ n
    have hd2 := htwo.2 (by omega)
    have hd16 := hhigh hge
    have hn : (Pit.programmed d).period = d := by
      rw [hperiod, if_neg (by omega), Nat.mod_eq_of_lt (by omega)]
    rw [Pit.rises_loading rfl ((Pit.square_programmed d).2 (by omega)), hn]

/-- A channel between the two bytes of a count. -/
def Pit.halfWritten : Pit := ⟨3, 2, true, some 0x55, 0, .counting false 7⟩

/-- The timer of `kernel_main`. -/
theorem timerInit_rate_kernel :
    (∀ n, (Pit.halfWritten.writes (timerInit {} 100).2).rises (n + 1) = n / (1193182 / 100))
      ↔ 19 ≤ 100 ∧ 100 ≤ 596591 :=
  timerInit_rate_iff Pit.halfWritten {} (by decide)

/-! ## Sleeping -/

/-- The channel and a thread in `sleep`. -/
structure ClockedSleeper where
  pit : Pit
  sleeper : Sleeper

/-- A clock of the timer, another interrupt, or the next statement of `sleep`. -/
inductive ClockEvent where
  | clock
  | irq
  | run
deriving DecidableEq

namespace ClockedSleeper

/-- A rise of the output is a timer interrupt. -/
def step (s : ClockedSleeper) : ClockEvent → ClockedSleeper
  | .clock => ⟨s.pit.clock.2, if s.pit.clock.1 then sleepStep s.sleeper .irq0 else s.sleeper⟩
  | .irq => { s with sleeper := sleepStep s.sleeper .irq }
  | .run => { s with sleeper := sleepStep s.sleeper .run }

def run (s : ClockedSleeper) (events : List ClockEvent) : ClockedSleeper := events.foldl step s

/-- What the thread notices of the events. -/
def noticed (s : ClockedSleeper) : List ClockEvent → List SleepEvent
  | [] => []
  | .clock :: events =>
      (if s.pit.clock.1 then [.irq0] else []) ++ noticed (s.step .clock) events
  | .irq :: events => .irq :: noticed (s.step .irq) events
  | .run :: events => .run :: noticed (s.step .run) events

theorem run_eq (s : ClockedSleeper) (events : List ClockEvent) :
    s.run events
      = ⟨s.pit.clocks (events.count .clock), sleepRun s.sleeper (s.noticed events)⟩ := by
  induction events generalizing s with
  | nil => rfl
  | cons e events ih =>
      show (s.step e).run events = _
      rw [ih]
      cases e with
      | clock =>
          rw [List.count_cons_self, noticed, sleepRun_append, step]
          cases s.pit.clock.1 <;> rfl
      | irq => rfl
      | run => rfl

/-- The thread is interrupted when the output rises. -/
theorem count_noticed (s : ClockedSleeper) (events : List ClockEvent) :
    (s.noticed events).count .irq0 = Pit.rises (events.count .clock) s.pit := by
  induction events generalizing s with
  | nil => rfl
  | cons e events ih =>
      cases e with
      | clock =>
          rw [List.count_cons_self, noticed, List.count_append, ih, Pit.rises]
          cases s.pit.clock.1 <;> rfl
      | irq => exact ih _
      | run => exact ih _

/-! ### Between two clocks -/

/-- While the output does not rise the thread goes from stage to stage with its statements. -/
theorem run_stages {P : ℕ → Sleeper → Prop} (hirq : ∀ i s, P i s → P i (sleepStep s .irq))
    (hrun : ∀ i s, P i s → P (i + 1) (sleepStep s .run)) {r : List ClockEvent} (hr : .clock ∉ r)
    {s : ClockedSleeper} {i : ℕ} (h : P i s.sleeper) :
    P (i + r.count .run) (s.run r).sleeper ∧ (s.run r).pit = s.pit := by
  induction r generalizing s i with
  | nil => exact ⟨h, rfl⟩
  | cons e r ih =>
      have hr' : ClockEvent.clock ∉ r := fun hmem => hr (List.mem_cons_of_mem e hmem)
      cases e with
      | clock => exact absurd (List.mem_cons_self ..) hr
      | irq => exact ih hr' (s := s.step .irq) (hirq i _ h)
      | run =>
          rw [List.count_cons_self, Nat.add_comm (r.count _), ← Nat.add_assoc]
          exact ih hr' (s := s.step .run) (hrun i _ h)

/-- In the loop, and `hlt` may be what comes next. -/
def Waits (t : Timer) (stop : ℕ) (s : Sleeper) : Prop :=
  s.timer = t ∧ (s.point = .test stop ∨ s.point = .hlt stop ∨ s.point = .halted stop)

/-- In the loop but not about to halt, or behind it. -/
def Parked (t : Timer) (stop : ℕ) (s : Sleeper) : Prop :=
  s.timer = t ∧ (s.point = .test stop ∨ s.point = .halted stop ∨ s.point = .returned)

/-- About to test, or behind the loop. -/
def Awake (t : Timer) (stop : ℕ) (s : Sleeper) : Prop :=
  s.timer = t ∧ (s.point = .test stop ∨ s.point = .returned)

variable {t : Timer} {stop : ℕ} {s : Sleeper}

theorem Waits.irq (h : Waits t stop s) : Waits t stop (sleepStep s .irq) := by
  obtain ⟨ht, hp | hp | hp⟩ := h <;> simp [Waits, sleepStep, SleepPoint.wake, hp, ht]

theorem Waits.run (h : Waits t stop s) (hlt : t.tick < stop) : Waits t stop (sleepStep s .run) := by
  obtain ⟨ht, hp | hp | hp⟩ := h <;> simp [Waits, sleepStep, SleepPoint.next, hp, ht, hlt]

theorem Waits.parked (h : Waits t stop s) (hle : stop ≤ t.tick) :
    Parked t stop (sleepStep s .run) := by
  obtain ⟨ht, hp | hp | hp⟩ := h <;>
    simp [Parked, sleepStep, SleepPoint.next, hp, ht, Nat.not_lt.2 hle]

theorem Parked.irq (h : Parked t stop s) : Parked t stop (sleepStep s .irq) := by
  obtain ⟨ht, hp | hp | hp⟩ := h <;> simp [Parked, sleepStep, SleepPoint.wake, hp, ht]

theorem Parked.run (h : Parked t stop s) (hle : stop ≤ t.tick) :
    Parked t stop (sleepStep s .run) := by
  obtain ⟨ht, hp | hp | hp⟩ := h <;>
    simp [Parked, sleepStep, SleepPoint.next, hp, ht, Nat.not_lt.2 hle]

theorem Awake.irq (h : Awake t stop s) : Awake t stop (sleepStep s .irq) := by
  obtain ⟨ht, hp | hp⟩ := h <;> simp [Awake, sleepStep, SleepPoint.wake, hp, ht]

theorem Awake.returns (h : Awake t stop s) (hle : stop ≤ t.tick) :
    (sleepStep s .run).point = .returned := by
  obtain ⟨ht, hp | hp⟩ := h <;> simp [sleepStep, SleepPoint.next, hp, ht, Nat.not_lt.2 hle]

/-! ### Across a clock -/

theorem timerCallback_eq (h : t.tick + 1 < 4294967296) :
    timerCallback t = { t with tick := t.tick + 1 } := by
  unfold timerCallback
  rw [u32_of_lt h]

theorem Waits.irq0 (h : Waits t stop s) (htick : t.tick + 1 < 4294967296) :
    Waits { t with tick := t.tick + 1 } stop (sleepStep s .irq0) := by
  obtain ⟨ht, hp | hp | hp⟩ := h <;>
    simp [Waits, sleepStep, SleepPoint.wake, hp, ht, timerCallback_eq htick]

theorem Parked.irq0 (h : Parked t stop s) (htick : t.tick + 1 < 4294967296) :
    Awake { t with tick := t.tick + 1 } stop (sleepStep s .irq0) := by
  obtain ⟨ht, hp | hp | hp⟩ := h <;>
    simp [Awake, sleepStep, SleepPoint.wake, hp, ht, timerCallback_eq htick]

/-- The thread after `e` timer interrupts, counted from the timer `t` that it has read: it waits for
    the last of them, and is behind the loop when one more has come. -/
def Sleeps (t : Timer) (wait e : ℕ) (s : Sleeper) : Prop :=
  s.point = .returned ∨
    (e < wait ∧ Waits { t with tick := t.tick + e } (t.tick + wait) s) ∨
    (e = wait ∧ Parked { t with tick := t.tick + e } (t.tick + wait) s)

theorem returned_step (h : s.point = .returned) (e : SleepEvent) :
    (sleepStep s e).point = .returned := by
  cases e <;> simp [sleepStep, SleepPoint.wake, SleepPoint.next, h]

variable {wait e : ℕ}

theorem Sleeps.irq (h : Sleeps t wait e s) : Sleeps t wait e (sleepStep s .irq) := by
  rcases h with h | ⟨he, h⟩ | ⟨he, h⟩
  · exact Or.inl (returned_step h _)
  · exact Or.inr (Or.inl ⟨he, h.irq⟩)
  · exact Or.inr (Or.inr ⟨he, h.irq⟩)

theorem Sleeps.run (h : Sleeps t wait e s) : Sleeps t wait e (sleepStep s .run) := by
  rcases h with h | ⟨he, h⟩ | ⟨he, h⟩
  · exact Or.inl (returned_step h _)
  · exact Or.inr (Or.inl ⟨he, h.run (Nat.add_lt_add_left he _)⟩)
  · exact Or.inr (Or.inr ⟨he, h.run (Nat.add_le_add_left he.ge _)⟩)

/-- Between a clock and the next one the thread gets to run, and other interrupts may come. -/
def Prompt (r : List ClockEvent) : Prop := .clock ∉ r ∧ 3 ≤ r.count .run

/-- From a stage at which it has not run yet, to one at which it has. -/
theorem run_prompt {P Q : Sleeper → Prop} (hirq : ∀ s, P s → P (sleepStep s .irq))
    (hrun : ∀ s, P s → Q (sleepStep s .run)) (hirq' : ∀ s, Q s → Q (sleepStep s .irq))
    (hrun' : ∀ s, Q s → Q (sleepStep s .run)) {r : List ClockEvent} (hr : Prompt r)
    {s : ClockedSleeper} (h : P s.sleeper) : Q (s.run r).sleeper := by
  have hstages := (run_stages (P := fun i s => if i = 0 then P s else Q s) (i := 0) (fun i s hs => ?_)
    (fun i s hs => ?_) hr.1 (by rwa [if_pos rfl])).1
  · rwa [if_neg (by have := hr.2; omega)] at hstages
  · split at hs
    · rw [if_pos ‹_›]
      exact hirq s hs
    · rw [if_neg ‹_›]
      exact hirq' s hs
  · rw [if_neg (Nat.succ_ne_zero i)]
    split at hs
    · exact hrun s hs
    · exact hrun' s hs

/-- A clock and what follows until the next one. -/
theorem Sleeps.round {s : ClockedSleeper} (h : Sleeps t wait e s.sleeper)
    (htick : t.tick + wait + 1 < 4294967296) {r : List ClockEvent} (hr : Prompt r) :
    Sleeps t wait (e + s.pit.clock.1.toNat) (s.run (.clock :: r)).sleeper := by
  have hkeep : ∀ {e : ℕ} {s : ClockedSleeper}, Sleeps t wait e s.sleeper →
      Sleeps t wait e (s.run r).sleeper := fun h =>
    run_prompt (fun _ => Sleeps.irq) (fun _ => Sleeps.run) (fun _ => Sleeps.irq)
      (fun _ => Sleeps.run) hr h
  show Sleeps t wait _ ((s.step .clock).run r).sleeper
  rcases hrise : s.pit.clock.1 with _ | _
  · refine hkeep ?_
    rw [step, if_neg (by simp [hrise])]
    exact h
  have hstep : (s.step .clock).sleeper = sleepStep s.sleeper .irq0 := by
    rw [step, if_pos hrise]
  rcases h with h | ⟨he, h⟩ | ⟨rfl, h⟩
  · refine hkeep (Or.inl ?_)
    rw [hstep]
    exact returned_step h _
  · have hwaits := h.irq0 (show t.tick + e + 1 < 4294967296 by omega)
    rcases Nat.lt_or_eq_of_le he with hlt | heq
    · refine hkeep (Or.inr (Or.inl ⟨hlt, ?_⟩))
      rw [hstep]
      exact hwaits
    · -- the last of them: the thread has to see the counter before it halts again
      refine Or.inr (Or.inr ⟨heq, ?_⟩)
      have hle : t.tick + wait ≤ t.tick + e + 1 := by omega
      exact run_prompt (P := Waits { t with tick := t.tick + e + 1 } (t.tick + wait))
        (fun _ => Waits.irq) (fun _ h => h.parked hle) (fun _ => Parked.irq)
        (fun _ h => h.run hle) hr (hstep ▸ hwaits)
  · refine Or.inl ?_
    have hawake := h.irq0 (show t.tick + e + 1 < 4294967296 by omega)
    exact run_prompt (P := Awake { t with tick := t.tick + e + 1 } (t.tick + e))
      (Q := fun s => s.point = .returned) (fun _ => Awake.irq) (fun _ h => h.returns (Nat.le_succ _))
      (fun _ h => returned_step h _) (fun _ h => returned_step h _) hr (hstep ▸ hawake)

/-- What the first three statements of `sleep` do at the timer `t`: they read the counter and enter the
    loop. -/
def Begins (t : Timer) (ms : ℕ) : ℕ → Sleeper → Prop
  | 0, s => s = ⟨t, .call ms⟩
  | 1, s => s = ⟨t, .deadline (ms / 10)⟩
  | 2, s => s = ⟨t, .test (t.tick + ms / 10)⟩
  | _ + 3, s => Sleeps t (ms / 10) 0 s

theorem Begins.irq {ms : ℕ} : ∀ {i : ℕ} {s : Sleeper}, Begins t ms i s →
    Begins t ms i (sleepStep s .irq)
  | 0, _, h | 1, _, h | 2, _, h => h ▸ rfl
  | _ + 3, _, h => Sleeps.irq h

theorem Begins.run {ms : ℕ} (hfreq : t.currentFreq = 100) (htick : t.tick + ms / 10 < 4294967296) :
    ∀ {i : ℕ} {s : Sleeper}, Begins t ms i s → Begins t ms (i + 1) (sleepStep s .run)
  | 0, _, h => by
      rw [h]
      show Sleeper.mk t (.deadline (ms / (1000 / t.currentFreq))) = _
      rw [hfreq]
  | 1, _, h => by
      rw [h]
      show Sleeper.mk t (.test (u32 (t.tick + ms / 10))) = _
      rw [u32_of_lt htick]
  | 2, s, h => by
      have htest : Sleeps t (ms / 10) 0 s := by
        rcases Nat.eq_zero_or_pos (ms / 10) with h0 | hpos
        · refine Or.inr (Or.inr ⟨h0.symm, ?_⟩)
          rw [h]
          exact ⟨rfl, Or.inl rfl⟩
        · refine Or.inr (Or.inl ⟨hpos, ?_⟩)
          rw [h]
          exact ⟨rfl, Or.inl rfl⟩
      exact Sleeps.run htest
  | _ + 3, _, h => Sleeps.run h

/-- The clock in which `sleep` is called. -/
theorem Sleeps.first {p : Pit} {ms : ℕ} (hfreq : t.currentFreq = 100)
    (htick : t.tick + ms / 10 + 1 < 4294967296) {r : List ClockEvent} (hr : Prompt r) :
    Sleeps { t with tick := t.tick + p.clock.1.toNat } (ms / 10) 0
      ((ClockedSleeper.mk p ⟨t, .call ms⟩).run (.clock :: r)).sleeper := by
  set t' : Timer := { t with tick := t.tick + p.clock.1.toNat } with ht'
  have hle : t'.tick ≤ t.tick + 1 := Nat.add_le_add_left (Bool.toNat_le _) _
  have hstart : ((ClockedSleeper.mk p ⟨t, .call ms⟩).step .clock).sleeper = ⟨t', .call ms⟩ := by
    rw [step]
    rcases hrise : p.clock.1 with _ | _
    · rw [ht', hrise]
      rfl
    · rw [ht', hrise, if_pos rfl, sleepStep, timerCallback_eq (show t.tick + 1 < _ by omega)]
      rfl
  have hbegins : ∀ i s, Begins t' ms i s → Begins t' ms (i + 1) (sleepStep s .run) := fun _ _ =>
    Begins.run (t := t') hfreq (by omega)
  have hstages := (run_stages (i := 0) (fun _ _ => Begins.irq) hbegins hr.1 hstart).1
  obtain ⟨n, hn⟩ : ∃ n, r.count .run = n + 3 := ⟨r.count .run - 3, by have := hr.2; omega⟩
  rw [hn, Nat.zero_add] at hstages
  exact hstages

theorem run_append (s : ClockedSleeper) (events events' : List ClockEvent) :
    s.run (events ++ events') = (s.run events).run events' :=
  List.foldl_append

theorem run_pit {r : List ClockEvent} (hr : .clock ∉ r) (s : ClockedSleeper) :
    (s.run (.clock :: r)).pit = s.pit.clock.2 :=
  (run_stages (P := fun _ _ => True) (i := 0) (fun _ _ _ => trivial) (fun _ _ _ => trivial) hr
    (s := s.step .clock) trivial).2

/-- All the clocks with what follows each. -/
theorem Sleeps.rounds {s : ClockedSleeper} (h : Sleeps t wait e s.sleeper)
    (htick : t.tick + wait + 1 < 4294967296) {rounds : List (List ClockEvent)}
    (hrounds : ∀ r ∈ rounds, Prompt r) :
    Sleeps t wait (e + Pit.rises rounds.length s.pit)
      (s.run (rounds.flatMap (.clock :: ·))).sleeper := by
  induction rounds generalizing e s with
  | nil => exact h
  | cons r rounds ih =>
      have hr := hrounds r (List.mem_cons_self ..)
      have hrest := ih (h.round htick hr) fun r' hr' => hrounds r' (List.mem_cons_of_mem r hr')
      rw [run_pit hr.1] at hrest
      rw [List.length_cons, Pit.rises, ← Nat.add_assoc, List.flatMap_cons, run_append]
      exact hrest

end ClockedSleeper

open ClockedSleeper

/-- The channel some time after `timer_init`, with a period of 11931 clocks. -/
theorem Pit.counts_timerInit (p : Pit) (t : Timer) (k : ℕ) :
    ∃ left, Pit.Counts ((p.writes (timerInit t 100).2).clocks (k + 1)) 11931 left := by
  have hfirst : Pit.Counts (p.writes (timerInit t 100).2).clock.2 11931 11931 := by
    rw [Pit.writes_timerInit]
    exact ⟨by decide, by decide, true, 5966, rfl, by decide, rfl, by decide⟩
  exact hfirst.clocks k

/-- A sleep in clocks of the timer. However the 100 Hz timer stands when `sleep` is called, and in every
    order of clocks, interrupts and statements: `sleep` returns after more than one tick less than
    `ms / 10`; and if between any two clocks the thread gets to its next statements, then one tick more
    and a clock are enough. -/
theorem sleep_lasts (p : Pit) (t₀ : Timer) (k tick ms : ℕ) (hms : ms < 4294967296)
    (htick : tick + 2 * (ms / 10) + 3 ≤ 4294967296) :
    let s : ClockedSleeper := ⟨(p.writes (timerInit t₀ 100).2).clocks (k + 1),
      ⟨{ (timerInit t₀ 100).1 with tick := tick }, .call ms⟩⟩
    (∀ events, (s.run events).sleeper.point = .returned →
      ms / 10 * 11931 < events.count .clock + 11931) ∧
    ∀ rounds : List (List ClockEvent), (∀ r ∈ rounds, Prompt r) →
      (ms / 10 + 1) * 11931 < rounds.length →
      (s.run (rounds.flatMap (.clock :: ·))).sleeper.point = .returned := by
  intro s
  obtain ⟨left, hcounts⟩ := Pit.counts_timerInit p t₀ k
  have hpos := hcounts.left_pos
  refine ⟨fun events hreturned => ?_, fun rounds hrounds hlong => ?_⟩
  · rw [run_eq] at hreturned
    have hbefore := (notBefore_of_call_iff (t := s.sleeper.timer) rfl (show tick < _ by omega)
      hms).2 (by show _ ∨ tick + _ ≤ _; omega) _ hreturned
    rw [count_noticed, hcounts.rises, Nat.le_div_iff_mul_le (by decide)] at hbefore
    omega
  · cases rounds with
    | nil => exact absurd hlong (Nat.not_lt_zero _)
    | cons r rounds =>
        have hr := hrounds r (List.mem_cons_self ..)
        have hfirst := Sleeps.first (p := s.pit) (t := s.sleeper.timer) rfl
          (show tick + ms / 10 + 1 < _ by omega) hr
        have hle : s.pit.clock.1.toNat ≤ 1 := Bool.toNat_le _
        have hafter := hfirst.rounds (show tick + s.pit.clock.1.toNat + ms / 10 + 1 < _ by omega)
          fun r' hr' => hrounds r' (List.mem_cons_of_mem r hr')
        rw [run_pit hr.1, hcounts.clock.2.rises, ← run_append] at hafter
        -- one interrupt more than it waits for has come
        have hmore : ms / 10 + 1
            ≤ (rounds.length + (11931 - if left = 1 then 11931 else left - 1)) / 11931 := by
          rw [Nat.le_div_iff_mul_le (by decide)]
          rw [List.length_cons] at hlong
          omega
        rcases hafter with hreturned | ⟨he, -⟩ | ⟨he, -⟩
        · exact hreturned
        · omega
        · omega

/-- A second, an hour after the start. -/
theorem sleep_lasts_second :
    let s : ClockedSleeper := ⟨(Pit.halfWritten.writes (timerInit {} 100).2).clocks (4000 + 1),
      ⟨{ (timerInit {} 100).1 with tick := 360000 }, .call 1000⟩⟩
    (∀ events, (s.run events).sleeper.point = .returned →
      1000 / 10 * 11931 < events.count .clock + 11931) ∧
    ∀ rounds : List (List ClockEvent), (∀ r ∈ rounds, Prompt r) →
      (1000 / 10 + 1) * 11931 < rounds.length →
      (s.run (rounds.flatMap (.clock :: ·))).sleeper.point = .returned :=
  sleep_lasts Pit.halfWritten {} 4000 360000 1000 (by decide) (by decide)

end BlackHole
