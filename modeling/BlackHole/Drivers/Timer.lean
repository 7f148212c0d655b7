import Mathlib.Data.List.Basic
import Mathlib.Data.Set.Basic
import BlackHole.CTypes

set_option autoImplicit false

/-! # The timer

`drivers/timer.c`: the tick counter and `sleep`. A thread in `sleep` is at a statement of it, and an
interrupt may come before each of them. The timer interrupt also gives the processor to other threads,
so that any number of interrupts may pass before the next statement.

The end of the wait is a sum that wraps and is compared with a counter that wraps, so `sleep` does not
wait at all when the sum passes `2 ^ 32` (`sleep_notBefore_iff`). -/

namespace BlackHole

/-- The statics of `timer.c`. -/
structure Timer where
  tick : ℕ := 0
  currentFreq : ℕ := 100

/-- `timer_init`: the statics, and the bytes written to the ports of the PIT. -/
def timerInit (t : Timer) (frequency : ℕ) : Timer × List (ℕ × UInt8) :=
  let divisor := 1193182 / frequency
  ({ t with currentFreq := frequency },
    [(0x43, 0x36), (0x40, UInt8.ofNat (divisor % 256)), (0x40, UInt8.ofNat (divisor / 256 % 256))])

/-- `timer_callback`, up to its call of `task_switch`. -/
def timerCallback (t : Timer) : Timer := { t with tick := u32 (t.tick + 1) }

/-- The statement of `sleep` that comes next. `halted` is inside `hlt`. -/
inductive SleepPoint where
  | call (ms : ℕ)
  | deadline (ticksToWait : ℕ)
  | test (stop : ℕ)
  | hlt (stop : ℕ)
  | halted (stop : ℕ)
  | returned
deriving DecidableEq

structure Sleeper where
  timer : Timer
  point : SleepPoint

/-- A timer interrupt, another interrupt, or the next statement of `sleep`. -/
inductive SleepEvent where
  | irq0
  | irq
  | run
deriving DecidableEq

/-- An interrupt ends a `hlt`. -/
def SleepPoint.wake : SleepPoint → SleepPoint
  | .halted stop => .test stop
  | point => point

/-- The next statement of `sleep`. -/
def SleepPoint.next (t : Timer) : SleepPoint → SleepPoint
  | .call ms => .deadline (ms / (1000 / t.currentFreq))
  | .deadline ticksToWait => .test (u32 (t.tick + ticksToWait))
  | .test stop => if t.tick < stop then .hlt stop else .returned
  | .hlt stop => .halted stop
  | .halted stop => .halted stop
  | .returned => .returned

def sleepStep (s : Sleeper) : SleepEvent → Sleeper
  | .irq0 => ⟨timerCallback s.timer, s.point.wake⟩
  | .irq => { s with point := s.point.wake }
  | .run => { s with point := s.point.next s.timer }

def sleepRun (s : Sleeper) (events : List SleepEvent) : Sleeper := events.foldl sleepStep s

/-- From here `sleep` does not return before `n` timer interrupts, whatever their order. -/
def NotBefore (s : Sleeper) (n : ℕ) : Prop :=
  ∀ events, (sleepRun s events).point = .returned → n ≤ events.count .irq0

/-! ## What holds along a run -/

/-- After `n` timer interrupts: `tick` has been read after a number of them that is in `reads`, and if
    `sleep` has returned, then some later value of the counter had reached the sum. -/
def Progress (start wait : ℕ) (reads : Set ℕ) (n : ℕ) : SleepPoint → Prop
  | .call ms => ms / 10 = wait ∧ ∀ k, k ∈ reads
  | .deadline ticksToWait => ticksToWait = wait ∧ ∀ k, k ∈ reads
  | .test stop | .hlt stop | .halted stop => ∃ k ∈ reads, k ≤ n ∧ stop = u32 (start + k + wait)
  | .returned => ∃ k ∈ reads, ∃ m, k ≤ m ∧ m ≤ n ∧ u32 (start + k + wait) ≤ u32 (start + m)

structure SleepInv (start wait : ℕ) (reads : Set ℕ) (n : ℕ) (s : Sleeper) : Prop where
  freq : s.timer.currentFreq = 100
  tick : s.timer.tick = u32 (start + n)
  progress : Progress start wait reads n s.point

variable {start wait n : ℕ} {reads : Set ℕ} {s : Sleeper}

theorem Progress.mono {point : SleepPoint} {n' : ℕ} (hn : n ≤ n')
    (h : Progress start wait reads n point) : Progress start wait reads n' point := by
  cases point with
  | call ms => exact h
  | deadline ticksToWait => exact h
  | test stop | hlt stop | halted stop =>
      obtain ⟨k, hk, hle, hstop⟩ := h
      exact ⟨k, hk, hle.trans hn, hstop⟩
  | returned =>
      obtain ⟨k, hk, m, hkm, hle, hreach⟩ := h
      exact ⟨k, hk, m, hkm, hle.trans hn, hreach⟩

theorem Progress.wake {point : SleepPoint} (h : Progress start wait reads n point) :
    Progress start wait reads n point.wake := by
  cases point <;> exact h

theorem Progress.next {point : SleepPoint} {t : Timer} (hfreq : t.currentFreq = 100)
    (htick : t.tick = u32 (start + n)) (h : Progress start wait reads n point) :
    Progress start wait reads n (point.next t) := by
  cases point with
  | call ms =>
      rw [SleepPoint.next, hfreq]
      exact h
  | deadline ticksToWait =>
      obtain ⟨rfl, hreads⟩ := h
      refine ⟨n, hreads n, le_rfl, ?_⟩
      rw [htick, u32, u32, u32, Nat.mod_add_mod]
  | test stop =>
      obtain ⟨k, hk, hle, hstop⟩ := h
      rw [SleepPoint.next]
      split
      · exact ⟨k, hk, hle, hstop⟩
      · next hreached =>
          -- the loop ends: the counter has reached the sum
          refine ⟨k, hk, n, hle, le_rfl, ?_⟩
          rw [← hstop, ← htick]
          exact Nat.le_of_not_lt hreached
  | hlt stop | halted stop => exact h
  | returned => exact h

/-- One event. -/
theorem SleepInv.step (h : SleepInv start wait reads n s) (e : SleepEvent) :
    SleepInv start wait reads (n + [e].count .irq0) (sleepStep s e) := by
  cases e with
  | irq0 =>
      refine ⟨h.freq, ?_, (h.progress.wake).mono (Nat.le_add_right ..)⟩
      show u32 (s.timer.tick + 1) = u32 (start + (n + 1))
      rw [h.tick, u32, u32, u32, Nat.mod_add_mod, Nat.add_assoc]
  | irq => exact ⟨h.freq, h.tick, h.progress.wake⟩
  | run => exact ⟨h.freq, h.tick, h.progress.next h.freq h.tick⟩

theorem SleepInv.run (h : SleepInv start wait reads n s) (events : List SleepEvent) :
    SleepInv start wait reads (n + events.count .irq0) (sleepRun s events) := by
  induction events generalizing n s with
  | nil => exact h
  | cons e events ih =>
      have hrest := ih (h.step e)
      rw [Nat.add_assoc, ← List.count_append] at hrest
      exact hrest

theorem sleepRun_append (s : Sleeper) (events events' : List SleepEvent) :
    sleepRun s (events ++ events') = sleepRun (sleepRun s events) events' :=
  List.foldl_append

/-- A thread that has not reached `tick + ticks_to_wait` stays where it is, whatever interrupts come. -/
theorem sleepRun_interrupts (t : Timer) (ticksToWait k : ℕ) (htick : t.tick < 4294967296) :
    sleepRun ⟨t, .deadline ticksToWait⟩ (List.replicate k .irq0)
      = ⟨{ t with tick := u32 (t.tick + k) }, .deadline ticksToWait⟩ := by
  induction k with
  | zero => rw [Nat.add_zero, u32_of_lt htick]; rfl
  | succ k ih =>
      rw [List.replicate_succ', sleepRun_append, ih]
      show Sleeper.mk (timerCallback { t with tick := u32 (t.tick + k) }) _ = _
      unfold timerCallback
      rw [u32, u32, u32, Nat.mod_add_mod, Nat.add_assoc]
      rfl

/-- A sum that wraps has been reached already. -/
theorem sleepRun_wrapped (t : Timer) {ticksToWait : ℕ} (hwait : ticksToWait < 4294967296)
    (htick : t.tick < 4294967296) (hwrap : 4294967296 ≤ t.tick + ticksToWait) :
    (sleepRun ⟨t, .deadline ticksToWait⟩ [.run, .run]).point = .returned := by
  show (if t.tick < u32 (t.tick + ticksToWait) then SleepPoint.hlt _ else .returned) = _
  rw [if_neg]
  unfold u32
  omega

/-! ## When `sleep` waits long enough -/

theorem notBefore_of_inv {p : Sleeper} {reads : Set ℕ} (h : SleepInv start wait reads 0 p)
    (hreads : ∀ k ∈ reads, ∀ m, k ≤ m → u32 (start + k + wait) ≤ u32 (start + m) → wait ≤ m) :
    NotBefore p wait := by
  intro events hreturned
  have hrun := (h.run events).progress
  rw [hreturned, Nat.zero_add] at hrun
  obtain ⟨k, hk, m, hkm, hle, hreach⟩ := hrun
  exact le_trans (hreads k hk m hkm hreach) hle

/-- Counted from the read of `tick`: the wait is long enough exactly if the sum does not wrap. -/
theorem notBefore_of_read_iff {t : Timer} (hfreq : t.currentFreq = 100)
    (htick : t.tick < 4294967296) (hwait : wait < 4294967296) :
    NotBefore ⟨t, .test (u32 (t.tick + wait))⟩ wait
      ↔ wait = 0 ∨ t.tick + wait < 4294967296 := by
  constructor
  · intro h
    by_contra hno
    rw [not_or, Nat.not_lt] at hno
    have hzero := h [.run] (by
      show (if t.tick < u32 (t.tick + wait) then SleepPoint.hlt _ else .returned) = _
      rw [if_neg]
      unfold u32
      omega)
    exact hno.1 (Nat.le_zero.1 hzero)
  · intro h
    have hinv : SleepInv t.tick wait {0} 0 ⟨t, .test (u32 (t.tick + wait))⟩ :=
      ⟨hfreq, (u32_of_lt htick).symm, 0, rfl, le_rfl, rfl⟩
    refine notBefore_of_inv hinv ?_
    rintro k rfl m - hreach
    unfold u32 at hreach
    omega

/-- Counted from the call: interrupts may come before `tick` is read, and the sum must not wrap after any
    number of them that is below the number waited for. -/
theorem notBefore_of_call_iff {t : Timer} (hfreq : t.currentFreq = 100)
    (htick : t.tick < 4294967296) {ms : ℕ} (hms : ms < 4294967296) :
    NotBefore ⟨t, .call ms⟩ (ms / 10) ↔ ms / 10 = 0 ∨ t.tick + 2 * (ms / 10) ≤ 4294967296 := by
  constructor
  · intro h
    by_contra hno
    rw [not_or, Nat.not_le] at hno
    -- as few interrupts before the read as make the sum wrap
    set k := 4294967296 - (t.tick + ms / 10) with hk
    have hrun : (sleepRun ⟨t, .call ms⟩ (.run :: (List.replicate k .irq0 ++ [.run, .run]))).point
        = .returned := by
      show (sleepRun ⟨t, .deadline (ms / (1000 / t.currentFreq))⟩ _).point = _
      rw [hfreq, sleepRun_append, sleepRun_interrupts t _ k htick]
      refine sleepRun_wrapped _ (by omega) (u32_lt _) ?_
      show 4294967296 ≤ u32 (t.tick + k) + ms / 10
      rw [u32_of_lt (by omega)]
      omega
    have hcount : (SleepEvent.run :: (List.replicate k .irq0 ++ [.run, .run])).count .irq0 = k := by
      rw [List.count_cons_of_ne (by decide), List.count_append, List.count_replicate_self]
      rfl
    have hle := h _ hrun
    omega
  · intro h
    have hinv : SleepInv t.tick (ms / 10) Set.univ 0 ⟨t, .call ms⟩ :=
      ⟨hfreq, (u32_of_lt htick).symm, rfl, fun _ => trivial⟩
    refine notBefore_of_inv hinv ?_
    rintro k - m hkm hreach
    unfold u32 at hreach
    omega

/-- With the timer at 100 Hz, for every value of the counter and every `ms`: whatever the order of the
    interrupts, `sleep` lasts for `ms / 10` timer interrupts after its call exactly if the sum cannot wrap
    while they come, and for as many after it has read `tick` exactly if the sum does not wrap. -/
theorem sleep_notBefore_iff (t₀ : Timer) (htick : t₀.tick < 4294967296) {ms : ℕ}
    (hms : ms < 4294967296) :
    let t := (timerInit t₀ 100).1
    (NotBefore ⟨t, .call ms⟩ (ms / 10) ↔ ms / 10 = 0 ∨ t.tick + 2 * (ms / 10) ≤ 4294967296) ∧
    (NotBefore ⟨t, .test (u32 (t.tick + ms / 10))⟩ (ms / 10) ↔
      ms / 10 = 0 ∨ t.tick + ms / 10 < 4294967296) := by
  intro t
  exact ⟨notBefore_of_call_iff (t := t) rfl htick hms,
    notBefore_of_read_iff (t := t) rfl htick (by omega)⟩

/-- The timer in its first hour, and a second to wait. -/
theorem sleep_notBefore_second :
    let t := (timerInit ⟨359999, 0⟩ 100).1
    (NotBefore ⟨t, .call 1000⟩ (1000 / 10) ↔
      1000 / 10 = 0 ∨ t.tick + 2 * (1000 / 10) ≤ 4294967296) ∧
    (NotBefore ⟨t, .test (u32 (t.tick + 1000 / 10))⟩ (1000 / 10) ↔
      1000 / 10 = 0 ∨ t.tick + 1000 / 10 < 4294967296) :=
  sleep_notBefore_iff ⟨359999, 0⟩ (by decide) (by decide)

/-- With the counter at its last value `sleep` returns at once. -/
theorem sleep_returns_at_once :
    let t := (timerInit ⟨4294967295, 0⟩ 100).1
    (sleepRun ⟨t, .call 1000⟩ [.run, .run, .run]).point = .returned ∧
      ¬ NotBefore ⟨t, .call 1000⟩ (1000 / 10) := by
  intro t
  have hreturned : (sleepRun ⟨t, .call 1000⟩ [.run, .run, .run]).point = .returned := by decide
  exact ⟨hreturned, fun h => absurd (h _ hreturned) (by decide)⟩

end BlackHole
