import BlackHole.Drivers.Keyboard
import BlackHole.Lib.Circular
import Mathlib.Data.List.Infix

set_option autoImplicit false

/-! # The keyboard buffer as a queue

One reader takes characters with `buf_empty` and `buf_pop` while the interrupt handler puts them in.
The handler runs to completion; it may come between any two statements of the reader. A `Session` is
the driver together with the statement the reader stands at and with the histories of both sides, and
`Session.Inv` says that the buffer holds exactly what was accepted and not yet released. -/

namespace BlackHole

open Circular

/-! ## Sessions -/

/-- The statement of `buf_pop` the reader executes next. -/
inductive ReaderPoint where
  /-- in no call -/
  | outside
  /-- `if (buf_tail == buf_head) return 0;` -/
  | popTest
  /-- `char c = key_buffer[buf_tail];` -/
  | popLoad
  /-- `buf_tail = (buf_tail + 1) % KEY_BUF_SIZE;` -/
  | popAdvance (c : UInt8)
  /-- `return c;` -/
  | popReturn (c : UInt8)
  deriving DecidableEq, Repr

/-- What a call gives the reader. -/
inductive Answer where
  /-- `buf_empty` says whether the buffer is empty -/
  | empty (answer : Bool)
  /-- `buf_pop` returns a value; 0 stands for no character -/
  | pop (value : UInt8)
  deriving DecidableEq, Repr

/-- The driver, the reader, and three histories that only the statements below record: the characters
    `buf_push` stored, those whose cell the reader has released by moving `buf_tail`, and all that
    the calls of the reader have returned. -/
structure Session where
  kbd : Keyboard
  point : ReaderPoint
  accepted : List UInt8
  released : List UInt8
  answers : List Answer

/-- The character in an answer, if it has one. -/
def Answer.character : Answer → Option UInt8
  | .empty _ => none
  | .pop c => if c = 0 then none else some c

/-- The characters that `buf_pop` has returned to the reader. -/
def Session.obtained (s : Session) : List UInt8 := s.answers.filterMap Answer.character

/-- What happens next. -/
inductive KeyEvent where
  /-- a keyboard interrupt with this scancode -/
  | interrupt (scancode : UInt8)
  /-- the reader, in no call, calls `buf_empty`, whose one statement compares the two indices -/
  | callEmpty
  /-- the reader, in no call, calls `buf_pop` -/
  | callPop
  /-- the reader executes the next statement of the call it is in -/
  | statement
  deriving DecidableEq, Repr

/-- The reader's next statement. -/
def Session.advance (s : Session) : Session :=
  match s.point with
  | .outside => s
  | .popTest =>
      if s.kbd.bufTail = s.kbd.bufHead then
        { s with point := .outside, answers := s.answers ++ [.pop 0] }
      else { s with point := .popLoad }
  | .popLoad => { s with point := .popAdvance (s.kbd.keyBuffer s.kbd.bufTail) }
  | .popAdvance c =>
      { s with kbd := { s.kbd with bufTail := (s.kbd.bufTail + 1) % keyBufSize },
               point := .popReturn c, released := s.released ++ [c] }
  | .popReturn c => { s with point := .outside, answers := s.answers ++ [.pop c] }

/-- The characters that an interrupt gets into the buffer: at most one. -/
def stores (k : Keyboard) (scancode : UInt8) : List UInt8 :=
  match typed k scancode with
  | none => []
  | some c => if bufAccepts k then [c] else []

def Session.step (s : Session) : KeyEvent → Session
  | .interrupt scancode =>
      { s with kbd := keyboardHandleScancode s.kbd scancode,
               accepted := s.accepted ++ stores s.kbd scancode }
  | .callEmpty =>
      if s.point = .outside then { s with answers := s.answers ++ [.empty (bufEmpty s.kbd)] } else s
  | .callPop => if s.point = .outside then { s with point := .popTest } else s
  | .statement => s.advance

def Session.run (s : Session) (events : List KeyEvent) : Session := events.foldl Session.step s

/-- After `keyboard_init`, the reader in no call. -/
def Session.start (k : Keyboard) : Session :=
  { kbd := keyboardInit k, point := .outside, accepted := [], released := [], answers := [] }

/-- The characters in the buffer, oldest first. -/
def Keyboard.queue (k : Keyboard) : List UInt8 :=
  contents keyBufSize k.keyBuffer k.bufHead k.bufTail

/-- The statements of a `buf_pop` that nothing interrupts do what `bufPop` says. -/
theorem run_callPop (s : Session) (h : s.point = .outside) :
    (s.run [.callPop, .statement, .statement, .statement, .statement]).kbd = (bufPop s.kbd).2
      ∧ (s.run [.callPop, .statement, .statement, .statement, .statement]).answers
        = s.answers ++ [.pop (bufPop s.kbd).1] := by
  by_cases hempty : s.kbd.bufTail = s.kbd.bufHead
  · simp [Session.run, Session.step, Session.advance, bufPop, bufEmpty, h, hempty]
  · simp [Session.run, Session.step, Session.advance, bufPop, bufEmpty, h, hempty]

@[simp] theorem obtained_snoc (kbd : Keyboard) (point : ReaderPoint) (accepted released : List UInt8)
    (answers : List Answer) (a : Answer) :
    (Session.mk kbd point accepted released (answers ++ [a])).obtained
      = (Session.mk kbd point accepted released answers).obtained ++ a.character.toList := by
  cases h : a.character <;> simp [Session.obtained, h]

/-! ## The invariant -/

/-- What the reader knows at each statement, given the characters in the buffer. -/
def ReaderKnows (queue released obtained : List UInt8) : ReaderPoint → Prop
  | .outside => released = obtained
  | .popTest => released = obtained
  | .popLoad => released = obtained ∧ queue ≠ []
  | .popAdvance c => released = obtained ∧ ∃ rest, queue = c :: rest
  | .popReturn c => released = obtained ++ [c]

structure Session.Inv (s : Session) (queue : List UInt8) : Prop where
  holds : Holds keyBufSize s.kbd.keyBuffer s.kbd.bufHead s.kbd.bufTail queue
  balance : s.accepted = s.released ++ queue
  nonzero : ∀ c ∈ s.accepted, c ≠ 0
  reader : ReaderKnows queue s.released s.obtained s.point

theorem Session.Inv.start (k : Keyboard) : (Session.start k).Inv [] where
  holds := Holds.empty (show 0 < keyBufSize by decide)
  balance := rfl
  nonzero := by simp [Session.start]
  reader := rfl

/-- What the reader knows stays true when a character is appended behind its back. -/
theorem ReaderKnows.append {queue released obtained : List UInt8} {point : ReaderPoint}
    (h : ReaderKnows queue released obtained point) (c : UInt8) :
    ReaderKnows (queue ++ [c]) released obtained point := by
  cases point with
  | outside => exact h
  | popTest => exact h
  | popLoad => exact ⟨h.1, by simp⟩
  | popAdvance d =>
      obtain ⟨heq, rest, hrest⟩ := h
      exact ⟨heq, rest ++ [c], by rw [hrest, List.cons_append]⟩
  | popReturn d => exact h

theorem bufAccepts_iff {k : Keyboard} {queue : List UInt8}
    (h : Holds keyBufSize k.keyBuffer k.bufHead k.bufTail queue) :
    bufAccepts k = true ↔ queue.length + 1 ≠ keyBufSize := by
  unfold bufAccepts
  rw [decide_eq_true_iff, Ne, h.isFull_iff]

/-- An interrupt appends what it stores to the queue. -/
theorem Session.Inv.interrupt {s : Session} {queue : List UInt8} (h : s.Inv queue)
    (scancode : UInt8) :
    (s.step (.interrupt scancode)).Inv (queue ++ stores s.kbd scancode) := by
  rcases keyboardHandleScancode_cases s.kbd scancode with ⟨c, htyped, hrun⟩ | ⟨htyped, shift, hrun⟩
  · by_cases hroom : bufAccepts s.kbd = true
    · have hstores : stores s.kbd scancode = [c] := by simp [stores, htyped, hroom]
      have hpush : bufPush s.kbd c
          = { s.kbd with keyBuffer := Function.update s.kbd.keyBuffer s.kbd.bufHead c,
                         bufHead := (s.kbd.bufHead + 1) % keyBufSize } := if_pos hroom
      have hlen := h.holds.room
      have hne := (bufAccepts_iff h.holds).1 hroom
      simp only [Session.step, hrun, hstores, hpush]
      refine ⟨h.holds.push (by omega) c, ?_, ?_, h.reader.append c⟩
      · show s.accepted ++ [c] = s.released ++ (queue ++ [c])
        rw [h.balance, List.append_assoc]
      · intro d hd
        rcases List.mem_append.1 hd with hd | hd
        · exact h.nonzero d hd
        · rw [List.mem_singleton.1 hd]
          exact typed_ne_zero htyped
    · have hstores : stores s.kbd scancode = [] := by simp [stores, htyped, hroom]
      have hpush : bufPush s.kbd c = s.kbd := if_neg hroom
      simp only [Session.step, hrun, hstores, hpush, List.append_nil]
      exact h
  · have hstores : stores s.kbd scancode = [] := by simp [stores, htyped]
    simp only [Session.step, hrun, hstores, List.append_nil]
    exact ⟨h.holds, h.balance, h.nonzero, h.reader⟩

/-- What `buf_pop` returns behind its test is the character that was released last. -/
theorem Session.Inv.returns {s : Session} {queue : List UInt8} (h : s.Inv queue) {c : UInt8}
    (hp : s.point = .popReturn c) : c ≠ 0 ∧ s.released = s.obtained ++ [c] := by
  have hreader := h.reader
  rw [hp] at hreader
  have hmem : c ∈ s.accepted := by
    rw [h.balance, hreader]
    simp
  exact ⟨h.nonzero c hmem, hreader⟩

/-- A statement of the reader releases at most the oldest character, which it has loaded. -/
theorem Session.Inv.advance {s : Session} {queue : List UInt8} (h : s.Inv queue) :
    ∃ queue', s.advance.Inv queue' := by
  obtain ⟨kbd, point, accepted, released, answers⟩ := s
  obtain ⟨hholds, hbalance, hnonzero, hreader⟩ := h
  cases point with
  | outside => exact ⟨queue, hholds, hbalance, hnonzero, hreader⟩
  | popTest =>
      by_cases hempty : kbd.bufTail = kbd.bufHead
      · refine ⟨queue, ?_⟩
        simp only [Session.advance, if_pos hempty]
        refine ⟨hholds, hbalance, hnonzero, ?_⟩
        show released = _
        rw [obtained_snoc]
        exact hreader.trans (List.append_nil _).symm
      · refine ⟨queue, ?_⟩
        simp only [Session.advance, if_neg hempty]
        exact ⟨hholds, hbalance, hnonzero, hreader, fun hnil => hempty (hholds.isEmpty_iff.2 hnil)⟩
  | popLoad =>
      obtain ⟨heq, hne⟩ := hreader
      obtain ⟨c, rest, rfl⟩ := List.exists_cons_of_ne_nil hne
      exact ⟨c :: rest, hholds, hbalance, hnonzero, heq, rest, by rw [hholds.front]⟩
  | popAdvance c =>
      obtain ⟨heq, rest, rfl⟩ := hreader
      refine ⟨rest, hholds.pop, ?_, hnonzero, ?_⟩
      · calc accepted = released ++ c :: rest := hbalance
          _ = released ++ [c] ++ rest := by rw [List.append_assoc, List.singleton_append]
      · exact congrArg (· ++ [c]) heq
  | popReturn c =>
      have hc : c ≠ 0 := (Session.Inv.returns ⟨hholds, hbalance, hnonzero, hreader⟩ rfl).1
      have hchar : (Answer.pop c).character = some c := if_neg hc
      refine ⟨queue, hholds, hbalance, hnonzero, ?_⟩
      show released = Session.obtained ⟨kbd, .outside, accepted, released, answers ++ [.pop c]⟩
      rw [obtained_snoc, hchar]
      exact hreader

theorem Session.Inv.step {s : Session} {queue : List UInt8} (h : s.Inv queue) (e : KeyEvent) :
    ∃ queue', (s.step e).Inv queue' := by
  cases e with
  | interrupt scancode => exact ⟨_, h.interrupt scancode⟩
  | callEmpty =>
      refine ⟨queue, ?_⟩
      by_cases hout : s.point = .outside
      · simp only [Session.step, if_pos hout]
        refine ⟨h.holds, h.balance, h.nonzero, ?_⟩
        rw [obtained_snoc]
        exact (List.append_nil s.obtained).symm ▸ h.reader
      · simp only [Session.step, if_neg hout]
        exact h
  | callPop =>
      refine ⟨queue, ?_⟩
      by_cases hout : s.point = .outside
      · have hreader := h.reader
        rw [hout] at hreader
        simp only [Session.step, if_pos hout]
        exact ⟨h.holds, h.balance, h.nonzero, hreader⟩
      · simp only [Session.step, if_neg hout]
        exact h
  | statement => exact h.advance

theorem Session.Inv.run {s : Session} {queue : List UInt8} (h : s.Inv queue)
    (events : List KeyEvent) : ∃ queue', (s.run events).Inv queue' := by
  induction events generalizing s queue with
  | nil => exact ⟨queue, h⟩
  | cons e events ih =>
      obtain ⟨queue', h'⟩ := h.step e
      exact ih h'

/-! ## First in, first out -/

theorem Session.Inv.queue_eq {s : Session} {queue : List UInt8} (h : s.Inv queue) :
    s.kbd.queue = queue :=
  h.holds.contents_eq

/-- What the reader has obtained is what it has released, but for the character it is about to
    return. -/
theorem Session.Inv.obtained_prefix {s : Session} {queue : List UInt8} (h : s.Inv queue) :
    s.obtained <+: s.released := by
  have hreader := h.reader
  cases hp : s.point with
  | outside => rw [hp] at hreader; exact hreader ▸ List.prefix_refl _
  | popTest => rw [hp] at hreader; exact hreader ▸ List.prefix_refl _
  | popLoad => rw [hp] at hreader; exact hreader.1 ▸ List.prefix_refl _
  | popAdvance c => rw [hp] at hreader; exact hreader.1 ▸ List.prefix_refl _
  | popReturn c =>
      rw [hp] at hreader
      exact ⟨[c], hreader.symm⟩

/-- `buf_pop` returns 0 only from its first statement, and there exactly if the buffer is empty. -/
theorem Session.Inv.answers_zero_iff {s : Session} {queue : List UInt8} (h : s.Inv queue)
    (e : KeyEvent) :
    (s.step e).answers = s.answers ++ [.pop 0]
      ↔ e = .statement ∧ s.point = .popTest ∧ queue = [] := by
  have hnone : s.answers ≠ s.answers ++ [.pop 0] := by simp
  cases e with
  | interrupt scancode => exact iff_of_false hnone (by simp)
  | callEmpty =>
      refine iff_of_false ?_ (by simp)
      by_cases hout : s.point = .outside <;> simp [Session.step, hout]
  | callPop =>
      refine iff_of_false ?_ (by simp)
      by_cases hout : s.point = .outside <;> simp [Session.step, hout]
  | statement =>
      cases hp : s.point with
      | outside => simp [Session.step, Session.advance, hp]
      | popTest =>
          rw [← h.holds.isEmpty_iff]
          by_cases hempty : s.kbd.bufTail = s.kbd.bufHead <;>
            simp [Session.step, Session.advance, hp, hempty]
      | popLoad => simp [Session.step, Session.advance, hp]
      | popAdvance c => simp [Session.step, Session.advance, hp]
      | popReturn c => simp [Session.step, Session.advance, hp, (h.returns hp).1]

/-- `buf_empty` answers whether the buffer is empty. -/
theorem Session.Inv.answers_empty {s : Session} {queue : List UInt8} (h : s.Inv queue)
    (hout : s.point = .outside) :
    (s.step .callEmpty).answers = s.answers ++ [.empty (decide (queue = []))] := by
  have hempty : bufEmpty s.kbd = decide (queue = []) := by
    rw [bufEmpty, decide_eq_decide]
    exact h.holds.isEmpty_iff
  rw [Session.step, if_pos hout, hempty]

/-- In every interleaving of interrupts with the statements of the reader: what the reader obtained
    is a prefix of what was accepted and the rest is in the buffer, `buf_pop` returns 0 exactly when
    its test finds the buffer empty and otherwise the oldest character, `buf_empty` says whether the
    buffer is empty, and a typed character is dropped only when 255 accepted ones are unreleased. -/
theorem keyboard_fifo (k : Keyboard) (events : List KeyEvent) :
    let s := (Session.start k).run events
    s.obtained <+: s.accepted
      ∧ s.accepted = s.released ++ s.kbd.queue
      ∧ (∀ e, (s.step e).answers = s.answers ++ [.pop 0]
          ↔ e = .statement ∧ s.point = .popTest ∧ s.kbd.queue = [])
      ∧ (∀ c, s.point = .popReturn c → c ≠ 0 ∧ s.released = s.obtained ++ [c])
      ∧ (s.point = .outside →
          (s.step .callEmpty).answers = s.answers ++ [.empty (decide (s.kbd.queue = []))]
            ∧ (s.run [.callPop, .statement, .statement, .statement, .statement]).answers
              = s.answers ++ [.pop (bufPop s.kbd).1]
            ∧ (s.run [.callPop, .statement, .statement, .statement, .statement]).kbd
              = (bufPop s.kbd).2
            ∧ (s.kbd.queue = [] → s.obtained = s.accepted))
      ∧ (∀ scancode c, typed s.kbd scancode = some c →
          stores s.kbd scancode = [c] ∨ s.accepted.length = s.released.length + 255) := by
  obtain ⟨queue, h⟩ := (Session.Inv.start k).run events
  generalize (Session.start k).run events = s at h ⊢
  obtain rfl : s.kbd.queue = queue := h.queue_eq
  refine ⟨h.obtained_prefix.trans ⟨_, h.balance.symm⟩, h.balance, h.answers_zero_iff,
    fun c hc => h.returns hc, ?_, ?_⟩
  · intro hout
    obtain ⟨hkbd, hanswer⟩ := run_callPop s hout
    refine ⟨h.answers_empty hout, hanswer, hkbd, fun hnil => ?_⟩
    have hreader := h.reader
    rw [hout] at hreader
    rw [h.balance, hnil, List.append_nil]
    exact hreader.symm
  · intro scancode c htyped
    by_cases hroom : bufAccepts s.kbd = true
    · left
      simp [stores, htyped, hroom]
    · right
      have hfull : s.kbd.queue.length + 1 = keyBufSize := by
        by_contra hne
        exact hroom ((bufAccepts_iff h.holds).2 hne)
      rw [h.balance, List.length_append]
      unfold keyBufSize at hfull
      omega

/-- The letters a and b are typed, b inside the call that obtains a; a third call returns 0, from its
    test. The 256th letter that nobody takes is dropped. -/
theorem keyboard_fifo_letters :
    (let s := (Session.start ⟨fun _ => 0, 0, 0, false⟩).run
      [.interrupt 0x1E, .callPop, .statement, .interrupt 0x30, .statement, .statement, .statement,
        .callPop, .statement, .statement, .statement, .statement, .callPop]
    s.answers = [.pop 97, .pop 98] ∧ s.obtained <+: s.accepted
      ∧ (s.step .statement).answers = [.pop 97, .pop 98, .pop 0] ∧ s.kbd.queue = [])
    ∧ (let s := (Session.start ⟨fun _ => 0, 0, 0, false⟩).run (List.replicate 255 (.interrupt 0x1E))
      typed s.kbd 0x1E = some 97 ∧ stores s.kbd 0x1E = []
        ∧ s.accepted.length = s.released.length + 255) := by
  have htwo := keyboard_fifo ⟨fun _ => 0, 0, 0, false⟩
    [.interrupt 0x1E, .callPop, .statement, .interrupt 0x30, .statement, .statement, .statement,
      .callPop, .statement, .statement, .statement, .statement, .callPop]
  have hfull := keyboard_fifo ⟨fun _ => 0, 0, 0, false⟩ (List.replicate 255 (.interrupt 0x1E))
  have htyped : typed ((Session.start ⟨fun _ => 0, 0, 0, false⟩).run
      (List.replicate 255 (.interrupt 0x1E))).kbd 0x1E = some 97 := by decide +kernel
  have hdropped : stores ((Session.start ⟨fun _ => 0, 0, 0, false⟩).run
      (List.replicate 255 (.interrupt 0x1E))).kbd 0x1E = [] := by decide +kernel
  refine ⟨⟨by decide +kernel, htwo.1, by decide +kernel, ?_⟩, htyped, hdropped, ?_⟩
  · exact ((htwo.2.2.1 .statement).1 (by decide +kernel)).2.2
  · rcases hfull.2.2.2.2.2 0x1E 97 htyped with hstored | hlength
    · rw [hdropped] at hstored
      cases hstored
    · exact hlength

end BlackHole
