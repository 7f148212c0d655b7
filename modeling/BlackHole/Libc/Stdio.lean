import BlackHole.Lib.Loop
import BlackHole.Libc.Numerals
import BlackHole.Libc.Strings

set_option autoImplicit false

/-! # Output to the screen

What a command sends to the screen, as the calls it makes, and the interpreter of `printf` in
`libc/stdio.c`, which expands such a call. `printf` is not told how many arguments it was given: it
takes words off the stack as its conversions ask for them. -/

namespace BlackHole

/-! ## Calls -/

/-- A variable argument of `printf`: a string (`none` is the null pointer) or a 32-bit word. -/
inductive PrintfArg where
  | str (s : Option (List UInt8))
  | word (n : ℕ)
deriving DecidableEq

/-- A call of `printf`, `vga_set_color` or `vga_clear`. -/
inductive Output where
  | printf (format : String) (args : List PrintfArg)
  | setColor (fg bg : UInt8)
  | clear
deriving DecidableEq

def Output.args : Output → List PrintfArg
  | .printf _ args => args
  | .setColor _ _ => []
  | .clear => []

/-! ## Conversions -/

/-- The characters `vga_print` passes to `vga_putchar`. -/
def printed (str : List UInt8) : List UInt8 := str.takeWhile (· ≠ 0)

/-- What a conversion sends, what it adds to `chars_written` and how many arguments it takes. -/
structure Converted where
  text : List UInt8
  written : ℕ
  taken : ℕ

/-- The `switch` of `printf` on the character behind the percent sign; `arg` is the next word on the
    stack, and `strings` the strings in memory. -/
def conversion (strings : ℕ → List UInt8) (c : UInt8) (arg : ℕ) : Converted :=
  -- 's'
  if c = 0x73 then
    let str := if arg = 0 then cstr "(null)" else strings arg
    ⟨printed str, strlen str, 1⟩
  -- 'c'
  else if c = 0x63 then ⟨[UInt8.ofNat arg], 1, 1⟩
  -- 'd', 'i'
  else if c = 0x64 ∨ c = 0x69 then
    let buf := itoa (toInt arg) 10
    ⟨printed buf, strlen buf, 1⟩
  -- 'u'
  else if c = 0x75 then
    let buf := uitoa arg 10
    ⟨printed buf, strlen buf, 1⟩
  -- 'x', 'X'
  else if c = 0x78 ∨ c = 0x58 then
    let buf := uitoa arg 16
    ⟨cstr "0x" ++ printed buf, 2 + strlen buf, 1⟩
  else if c = 0x25 then ⟨[0x25], 1, 0⟩
  -- an unknown one is printed as it stands
  else ⟨[0x25, c], 2, 0⟩

theorem conversion_written (strings : ℕ → List UInt8) (c : UInt8) (arg : ℕ) :
    (conversion strings c arg).written = (conversion strings c arg).text.length := by
  unfold conversion
  split_ifs
  · rfl
  · rfl
  · rfl
  · rfl
  · rfl
  · simp only [List.length_append]
    rfl
  · rfl
  · rfl

/-! ## `printf` -/

/-- What `printf` finds behind `format`: the words on the stack, and the string at each address. -/
structure VaList where
  words : ℕ → ℕ
  strings : ℕ → List UInt8

/-- The local variables of `printf`, with the number of arguments taken and what has been sent to
    `vga_putchar`, and a history that the source does not have: the indices of `format` read. -/
structure Printf where
  i : ℕ
  arg : ℕ
  sent : List UInt8
  charsWritten : ℕ
  reads : List ℕ

/-- One pass of the loop of `printf`. -/
def printfStep (format : ℕ → UInt8) (va : VaList) (st : Printf) : Printf ⊕ Printf :=
  if format st.i = 0 then .inl { st with reads := st.reads ++ [st.i] }
  else if format st.i = 0x25 then
    let r := conversion va.strings (format (st.i + 1)) (va.words st.arg)
    .inr
      { i := st.i + 1 + 1
        arg := st.arg + r.taken
        sent := st.sent ++ r.text
        charsWritten := st.charsWritten + r.written
        reads := st.reads ++ [st.i, st.i + 1] }
  else
    .inr
      { i := st.i + 1
        arg := st.arg
        sent := st.sent ++ [format st.i]
        charsWritten := st.charsWritten + 1
        reads := st.reads ++ [st.i] }

/-- `printf`: the value it returns, and its state at that point. -/
def printf (fuel : ℕ) (format : ℕ → UInt8) (va : VaList) : Option (ℤ × Printf) :=
  (Loop.iterate (printfStep format va) fuel ⟨0, 0, [], 0, []⟩).map fun st =>
    (toInt (u32 st.charsWritten), st)

/-- A string as a pointer to its characters, with the NUL behind them. -/
def charPtr (s : List UInt8) (i : ℕ) : UInt8 := s.getD i 0

/-- What a call sends to the screen, given what lies behind its format. -/
def Output.sent (fuel : ℕ) (va : VaList) : Output → Option (List UInt8)
  | .printf format _ => (BlackHole.printf fuel (charPtr (cstr format)) va).map fun r => r.2.sent
  | .setColor _ _ => some []
  | .clear => some []

/-- The arguments of a call lie in order on the stack, strings at some address other than `NULL`. -/
structure VaList.Holds (va : VaList) (args : List PrintfArg) : Prop where
  words_lt : ∀ j, va.words j < 4294967296
  word : ∀ j n, args[j]? = some (.word n) → va.words j = n
  null : ∀ j, args[j]? = some (.str none) → va.words j = 0
  str : ∀ j s, args[j]? = some (.str (some s)) → va.words j ≠ 0 ∧ va.strings (va.words j) = s

/-! ## What a format expands to -/

/-- From index `i` of the format and argument `arg` on, the loop sends `text` in at most `n` passes
    that go on, and is left. -/
def Prints (format : ℕ → UInt8) (va : VaList) (i arg : ℕ) (text : List UInt8) (n : ℕ) : Prop :=
  ∀ st : Printf, st.i = i → st.arg = arg →
    ∃ r, (∀ fuel, n < fuel → Loop.iterate (printfStep format va) fuel st = some r) ∧
      r.sent = st.sent ++ text ∧ r.charsWritten = st.charsWritten + text.length

section

variable {format : ℕ → UInt8} {va : VaList} {i arg n : ℕ} {text : List UInt8}

/-- The NUL ends the loop. -/
theorem prints_nil (h : format i = 0) : Prints format va i arg [] 0 := by
  rintro st rfl rfl
  exact ⟨_, Loop.iterate_exit_of_lt 0 (if_pos h), by simp, by simp⟩

/-- A character that is no percent sign is sent as it stands. -/
theorem prints_cons {c : UInt8} (h : format i = c) (hc : c ≠ 0 ∧ c ≠ 0x25)
    (hrest : Prints format va (i + 1) arg text n) : Prints format va i arg (c :: text) (n + 1) := by
  rintro st rfl rfl
  subst h
  have hstep : printfStep format va st = .inr ⟨st.i + 1, st.arg, st.sent ++ [format st.i],
      st.charsWritten + 1, st.reads ++ [st.i]⟩ := by
    rw [printfStep, if_neg hc.1, if_neg hc.2]
  obtain ⟨r, hrun, hsent, hwritten⟩ := hrest ⟨st.i + 1, st.arg, st.sent ++ [format st.i],
    st.charsWritten + 1, st.reads ++ [st.i]⟩ rfl rfl
  refine ⟨r, Loop.iterate_again_of_lt hstep hrun, ?_, ?_⟩
  · simpa using hsent
  · simp only [List.length_cons] at hwritten ⊢
    omega

/-- A percent sign and the character behind it send what the conversion says. -/
theorem prints_conversion (h : format i = 0x25) {c : UInt8} (hc : format (i + 1) = c)
    {r : Converted} (hr : conversion va.strings c (va.words arg) = r)
    (hrest : Prints format va (i + 2) (arg + r.taken) text n) :
    Prints format va i arg (r.text ++ text) (n + 1) := by
  rintro st rfl rfl
  subst hr hc
  generalize hr : conversion va.strings (format (st.i + 1)) (va.words st.arg) = r at hrest ⊢
  have hlen : r.written = r.text.length := hr ▸ conversion_written _ _ _
  have hstep : printfStep format va st = .inr ⟨st.i + 2, st.arg + r.taken, st.sent ++ r.text,
      st.charsWritten + r.written, st.reads ++ [st.i, st.i + 1]⟩ := by
    rw [printfStep, if_neg (by rw [h]; decide), if_pos h, hr]
  obtain ⟨t, hrun, hsent, hwritten⟩ := hrest ⟨st.i + 2, st.arg + r.taken, st.sent ++ r.text,
    st.charsWritten + r.written, st.reads ++ [st.i, st.i + 1]⟩ rfl rfl
  refine ⟨t, Loop.iterate_again_of_lt hstep hrun, ?_, ?_⟩
  · simpa using hsent
  · simp only [List.length_append] at hwritten ⊢
    omega

end

/-- The characters of `l` stand in the format from index `i` on. -/
def Spells (format : ℕ → UInt8) (i : ℕ) (l : List UInt8) : Prop :=
  ∀ j (hj : j < l.length), format (i + j) = l[j]

instance (format : ℕ → UInt8) (i : ℕ) (l : List UInt8) : Decidable (Spells format i l) :=
  inferInstanceAs (Decidable (∀ j (hj : j < l.length), format (i + j) = l[j]))

/-- So are several of them. -/
theorem prints_append {format : ℕ → UInt8} {va : VaList} {arg n : ℕ} {text : List UInt8}
    {l : List UInt8} (hl : 0 ∉ l ∧ 0x25 ∉ l) {i : ℕ} (h : Spells format i l)
    (hrest : Prints format va (i + l.length) arg text n) :
    Prints format va i arg (l ++ text) (n + l.length) := by
  induction l generalizing i with
  | nil => exact hrest
  | cons c l ih =>
      have htail : Spells format (i + 1) l := fun j hj => by
        have hc := h (j + 1) (Nat.succ_lt_succ hj)
        rwa [show i + (j + 1) = i + 1 + j by omega] at hc
      simp only [List.mem_cons, not_or] at hl
      refine prints_cons (h 0 (Nat.zero_lt_succ _)) ⟨Ne.symm hl.1.1, Ne.symm hl.2.1⟩
        (ih ⟨hl.1.2, hl.2.2⟩ htail ?_)
      rwa [show i + 1 + l.length = i + (c :: l).length by simp only [List.length_cons]; omega]

theorem printed_uitoa {arg : ℕ} (harg : arg < 4294967296) :
    printed (uitoa arg 10) = numeral 10 arg := by
  rw [uitoa_eq harg, printed, List.takeWhile_append_of_pos]
  · simp
  · intro c hc
    have hlow := (mem_numeral_ten hc).1
    simp only [decide_eq_true_eq]
    rintro rfl
    exact absurd hlow (by decide)

/-- What `%u` sends is the decimal numeral of the next word. -/
theorem conversion_unsigned (strings : ℕ → List UInt8) {arg : ℕ} (harg : arg < 4294967296) :
    conversion strings 0x75 arg = ⟨numeral 10 arg, (numeral 10 arg).length, 1⟩ := by
  have hprinted := printed_uitoa harg
  have hlen : strlen (uitoa arg 10) = (numeral 10 arg).length := congrArg List.length hprinted
  simp [conversion, hprinted, hlen]

/-- A whole call of `printf`. -/
theorem Prints.sent {format : String} {va : VaList} {text : List UInt8} {n : ℕ}
    (h : Prints (charPtr (cstr format)) va 0 0 text n) (args : List PrintfArg) :
    ∀ fuel, n < fuel → (Output.printf format args).sent fuel va = some text := by
  intro fuel hfuel
  obtain ⟨r, hrun, hsent, -⟩ := h ⟨0, 0, [], 0, []⟩ rfl rfl
  rw [Output.sent, BlackHole.printf, hrun fuel hfuel]
  simp [hsent]

end BlackHole
