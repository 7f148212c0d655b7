import Mathlib.Algebra.Group.Nat.Even
import Mathlib.Data.List.GetD
import Mathlib.Data.List.Induction
import Mathlib.Data.List.TakeWhile
import Mathlib.Logic.Relation
import BlackHole.Libc.Stdio

set_option autoImplicit false

/-! # Formats

`printf` takes the character behind a percent sign without looking whether it is the NUL. It stays
inside its format exactly if that does not end in a percent sign of its own (`printf_reads_iff`);
then what it sends is the expansion of the format (`printf_expansion`). -/

namespace BlackHole

/-! ## Reading a format -/

/-- The rest of a format from index `i` on: the characters `l`, then the NUL. -/
structure FormatAt (format : ℕ → UInt8) (i : ℕ) (l : List UInt8) : Prop where
  spells : Spells format i l
  stop : format (i + l.length) = 0
  no_nul : 0 ∉ l

theorem FormatAt.cons {format : ℕ → UInt8} {i : ℕ} {c : UInt8} {l : List UInt8}
    (h : FormatAt format i (c :: l)) : format i = c ∧ c ≠ 0 ∧ FormatAt format (i + 1) l := by
  have hnul := h.no_nul
  rw [List.mem_cons, not_or] at hnul
  refine ⟨h.spells 0 (Nat.zero_lt_succ _), Ne.symm hnul.1, fun j hj => ?_, ?_, hnul.2⟩
  · have hc := h.spells (j + 1) (Nat.succ_lt_succ hj)
    rwa [show i + (j + 1) = i + 1 + j by omega] at hc
  · have hstop := h.stop
    rwa [List.length_cons, show i + (l.length + 1) = i + 1 + l.length by omega] at hstop

/-- A string as a format. -/
theorem FormatAt.charPtr {l : List UInt8} (h : 0 ∉ l) : FormatAt (BlackHole.charPtr l) 0 l := by
  refine ⟨fun j hj => ?_, ?_, h⟩
  · rw [BlackHole.charPtr, Nat.zero_add, List.getD_eq_getElem _ _ hj]
  · rw [BlackHole.charPtr, Nat.zero_add, List.getD_eq_default _ _ le_rfl]

/-- The number of percent signs at the end. -/
def trailingPercents (l : List UInt8) : ℕ := (l.reverse.takeWhile (· = 0x25)).length

theorem trailingPercents_cons (c : UInt8) (l : List UInt8) :
    trailingPercents (c :: l)
      = trailingPercents l + if c = 0x25 ∧ l.all (· = 0x25) then 1 else 0 := by
  have hall : (l.reverse.takeWhile (· = 0x25)).length = l.reverse.length ↔ l.all (· = 0x25) := by
    have hself : l.reverse.takeWhile (· = 0x25) = l.reverse ↔ l.all (· = 0x25) := by
      rw [List.takeWhile_eq_self_iff]
      simp
    exact ⟨fun h => hself.1 ((List.takeWhile_prefix _).eq_of_length h), fun h => by rw [hself.2 h]⟩
  rw [trailingPercents, List.reverse_cons, List.takeWhile_append]
  by_cases hl : l.all (· = 0x25)
  · rw [if_pos (hall.2 hl), trailingPercents, hall.2 hl, List.length_append]
    by_cases hc : c = 0x25
    · rw [if_pos ⟨hc, hl⟩, hc]
      rfl
    · simp [hc]
  · rw [if_neg (mt hall.1 hl), if_neg (fun h => hl h.2), Nat.add_zero, trailingPercents]

/-- A character that is no percent sign does not count. -/
theorem trailingPercents_cons_of_ne {c : UInt8} (hc : c ≠ 0x25) (l : List UInt8) :
    trailingPercents (c :: l) = trailingPercents l := by
  rw [trailingPercents_cons, if_neg fun h => hc h.1, Nat.add_zero]

/-- A pair with a percent sign in front leaves the parity. -/
theorem even_trailingPercents_pair (d : UInt8) (l : List UInt8) :
    Even (trailingPercents (0x25 :: d :: l)) ↔ Even (trailingPercents l) := by
  rw [trailingPercents_cons, trailingPercents_cons]
  by_cases hall : d = 0x25 ∧ l.all (· = 0x25)
  · have hall' : (d :: l).all (· = 0x25) := by simpa using hall
    rw [if_pos hall, if_pos ⟨rfl, hall'⟩, Nat.add_assoc, Nat.even_add]
    simp
  · have hall' : ¬ (d :: l).all (· = 0x25) := by simpa using hall
    rw [if_neg hall, if_neg fun h => hall' h.2]
    rfl

theorem even_trailingPercents_single (c : UInt8) :
    Even (trailingPercents [c]) ↔ c ≠ 0x25 := by
  rw [trailingPercents_cons]
  by_cases hc : c = 0x25 <;> simp [hc, trailingPercents]

/-- The states `printf` can be in before a pass of its loop. -/
def PrintfReached (format : ℕ → UInt8) (va : VaList) : Printf → Prop :=
  Relation.ReflTransGen (fun st st' => printfStep format va st = .inr st') ⟨0, 0, [], 0, []⟩

section

variable {format : ℕ → UInt8} (va : VaList) {st st' : Printf} {l : List UInt8}

/-- What a pass reads and where it goes on, by what stands at the index. -/
theorem printfStep_nil (h : FormatAt format st.i []) :
    printfStep format va st = .inl { st with reads := st.reads ++ [st.i] } := if_pos h.stop

theorem printfStep_cons {c : UInt8} (h : FormatAt format st.i (c :: l)) (hc : c ≠ 0x25) :
    ∃ st', printfStep format va st = .inr st' ∧ st'.i = st.i + 1 ∧
      st'.reads = st.reads ++ [st.i] := by
  obtain ⟨rfl, hc0, -⟩ := h.cons
  rw [printfStep, if_neg hc0, if_neg hc]
  exact ⟨_, rfl, rfl, rfl⟩

theorem printfStep_percent (h : FormatAt format st.i (0x25 :: l)) :
    ∃ st', printfStep format va st = .inr st' ∧ st'.i = st.i + 2 ∧
      st'.reads = st.reads ++ [st.i, st.i + 1] := by
  obtain ⟨hc, hc0, -⟩ := h.cons
  rw [printfStep, if_neg (hc ▸ hc0), if_pos hc]
  exact ⟨_, rfl, rfl, rfl⟩

/-- What holds before every pass while the percent signs come in pairs: the index is in the format, of
    which `l` is left, and nothing behind it has been read. -/
structure ReadsInside (format : ℕ → UInt8) (len : ℕ) (st : Printf) (l : List UInt8) : Prop where
  rest : FormatAt format st.i l
  index : st.i + l.length = len
  even : Even (trailingPercents l)
  reads : ∀ j ∈ st.reads, j ≤ len

/-- A pass reads at most the NUL, and keeps the invariant. -/
theorem ReadsInside.step {len : ℕ} (h : ReadsInside format len st l) :
    (∃ st', printfStep format va st = .inl st' ∧ ∀ j ∈ st'.reads, j ≤ len) ∨
      ∃ st' l', printfStep format va st = .inr st' ∧ ReadsInside format len st' l' := by
  obtain ⟨hrest, hindex, heven, hreads⟩ := h
  rcases l with _ | ⟨c, l⟩
  · refine Or.inl ⟨_, printfStep_nil va hrest, fun j hj => ?_⟩
    rcases List.mem_append.1 hj with hj | hj
    · exact hreads j hj
    · rw [List.mem_singleton.1 hj, ← hindex]
      exact Nat.le_add_right _ _
  obtain ⟨-, -, htail⟩ := hrest.cons
  rw [List.length_cons] at hindex
  by_cases hc : c = 0x25
  · subst hc
    obtain ⟨st', hstep, hi, hr⟩ := printfStep_percent va hrest
    rcases l with _ | ⟨d, l⟩
    · exact absurd rfl ((even_trailingPercents_single _).1 heven)
    obtain ⟨-, -, htail'⟩ := htail.cons
    rw [List.length_cons] at hindex
    refine Or.inr ⟨st', l, hstep, hi ▸ htail', by omega, (even_trailingPercents_pair d l).1 heven,
      fun j hj => ?_⟩
    rw [hr, List.mem_append] at hj
    rcases hj with hj | hj
    · exact hreads j hj
    · simp only [List.mem_cons, List.not_mem_nil, or_false] at hj
      omega
  · obtain ⟨st', hstep, hi, hr⟩ := printfStep_cons va hrest hc
    rw [trailingPercents_cons_of_ne hc] at heven
    refine Or.inr ⟨st', l, hstep, hi ▸ htail, by omega, heven, fun j hj => ?_⟩
    rw [hr, List.mem_append, List.mem_singleton] at hj
    rcases hj with hj | rfl
    · exact hreads j hj
    · omega

theorem PrintfReached.readsInside (hreached : PrintfReached format va st)
    (hformat : FormatAt format 0 l) (heven : Even (trailingPercents l)) :
    ∃ l', ReadsInside format l.length st l' := by
  induction hreached with
  | refl => exact ⟨l, hformat, Nat.zero_add _, heven, by simp⟩
  | tail _ hs ih =>
      obtain ⟨l', h'⟩ := ih
      rcases h'.step va with ⟨st', hs', -⟩ | ⟨st', l'', hs', h''⟩
      · simp [hs'] at hs
      · rw [hs', Sum.inr.injEq] at hs
        exact ⟨l'', hs ▸ h''⟩

/-- Every pass reads at its index. -/
theorem printfStep_reads (format : ℕ → UInt8) (st : Printf) :
    ∃ st', (printfStep format va st = .inl st' ∨ printfStep format va st = .inr st') ∧
      st.i ∈ st'.reads := by
  unfold printfStep
  split
  · exact ⟨_, Or.inl rfl, by simp⟩
  · split
    · exact ⟨_, Or.inr rfl, by simp⟩
    · exact ⟨_, Or.inr rfl, by simp⟩

/-- With a percent sign left over the index passes the NUL. -/
theorem PrintfReached.behind (hreached : PrintfReached format va st)
    (hrest : FormatAt format st.i l) (hodd : ¬ Even (trailingPercents l)) :
    ∃ st', PrintfReached format va st' ∧ st'.i = st.i + l.length + 1 := by
  induction l using List.twoStepInduction generalizing st with
  | nil => exact absurd ⟨0, rfl⟩ hodd
  | singleton c =>
      obtain rfl : c = 0x25 := by
        rwa [even_trailingPercents_single, not_not] at hodd
      obtain ⟨st', hstep, hi, -⟩ := printfStep_percent va hrest
      exact ⟨st', hreached.tail hstep, hi⟩
  | cons_cons c d l ih ih' =>
      obtain ⟨-, -, htail⟩ := hrest.cons
      by_cases hc : c = 0x25
      · subst hc
        rw [even_trailingPercents_pair] at hodd
        obtain ⟨-, -, htail'⟩ := htail.cons
        obtain ⟨st', hstep, hi, -⟩ := printfStep_percent va hrest
        obtain ⟨st'', hreached', hi'⟩ := ih (hreached.tail hstep) (hi ▸ htail') hodd
        refine ⟨st'', hreached', ?_⟩
        simp only [List.length_cons]
        omega
      · rw [trailingPercents_cons_of_ne hc] at hodd
        obtain ⟨st', hstep, hi, -⟩ := printfStep_cons va hrest hc
        obtain ⟨st'', hreached', hi'⟩ := ih' d (hreached.tail hstep) (hi ▸ htail) hodd
        refine ⟨st'', hreached', ?_⟩
        simp only [List.length_cons] at hi' ⊢
        omega

end

/-- For every format and whatever lies behind it and on the stack: no pass of `printf` reads the format
    behind its NUL, exactly if the number of percent signs at its end is even. -/
theorem printf_reads_iff {format : ℕ → UInt8} {l : List UInt8} (hformat : FormatAt format 0 l)
    (va : VaList) :
    (∀ st st', PrintfReached format va st →
      printfStep format va st = .inl st' ∨ printfStep format va st = .inr st' →
      ∀ j ∈ st'.reads, j ≤ l.length) ↔ Even (trailingPercents l) := by
  constructor
  · intro h
    by_contra hodd
    obtain ⟨st, hreached, hi⟩ := PrintfReached.behind va .refl hformat hodd
    obtain ⟨st', hstep, hmem⟩ := printfStep_reads va format st
    have hle := h st st' hreached hstep _ hmem
    simp only at hi
    omega
  · intro heven st st' hreached hstep
    obtain ⟨l', h'⟩ := hreached.readsInside va hformat heven
    rcases h'.step va with ⟨st'', hs', hreads⟩ | ⟨st'', l'', hs', h''⟩
    · rcases hstep with hstep | hstep
      · rw [hs', Sum.inl.injEq] at hstep
        exact hstep ▸ hreads
      · simp [hs'] at hstep
    · rcases hstep with hstep | hstep
      · simp [hs'] at hstep
      · rw [hs', Sum.inr.injEq] at hstep
        exact hstep ▸ h''.reads

/-- A conversion, and two percent signs at the end. -/
theorem printf_reads_iff_literal : trailingPercents (cstr "%s at 100%%") = 2 ∧ ∀ st st',
    PrintfReached (charPtr (cstr "%s at 100%%")) ⟨fun _ => 0, fun _ => []⟩ st →
    printfStep (charPtr (cstr "%s at 100%%")) ⟨fun _ => 0, fun _ => []⟩ st = .inl st' ∨
      printfStep (charPtr (cstr "%s at 100%%")) ⟨fun _ => 0, fun _ => []⟩ st = .inr st' →
    ∀ j ∈ st'.reads, j ≤ (cstr "%s at 100%%").length :=
  ⟨by decide, (printf_reads_iff ⟨by decide, by decide, by decide⟩ _).2 (by decide)⟩

/-- `printf("100%")` reads the byte behind the NUL at index 4. -/
theorem printf_reads_percent : FormatAt (charPtr (cstr "100%")) 0 (cstr "100%") ∧
    (cstr "100%").length = 4 ∧
    ∃ r, printf 6 (charPtr (cstr "100%")) ⟨fun _ => 0, fun _ => []⟩ = some r ∧ 5 ∈ r.2.reads := by
  refine ⟨⟨by decide, by decide, by decide⟩, by decide, ?_⟩
  have hreads : (printf 6 (charPtr (cstr "100%")) ⟨fun _ => 0, fun _ => []⟩).map (·.2.reads)
      = some [0, 1, 2, 3, 4, 5] := by decide
  obtain ⟨r, hr, hreads⟩ := Option.map_eq_some_iff.1 hreads
  exact ⟨r, hr, by simp [hreads]⟩

/-! ## What a format expands to -/

/-- The text of an integer or character argument. -/
def wordText (c : UInt8) (n : ℕ) : List UInt8 :=
  -- 'c'
  if c = 0x63 then [UInt8.ofNat n]
  -- 'u'
  else if c = 0x75 then printed (uitoa n 10)
  -- 'x', 'X'
  else if c = 0x78 ∨ c = 0x58 then cstr "0x" ++ printed (uitoa n 16)
  -- 'd', 'i'
  else printed (itoa (toInt n) 10)

/-- A percent sign followed by `c`: the text, and the arguments that are left. `none` is an argument of
    the wrong kind, or none where one is needed. -/
def expandConversion (c : UInt8) (args : List PrintfArg) : Option (List UInt8 × List PrintfArg) :=
  if c = 0x25 then some ([0x25], args)
  -- 's'
  else if c = 0x73 then
    match args with
    | .str s :: args => some (s.elim (cstr "(null)") printed, args)
    | _ => none
  -- "cdiuxX"
  else if c ∈ [0x63, 0x64, 0x69, 0x75, 0x78, 0x58] then
    match args with
    | .word n :: args => some (wordText c n, args)
    | _ => none
  else some ([0x25, c], args)

/-- The expansion of a format. `none` where the arguments do not match, or the format ends in the
    middle of a conversion. -/
def expansion : List UInt8 → List PrintfArg → Option (List UInt8)
  | [], _ => some []
  | [c], _ => if c = 0x25 then none else some [c]
  | c :: d :: l, args =>
      if c = 0x25 then (expandConversion d args).bind fun r => (expansion l r.2).map (r.1 ++ ·)
      else (expansion (d :: l) args).map (c :: ·)

section

variable {format : ℕ → UInt8} {va : VaList} {args rest : List PrintfArg} {arg : ℕ} {c : UInt8}
  {text : List UInt8}

theorem drop_succ_of_drop_eq {a : PrintfArg} (h : args.drop arg = a :: rest) :
    args[arg]? = some a ∧ args.drop (arg + 1) = rest := by
  constructor
  · rw [← Nat.add_zero arg, ← List.getElem?_drop, h]
    rfl
  · rw [← List.drop_drop, h]
    rfl

/-- The `switch` of `printf` sends the text of the conversion and takes its argument. -/
theorem conversion_expand (hva : va.Holds args)
    (h : expandConversion c (args.drop arg) = some (text, rest)) :
    (conversion va.strings c (va.words arg)).text = text ∧
      args.drop (arg + (conversion va.strings c (va.words arg)).taken) = rest := by
  unfold expandConversion at h
  split_ifs at h with hpercent hs hword
  · obtain ⟨rfl, rfl⟩ := Prod.mk.inj (Option.some.inj h)
    subst hpercent
    exact ⟨rfl, rfl⟩
  · -- a string
    subst hs
    split at h
    next s args' hdrop =>
      obtain ⟨rfl, rfl⟩ := Prod.mk.inj (Option.some.inj h)
      obtain ⟨harg, hnext⟩ := drop_succ_of_drop_eq hdrop
      refine ⟨?_, hnext⟩
      cases s with
      | none =>
          rw [hva.null _ harg]
          exact (by decide : printed (cstr "(null)") = cstr "(null)")
      | some s =>
          obtain ⟨hne, hstr⟩ := hva.str _ s harg
          simp [conversion, hne, hstr]
    · simp at h
  · -- an integer or a character
    split at h
    next n args' hdrop =>
      obtain ⟨rfl, rfl⟩ := Prod.mk.inj (Option.some.inj h)
      obtain ⟨harg, hnext⟩ := drop_succ_of_drop_eq hdrop
      rw [hva.word _ n harg]
      simp only [List.mem_cons, List.not_mem_nil, or_false] at hword
      rcases hword with rfl | rfl | rfl | rfl | rfl | rfl <;> exact ⟨rfl, hnext⟩
    · simp at h
  · -- anything else
    obtain ⟨rfl, rfl⟩ := Prod.mk.inj (Option.some.inj h)
    simp only [List.mem_cons, List.not_mem_nil, or_false, not_or] at hword
    simp [conversion, hpercent, hs, hword]

/-- The loop sends the expansion of the rest of the format. -/
theorem prints_expansion (hva : va.Holds args) {l : List UInt8} {i : ℕ}
    (hformat : FormatAt format i l) (hdrop : args.drop arg = rest)
    (h : expansion l rest = some text) : ∃ n, Prints format va i arg text n := by
  induction l using List.twoStepInduction generalizing i arg rest text with
  | nil =>
      obtain rfl := Option.some.inj h
      exact ⟨0, prints_nil hformat.stop⟩
  | singleton c =>
      obtain ⟨hc, hc0, htail⟩ := hformat.cons
      rw [expansion] at h
      split_ifs at h with hpercent
      obtain rfl := Option.some.inj h
      exact ⟨_, prints_cons hc ⟨hc0, hpercent⟩ (prints_nil htail.stop)⟩
  | cons_cons c d l ih ih' =>
      obtain ⟨hc, hc0, htail⟩ := hformat.cons
      rw [expansion] at h
      split_ifs at h with hpercent
      · obtain ⟨hd, -, htail'⟩ := htail.cons
        obtain ⟨⟨t, rest'⟩, hconv, h⟩ := Option.bind_eq_some_iff.1 h
        obtain ⟨t', hrest, rfl⟩ := Option.map_eq_some_iff.1 h
        obtain ⟨htext, hdrop'⟩ := conversion_expand hva (hdrop ▸ hconv)
        obtain ⟨n, hprints⟩ := ih htail' hdrop' hrest
        exact ⟨_, htext ▸ prints_conversion (hc.trans hpercent) hd rfl hprints⟩
      · obtain ⟨t, hrest, rfl⟩ := Option.map_eq_some_iff.1 h
        obtain ⟨n, hprints⟩ := ih' d htail hdrop hrest
        exact ⟨_, prints_cons hc ⟨hc0, hpercent⟩ hprints⟩

end

/-- For every format and arguments of the kinds it asks for, `printf` sends the expansion of the format
    to the screen and returns its length as an `int`. -/
theorem printf_expansion {format : ℕ → UInt8} {l : List UInt8} (hformat : FormatAt format 0 l)
    {va : VaList} {args : List PrintfArg} (hva : va.Holds args) {text : List UInt8}
    (h : expansion l args = some text) :
    ∃ bound st, (∀ fuel, bound < fuel →
        printf fuel format va = some (toInt (u32 text.length), st)) ∧ st.sent = text ∧
      (text.length < 2147483648 → toInt (u32 text.length) = text.length) := by
  obtain ⟨n, hprints⟩ := prints_expansion hva hformat List.drop_zero h
  obtain ⟨st, hrun, hsent, hwritten⟩ := hprints ⟨0, 0, [], 0, []⟩ rfl rfl
  refine ⟨n, st, fun fuel hfuel => ?_, by simpa using hsent, fun hlen => ?_⟩
  · rw [printf, hrun fuel hfuel, Option.map_some, hwritten, Nat.zero_add]
  · rw [u32_of_lt (by omega), toInt, if_pos hlen]

theorem printf_expansion_witness : ∃ bound st, (∀ fuel, bound < fuel →
      printf fuel (charPtr (cstr "%s=%c%%")) ⟨fun j => if j = 0 then 1 else 0x21, fun _ => cstr "ab"⟩
        = some (5, st)) ∧ st.sent = cstr "ab=!%" := by
  have hva : VaList.Holds ⟨fun j => if j = 0 then 1 else 0x21, fun _ => cstr "ab"⟩
      [.str (some (cstr "ab")), .word 0x21] := by
    refine ⟨fun j => by dsimp only; split <;> decide, fun j n h => ?_, fun j h => ?_, fun j s h => ?_⟩
    · rcases j with _ | _ | j <;> simp_all
    · rcases j with _ | _ | j <;> simp at h
    · rcases j with _ | _ | j <;> simp_all
  have hexp : expansion (cstr "%s=%c%%") [.str (some (cstr "ab")), .word 0x21]
      = some (cstr "ab=!%") := by
    decide
  obtain ⟨bound, st, hrun, hsent, -⟩ := printf_expansion (FormatAt.charPtr (by decide)) hva hexp
  exact ⟨bound, st, hrun, hsent⟩

/-! ## Counting past the largest `int` -/

theorem expansion_literal {l : List UInt8} (h : 0x25 ∉ l) (args : List PrintfArg) :
    expansion l args = some l := by
  induction l using List.twoStepInduction with
  | nil => rfl
  | singleton c =>
      rw [expansion, if_neg]
      rintro rfl
      exact h (List.mem_cons_self ..)
  | cons_cons c d l ih ih' =>
      rw [List.mem_cons, not_or] at h
      rw [expansion, if_neg (Ne.symm h.1), ih' d h.2, Option.map_some]

/-- A format of `2^31` letters: all of them are sent, and the count is negative. -/
theorem printf_count_overflows :
    expansion (List.replicate 2147483648 0x61) [] = some (List.replicate 2147483648 0x61) ∧
    ∃ bound st, (∀ fuel, bound < fuel →
        printf fuel (charPtr (List.replicate 2147483648 0x61)) ⟨fun _ => 0, fun _ => []⟩
          = some (-2147483648, st)) ∧ st.sent.length = 2147483648 := by
  have hno : ∀ c : UInt8, c ≠ 0x61 → c ∉ List.replicate 2147483648 (0x61 : UInt8) :=
    fun c hc hmem => hc (List.eq_of_mem_replicate hmem)
  have hexp := expansion_literal (hno 0x25 (by decide)) []
  have hva : VaList.Holds ⟨fun _ => 0, fun _ => []⟩ [] :=
    ⟨fun _ => Nat.zero_lt_succ _, by simp, by simp, by simp⟩
  obtain ⟨n, hprints⟩ := prints_expansion hva (FormatAt.charPtr (hno 0 (by decide)))
    List.drop_zero hexp
  obtain ⟨st, hrun, hsent, hwritten⟩ := hprints ⟨0, 0, [], 0, []⟩ rfl rfl
  rw [List.length_replicate, Nat.zero_add] at hwritten
  rw [List.nil_append] at hsent
  refine ⟨hexp, n, st, fun fuel hfuel => ?_, by rw [hsent, List.length_replicate]⟩
  rw [printf, hrun fuel hfuel, Option.map_some, hwritten]
  rfl

end BlackHole
