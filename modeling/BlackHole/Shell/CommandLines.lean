import BlackHole.Drivers.LineInput

set_option autoImplicit false

/-! # The lines the shell reads

`shell_loop` takes one command from each call of `keyboard_readline`. The calls and the typed lines
run in step as long as no line fills the buffer before its Enter; behind a line that does, the next
call returns what is left of it. -/

namespace BlackHole

/-- `MAX_CMD_LEN`. -/
def maxCmdLen : ℤ := 128

/-- The lines that the first rounds of `shell_loop` get from the stream, and what is left of it.
    `execute` is what the command and the next prompt do to the buffer and to the screen. -/
def shellLines (execute : Editor → Editor) (max : ℤ) :
    ℕ → Editor → List UInt8 → Option (List (List UInt8) × List UInt8)
  | 0, _, stream => some ([], stream)
  | k + 1, e, stream =>
      (keyboardReadline max e stream).bind fun r =>
        (shellLines execute max k (execute r.1) r.2).map fun s => (r.1.held :: s.1, s.2)

/-- The characters of lines that are each ended by Enter. -/
def typedLines (lines : List (List UInt8)) : List UInt8 := lines.flatMap (· ++ [10])

/-- A line as it is typed, cut to what the buffer can hold. -/
def lineText (max : ℤ) (l : List UInt8) : List UInt8 := (editedText l).take (max - 1).toNat

/-- Each round gets the next of the lines typed and takes its Enter out of the stream. -/
def LinePerCall (execute : Editor → Editor) (max : ℤ) (e : Editor) (lines : List (List UInt8))
    (rest : List UInt8) : Prop :=
  ∀ k ≤ lines.length, shellLines execute max k e (typedLines lines ++ rest)
    = some ((lines.take k).map (lineText max), typedLines (lines.drop k) ++ rest)

/-! ## One call -/

theorem Fits.lineText_eq {max : ℤ} (hmax : 1 ≤ max) (e : Editor) {l : List UInt8} (h : Fits max l)
    (hnl : 10 ∉ l) : lineText max l = editedText l := by
  obtain ⟨e', -, hheld, hroom⟩ := readlineAfter_of_open hmax e (h.not_lineEnds hnl)
  rw [← held_length, hheld] at hroom
  exact List.take_of_length_le (by omega)

theorem Fits.read {max : ℤ} (hmax : 1 ≤ max) (e : Editor) {l : List UInt8} (h : Fits max l)
    (hnl : 10 ∉ l) (rest : List UInt8) :
    ∃ e', keyboardReadline max e (l ++ 10 :: rest) = some (e', rest)
      ∧ e'.held = lineText max l := by
  obtain ⟨e', hread, -, hheld⟩ := (h.isLine hnl).read hmax e rest
  rw [List.append_assoc, List.singleton_append] at hread
  rw [withoutEnter_append] at hheld
  exact ⟨e', hread, hheld.trans (h.lineText_eq hmax e hnl).symm⟩

/-- A line that fills the buffer: the call returns before it has read the whole line. -/
theorem read_of_not_fits {max : ℤ} (hmax : 1 ≤ max) (e : Editor) {l : List UInt8}
    (h : ¬ Fits max l) (hnl : 10 ∉ l) (rest : List UInt8) :
    ∃ e' tail, keyboardReadline max e (l ++ 10 :: rest) = some (e', tail ++ 10 :: rest) := by
  obtain ⟨q, hq, hfull⟩ : ∃ q, q <+: l ∧ ((editedText q).length : ℤ) = max - 1 := by
    simpa [Fits] using h
  rcases no_lineEnds_or_isLine max l with hopen | ⟨p, ⟨tail, rfl⟩, hline⟩
  · exact absurd (Or.inr hfull) (hopen q hq)
  · obtain ⟨e', hread, -⟩ := hline.read hmax e (tail ++ 10 :: rest)
    exact ⟨e', tail, by rw [List.append_assoc]; exact hread⟩

/-- One call reads one line if and only if the line does not fill the buffer. -/
theorem read_line_iff {max : ℤ} (hmax : 1 ≤ max) (e : Editor) {l : List UInt8} (hnl : 10 ∉ l)
    (rest : List UInt8) :
    (∃ e', keyboardReadline max e (l ++ 10 :: rest) = some (e', rest)) ↔ Fits max l := by
  constructor
  · rintro ⟨e', hread⟩
    by_contra hfull
    obtain ⟨e'', tail, hread'⟩ := read_of_not_fits hmax e hfull hnl rest
    rw [hread] at hread'
    have hrest : rest = tail ++ 10 :: rest := congrArg Prod.snd (Option.some.inj hread')
    have hlen := congrArg List.length hrest
    simp at hlen
    omega
  · intro h
    obtain ⟨e', hread, -⟩ := h.read hmax e hnl rest
    exact ⟨e', hread⟩

/-! ## The rounds of the shell -/

theorem typedLines_cons (l : List UInt8) (lines : List (List UInt8)) (rest : List UInt8) :
    typedLines (l :: lines) ++ rest = l ++ 10 :: (typedLines lines ++ rest) := by
  simp [typedLines]

/-- A round that reads the first line leaves the others to the following rounds. -/
theorem shellLines_succ {execute : Editor → Editor} {max : ℤ} {e e' : Editor}
    {l rest : List UInt8} {lines : List (List UInt8)}
    (hread : keyboardReadline max e (l ++ 10 :: (typedLines lines ++ rest))
      = some (e', typedLines lines ++ rest)) (k : ℕ) :
    shellLines execute max (k + 1) e (typedLines (l :: lines) ++ rest)
      = (shellLines execute max k (execute e') (typedLines lines ++ rest)).map
          fun s => (e'.held :: s.1, s.2) := by
  rw [typedLines_cons, shellLines, hread]
  rfl

theorem LinePerCall.of_fits {execute : Editor → Editor} {max : ℤ} (hmax : 1 ≤ max)
    {lines : List (List UInt8)} {rest : List UInt8} (hlines : ∀ l ∈ lines, 10 ∉ l)
    (hfits : ∀ l ∈ lines, Fits max l) (e : Editor) : LinePerCall execute max e lines rest := by
  induction lines generalizing e with
  | nil =>
      intro k hk
      rw [Nat.le_zero.1 hk]
      rfl
  | cons l lines ih =>
      intro k hk
      cases k with
      | zero => rfl
      | succ k =>
          obtain ⟨e', hread, hheld⟩ := (hfits l (List.mem_cons_self ..)).read hmax e
            (hlines l (List.mem_cons_self ..)) (typedLines lines ++ rest)
          have hnext := ih (fun l' hl' => hlines l' (List.mem_cons_of_mem _ hl'))
            (fun l' hl' => hfits l' (List.mem_cons_of_mem _ hl')) (execute e') k
            (Nat.le_of_succ_le_succ hk)
          rw [shellLines_succ hread, hnext, hheld]
          rfl

/-- The first line was read by the first call, the others by the calls after it. -/
theorem LinePerCall.cons {execute : Editor → Editor} {max : ℤ} {e : Editor} {l : List UInt8}
    {lines : List (List UInt8)} {rest : List UInt8}
    (h : LinePerCall execute max e (l :: lines) rest) :
    ∃ e', keyboardReadline max e (l ++ 10 :: (typedLines lines ++ rest))
        = some (e', typedLines lines ++ rest)
      ∧ LinePerCall execute max (execute e') lines rest := by
  have hfirst := h 1 (by simp)
  rw [typedLines_cons, shellLines, Option.bind_eq_some_iff] at hfirst
  obtain ⟨⟨e', left⟩, hread, hone⟩ := hfirst
  obtain rfl : left = typedLines lines ++ rest := congrArg Prod.snd (Option.some.inj hone)
  refine ⟨e', hread, fun k hk => ?_⟩
  have hnext := h (k + 1) (Nat.succ_le_succ hk)
  rw [shellLines_succ hread, Option.map_eq_some_iff] at hnext
  obtain ⟨⟨texts, left⟩, hrounds, heq⟩ := hnext
  rw [hrounds]
  have htexts : texts = (lines.take k).map (lineText max) :=
    (List.cons.inj (congrArg Prod.fst heq)).2
  have hleft : left = typedLines (lines.drop k) ++ rest := congrArg Prod.snd heq
  rw [htexts, hleft]

/-- Every round reads one line if and only if no line fills the buffer before its Enter. -/
theorem line_per_call_iff (execute : Editor → Editor) (max : ℤ) (hmax : 1 ≤ max) (e : Editor)
    (lines : List (List UInt8)) (rest : List UInt8) (hlines : ∀ l ∈ lines, 10 ∉ l) :
    LinePerCall execute max e lines rest
      ↔ ∀ l ∈ lines, ∀ q, q <+: l → ((editedText q).length : ℤ) ≠ max - 1 := by
  refine ⟨fun h => ?_, fun hfits => LinePerCall.of_fits hmax hlines hfits e⟩
  induction lines generalizing e with
  | nil => exact fun l hl => absurd hl List.not_mem_nil
  | cons l lines ih =>
      obtain ⟨e', hread, hnext⟩ := h.cons
      have hfits : Fits max l :=
        (read_line_iff hmax e (hlines l (List.mem_cons_self ..)) _).1 ⟨e', hread⟩
      exact List.forall_mem_cons.2
        ⟨hfits, ih (execute e') (fun l' hl' => hlines l' (List.mem_cons_of_mem _ hl')) hnext⟩

theorem line_per_call_iff_two :
    LinePerCall id maxCmdLen ⟨fun _ => 0, 0, blankScreen 0 0⟩ [[108, 115], [114, 109, 32, 120]] [] :=
  (line_per_call_iff id maxCmdLen (by decide) _ _ []
    (List.forall_mem_cons.2 ⟨by decide, List.forall_mem_singleton.2 (by decide)⟩)).2
    (List.forall_mem_cons.2
      ⟨fits_of_short (by decide), List.forall_mem_singleton.2 (fits_of_short (by decide))⟩)

/-- The buffer is full behind `p`: what is left of the line is the command of the next round. -/
theorem IsLine.shellLines_two {execute : Editor → Editor} {max : ℤ} (hmax : 1 ≤ max) (e : Editor)
    {p tail : List UInt8} (h : IsLine max p) (hp : 10 ∉ p) (htail : Fits max tail)
    (hnl : 10 ∉ tail) (rest : List UInt8) :
    shellLines execute max 2 e (p ++ (tail ++ 10 :: rest))
      = some ([editedText p, lineText max tail], rest) := by
  have hwith : withoutEnter p = p := if_neg fun hlast => hp (List.mem_of_getLast? hlast)
  obtain ⟨e1, hread1, -, hheld1⟩ := h.read hmax e (tail ++ 10 :: rest)
  obtain ⟨e2, hread2, hheld2⟩ := htail.read hmax (execute e1) hnl rest
  rw [hwith] at hheld1
  simp only [shellLines, hread1, hread2, Option.bind_some, Option.map_some, hheld1, hheld2]

theorem isLine_of_letters {max : ℤ} {l : List UInt8} (hbs : 8 ∉ l) (hnl : 10 ∉ l)
    (hlen : (l.length : ℤ) = max - 1) : IsLine max l := by
  refine ⟨Or.inr (by rw [editedText_eq_self hbs]; exact hlen), ?_⟩
  rintro q hq hne (hlast | hfull)
  · exact hnl (hq.subset (List.mem_of_getLast? hlast))
  · rw [editedText_eq_self fun h => hbs (hq.subset h)] at hfull
    exact hne (hq.eq_of_length (by omega))

/-- After 127 letters the call returns, and the rest of the line, `rm x`, is the next command. -/
theorem line_per_call_tail :
    ¬ LinePerCall id maxCmdLen ⟨fun _ => 0, 0, blankScreen 0 0⟩
        [List.replicate 127 97 ++ [114, 109, 32, 120]] []
      ∧ shellLines id maxCmdLen 2 ⟨fun _ => 0, 0, blankScreen 0 0⟩
          (typedLines [List.replicate 127 97 ++ [114, 109, 32, 120]])
        = some ([List.replicate 127 97, [114, 109, 32, 120]], []) := by
  have hletters : 8 ∉ List.replicate 127 (97 : UInt8) ∧ 10 ∉ List.replicate 127 (97 : UInt8) := by
    simp
  have hline : IsLine maxCmdLen (List.replicate 127 97) :=
    isLine_of_letters hletters.1 hletters.2 (by rw [List.length_replicate]; rfl)
  have hlong : ¬ Fits maxCmdLen (List.replicate 127 97 ++ [114, 109, 32, 120]) := fun h =>
    h _ (List.prefix_append ..) (hline.1.resolve_left fun h10 =>
      hletters.2 (List.mem_of_getLast? h10))
  have hnl : 10 ∉ List.replicate 127 (97 : UInt8) ++ [114, 109, 32, 120] := by
    simp
  constructor
  · intro h
    obtain ⟨e', hread, -⟩ := h.cons
    exact hlong ((read_line_iff (by decide) _ hnl _).1 ⟨e', hread⟩)
  · have htail : Fits maxCmdLen [114, 109, 32, 120] := fits_of_short (by decide)
    have htwo : shellLines id maxCmdLen 2 ⟨fun _ => 0, 0, blankScreen 0 0⟩
        (List.replicate 127 97 ++ ([114, 109, 32, 120] ++ [10])) = _ :=
      hline.shellLines_two (by decide) _ hletters.2 htail (by decide) []
    rw [editedText_eq_self hletters.1] at htwo
    rw [typedLines, List.flatMap_singleton, List.append_assoc]
    exact htwo

end BlackHole
