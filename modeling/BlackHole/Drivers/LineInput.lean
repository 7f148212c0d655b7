import BlackHole.Drivers.LineScreen

set_option autoImplicit false

/-! # The line that is read

The text of a line is a fold of `editChar` over its characters (`editedText`). `keyboard_readline`
leaves its loop behind the shortest prefix of the stream that ends in Enter or whose text fills the
buffer (`IsLine`); in the second case the Enter of that line is still to be read, and the next call
reads the rest of the line as a line of its own. -/

namespace BlackHole

/-! ## Lines of the stream -/

/-- The text that the characters leave on a line without an end. -/
def editedText (p : List UInt8) : List UInt8 := p.foldl editChar []

/-- The prefix ends the line: with Enter, or because its text fills the buffer. -/
def LineEnds (max : ℤ) (p : List UInt8) : Prop :=
  p.getLast? = some 10 ∨ ((editedText p).length : ℤ) = max - 1

/-- No shorter prefix ends the line. -/
def IsLine (max : ℤ) (p : List UInt8) : Prop :=
  LineEnds max p ∧ ∀ q, q <+: p → q ≠ p → ¬ LineEnds max q

/-- The characters of a line but for the Enter it may end in. -/
def withoutEnter (p : List UInt8) : List UInt8 := if p.getLast? = some 10 then p.dropLast else p

/-- The buffer holds the text and the NUL behind it. -/
def HoldsLine (buf : ℕ → UInt8) (text : List UInt8) : Prop :=
  (List.range text.length).map buf = text ∧ buf text.length = 0

theorem editedText_append (p : List UInt8) (c : UInt8) :
    editedText (p ++ [c]) = editChar (editedText p) c := by
  simp [editedText]

theorem editChar_length_le (text : List UInt8) (c : UInt8) :
    (editChar text c).length ≤ text.length + 1 := by
  unfold editChar
  split
  · rw [List.length_dropLast]
    omega
  · simp

theorem editedText_length_le (p : List UInt8) : (editedText p).length ≤ p.length := by
  induction p using List.reverseRecOn with
  | nil => simp [editedText]
  | append_singleton p c ih =>
      rw [editedText_append, List.length_append]
      exact (editChar_length_le _ c).trans (Nat.add_le_add_right ih 1)

/-- Without a backspace, all characters are kept. -/
theorem editedText_eq_self {p : List UInt8} (h : 8 ∉ p) : editedText p = p := by
  induction p using List.reverseRecOn with
  | nil => rfl
  | append_singleton p c ih =>
      rw [List.mem_append, not_or, List.mem_singleton] at h
      rw [editedText_append, ih h.1, editChar, if_neg (Ne.symm h.2)]

/-- Either no prefix ends the line or there is a shortest one that does. -/
theorem no_lineEnds_or_isLine (max : ℤ) (p : List UInt8) :
    (∀ q, q <+: p → ¬ LineEnds max q) ∨ ∃ q, q <+: p ∧ IsLine max q := by
  induction p using List.reverseRecOn with
  | nil =>
      by_cases h : LineEnds max []
      · exact Or.inr ⟨[], List.prefix_rfl, h, fun q hq hne => absurd (List.prefix_nil.1 hq) hne⟩
      · exact Or.inl fun q hq => List.prefix_nil.1 hq ▸ h
  | append_singleton p c ih =>
      rcases ih with hopen | ⟨q, hq, hline⟩
      · by_cases h : LineEnds max (p ++ [c])
        · refine Or.inr ⟨_, List.prefix_rfl, h, fun q hq hne => hopen q ?_⟩
          exact (List.prefix_concat_iff.1 hq).resolve_left hne
        · refine Or.inl fun q hq => ?_
          rcases List.prefix_concat_iff.1 hq with rfl | hq
          · exact h
          · exact hopen q hq
      · exact Or.inr ⟨q, hq.trans (List.prefix_append ..), hline⟩

theorem IsLine.open_of_append {max : ℤ} {p : List UInt8} {c : UInt8} (h : IsLine max (p ++ [c])) :
    ∀ q, q <+: p → ¬ LineEnds max q := by
  intro q hq
  refine h.2 q (hq.trans (List.prefix_append ..)) ?_
  rintro rfl
  exact absurd hq.length_le (by simp)

/-- The text never fills the buffer. -/
def Fits (max : ℤ) (l : List UInt8) : Prop :=
  ∀ q, q <+: l → ((editedText q).length : ℤ) ≠ max - 1

theorem fits_of_short {max : ℤ} {l : List UInt8} (h : (l.length : ℤ) < max - 1) : Fits max l := by
  intro q hq hfull
  have hle := (editedText_length_le q).trans hq.length_le
  omega

theorem Fits.not_lineEnds {max : ℤ} {l : List UInt8} (h : Fits max l) (hnl : 10 ∉ l) :
    ∀ q, q <+: l → ¬ LineEnds max q := by
  rintro q hq (hlast | hfull)
  · exact hnl (hq.subset (List.mem_of_getLast? hlast))
  · exact h q hq hfull

/-- A text that never fills the buffer is a line together with its Enter. -/
theorem Fits.isLine {max : ℤ} {l : List UInt8} (h : Fits max l) (hnl : 10 ∉ l) :
    IsLine max (l ++ [10]) :=
  ⟨Or.inl (by simp), fun q hq hne =>
    h.not_lineEnds hnl q ((List.prefix_concat_iff.1 hq).resolve_left hne)⟩

theorem withoutEnter_append (l : List UInt8) : withoutEnter (l ++ [10]) = l := by
  simp [withoutEnter]

/-! ## The loop -/

theorem held_length (e : Editor) : e.held.length = e.i := by
  simp [Editor.held]

/-- Any character but Enter edits the text held. -/
theorem readlinePass_held (e : Editor) {c : UInt8} (hnl : c ≠ 10) :
    ∃ e', readlinePass e c = .inr e' ∧ e'.held = editChar e.held c := by
  unfold readlinePass editChar
  rw [if_neg hnl]
  by_cases hbs : c = 8
  · rw [if_pos hbs, if_pos hbs]
    rcases List.eq_nil_or_concat e.held with hnil | ⟨b, d, hheld⟩
    · have hi : ¬ e.i > 0 := by
        rw [← held_length, hnil]
        simp
      rw [if_neg hi, hnil]
      exact ⟨e, rfl, hnil⟩
    · rw [List.concat_eq_append] at hheld
      have hi : e.i > 0 := by
        rw [← held_length, hheld]
        simp
      rw [if_pos hi, hheld, List.dropLast_concat]
      exact ⟨_, rfl, held_pop hheld _⟩
  · rw [if_neg hbs, if_neg hbs]
    exact ⟨_, rfl, held_push e c _⟩

/-- As long as no prefix ends the line, the loop goes on with the edited text and room for more. -/
theorem readlineAfter_of_open {max : ℤ} (hmax : 1 ≤ max) (e : Editor) {p : List UInt8}
    (hopen : ∀ q, q <+: p → ¬ LineEnds max q) :
    ∃ e', readlineAfter max { e with i := 0 } p = some e' ∧ e'.held = editedText p
      ∧ (e'.i : ℤ) < max - 1 := by
  induction p using List.reverseRecOn with
  | nil =>
      have hlen : ((0 : ℕ) : ℤ) ≠ max - 1 := fun h => hopen [] List.prefix_rfl (Or.inr h)
      have hroom : ((0 : ℕ) : ℤ) < max - 1 := by omega
      exact ⟨_, rfl, rfl, hroom⟩
  | append_singleton p c ih =>
      obtain ⟨e1, hafter, hheld, hroom⟩ := ih fun q hq => hopen q (hq.trans (List.prefix_append ..))
      have hends := hopen (p ++ [c]) List.prefix_rfl
      have hnl : c ≠ 10 := by
        rintro rfl
        exact hends (Or.inl (by simp))
      obtain ⟨e', hpass, hheld'⟩ := readlinePass_held e1 hnl
      rw [hheld, ← editedText_append] at hheld'
      refine ⟨e', ?_, hheld', ?_⟩
      · rw [readlineAfter_append hafter, readlineAfter, if_pos hroom, hpass]
        rfl
      · -- one more character cannot jump over the limit
        have hstep := editChar_length_le (editedText p) c
        rw [← editedText_append, ← hheld', ← hheld, held_length, held_length] at hstep
        have hlimit : (e'.i : ℤ) ≠ max - 1 := by
          rw [← held_length, hheld']
          exact fun h => hends (Or.inr h)
        omega

theorem readlineLoop_full {max : ℤ} {e : Editor} (h : (e.i : ℤ) = max - 1) (stream : List UInt8) :
    readlineLoop max e stream = some (e, stream) := by
  have hfull : ¬ (e.i : ℤ) < max - 1 := by omega
  cases stream with
  | nil => rw [readlineLoop, if_neg hfull]
  | cons c stream => rw [readlineLoop, if_neg hfull]

/-- The terminator is stored behind the text. -/
theorem holdsLine_terminated (e : Editor) :
    HoldsLine (Function.update e.buf e.i 0) e.held
      ∧ ({ e with buf := Function.update e.buf e.i 0 } : Editor).held = e.held := by
  have hheld : (List.range e.i).map (Function.update e.buf e.i 0) = e.held := by
    apply List.map_congr_left
    intro j hj
    rw [Function.update_of_ne (by have := List.mem_range.1 hj; omega)]
  refine ⟨⟨?_, ?_⟩, hheld⟩
  · rw [held_length]
    exact hheld
  · rw [held_length, Function.update_self]

/-- What has been read once the loop stands at `e'` and leaves with `e''`. -/
theorem keyboardReadline_eq {max : ℤ} {e e' e'' : Editor} {p stream rest : List UInt8}
    (hafter : readlineAfter max { e with i := 0 } p = some e')
    (hloop : readlineLoop max e' stream = some (e'', rest)) :
    keyboardReadline max e (p ++ stream)
      = some ({ e'' with buf := Function.update e''.buf e''.i 0 }, rest) := by
  rw [keyboardReadline, readlineLoop_append hafter, hloop]
  rfl

/-- The call returns behind the line, with its text in the buffer. -/
theorem IsLine.read {max : ℤ} (hmax : 1 ≤ max) (e : Editor) {p : List UInt8} (h : IsLine max p)
    (rest : List UInt8) :
    ∃ e', keyboardReadline max e (p ++ rest) = some (e', rest)
      ∧ HoldsLine e'.buf (editedText (withoutEnter p)) ∧ e'.held = editedText (withoutEnter p) := by
  rcases List.eq_nil_or_concat p with rfl | ⟨p, c, rfl⟩
  · have hfull : ((0 : ℕ) : ℤ) = max - 1 := (h.1.resolve_left (by simp))
    have hstart : readlineAfter max { e with i := 0 } [] = some { e with i := 0 } := rfl
    exact ⟨_, keyboardReadline_eq hstart (readlineLoop_full hfull rest),
      (holdsLine_terminated _).1, (holdsLine_terminated _).2⟩
  · rw [List.concat_eq_append] at h ⊢
    obtain ⟨e1, hafter, hheld, hroom⟩ := readlineAfter_of_open hmax e h.open_of_append
    rw [List.append_assoc, List.singleton_append]
    by_cases hnl : c = 10
    · subst hnl
      have hloop : readlineLoop max e1 (10 :: rest)
          = some ({ e1 with vga := vgaPutchar e1.vga 10 }, rest) := by
        rw [readlineLoop, if_pos hroom]
        rfl
      rw [withoutEnter_append, ← hheld]
      exact ⟨_, keyboardReadline_eq hafter hloop,
        (holdsLine_terminated { e1 with vga := vgaPutchar e1.vga 10 }).1,
        (holdsLine_terminated { e1 with vga := vgaPutchar e1.vga 10 }).2⟩
    · obtain ⟨e2, hpass, hheld2⟩ := readlinePass_held e1 hnl
      rw [hheld, ← editedText_append] at hheld2
      have hfull : (e2.i : ℤ) = max - 1 := by
        rw [← held_length, hheld2]
        exact h.1.resolve_left (by simp [hnl])
      have hloop : readlineLoop max e1 (c :: rest) = some (e2, rest) := by
        rw [readlineLoop, if_pos hroom, hpass]
        exact readlineLoop_full hfull rest
      have hwith : withoutEnter (p ++ [c]) = p ++ [c] := by simp [withoutEnter, hnl]
      rw [hwith, ← hheld2]
      exact ⟨_, keyboardReadline_eq hafter hloop, (holdsLine_terminated e2).1,
        (holdsLine_terminated e2).2⟩

/-- The call waits as long as no prefix ends the line. -/
theorem keyboardReadline_of_open {max : ℤ} (hmax : 1 ≤ max) (e : Editor) {stream : List UInt8}
    (hopen : ∀ q, q <+: stream → ¬ LineEnds max q) : keyboardReadline max e stream = none := by
  obtain ⟨e', hafter, -, hroom⟩ := readlineAfter_of_open hmax e hopen
  have hloop := readlineLoop_append hafter []
  rw [List.append_nil, readlineLoop, if_pos hroom] at hloop
  rw [keyboardReadline, hloop]
  rfl

/-! ## The stores into the buffer -/

/-- The indices of `buf` that the loop stores to, in order, and then that of the terminator. -/
def readlineStores (max : ℤ) : Editor → List UInt8 → List ℕ
  | e, [] => if (e.i : ℤ) < max - 1 then [] else [e.i]
  | e, c :: stream =>
      if (e.i : ℤ) < max - 1 then
        match readlinePass e c with
        | .inl e' => [e'.i]
        | .inr e' => (if c = 8 then [] else [e.i]) ++ readlineStores max e' stream
      else [e.i]

/-- The stores of a call. -/
def keyboardReadlineStores (max : ℤ) (e : Editor) (stream : List UInt8) : List ℕ :=
  readlineStores max { e with i := 0 } stream

theorem readlinePass_inl {e e' : Editor} {c : UInt8} (h : readlinePass e c = .inl e') :
    e' = { e with vga := vgaPutchar e.vga 10 } := by
  unfold readlinePass at h
  split_ifs at h
  cases h
  rfl

theorem readlinePass_inr_i {e e' : Editor} {c : UInt8} (h : readlinePass e c = .inr e') :
    e'.i ≤ e.i + 1 := by
  unfold readlinePass at h
  split_ifs at h
  · cases h
    exact (Nat.sub_le _ _).trans (Nat.le_succ _)
  · cases h
    exact Nat.le_succ _
  · cases h
    exact Nat.le_refl _

theorem readlinePass_buf {e e' : Editor} {c : UInt8} (h : readlinePass e c = .inr e') {j : ℕ}
    (hj : j ∉ if c = 8 then [] else [e.i]) : e'.buf j = e.buf j := by
  unfold readlinePass at h
  split_ifs at h hj
  · cases h; rfl
  · cases h; rfl
  · cases h
    exact Function.update_of_ne (fun heq => hj (List.mem_singleton.2 heq)) _ _

/-- What is not stored to keeps its value. -/
theorem readlineLoop_buf {max : ℤ} {e e' : Editor} {stream rest : List UInt8}
    (h : readlineLoop max e stream = some (e', rest)) :
    e'.i ∈ readlineStores max e stream
      ∧ ∀ j, j ∉ readlineStores max e stream → e'.buf j = e.buf j := by
  induction stream generalizing e with
  | nil =>
      unfold readlineLoop at h
      unfold readlineStores
      split at h
      next => cases h
      next hfull =>
        cases h
        rw [if_neg hfull]
        exact ⟨List.mem_singleton_self _, fun _ _ => rfl⟩
  | cons c stream ih =>
      unfold readlineLoop at h
      unfold readlineStores
      split at h
      next hroom =>
        rw [if_pos hroom]
        rcases hpass : readlinePass e c with e1 | e1
        · simp only [hpass] at h ⊢
          cases h
          rw [readlinePass_inl hpass]
          exact ⟨List.mem_singleton_self _, fun _ _ => rfl⟩
        · simp only [hpass] at h ⊢
          obtain ⟨hend, hkeep⟩ := ih h
          refine ⟨List.mem_append_right _ hend, fun j hj => ?_⟩
          rw [List.mem_append, not_or] at hj
          exact (hkeep j hj.2).trans (readlinePass_buf hpass hj.1)
      next hfull =>
        cases h
        rw [if_neg hfull]
        exact ⟨List.mem_singleton_self _, fun _ _ => rfl⟩

theorem keyboardReadline_buf {max : ℤ} {e e' : Editor} {stream rest : List UInt8}
    (h : keyboardReadline max e stream = some (e', rest)) {j : ℕ}
    (hj : j ∉ keyboardReadlineStores max e stream) : e'.buf j = e.buf j := by
  obtain ⟨⟨e1, rest1⟩, hloop, heq⟩ := Option.map_eq_some_iff.1 h
  cases heq
  obtain ⟨hend, hkeep⟩ := readlineLoop_buf hloop
  have hne : j ≠ e1.i := by
    rintro rfl
    exact hj hend
  exact (Function.update_of_ne hne _ _).trans (hkeep j hj)

/-- The index moves both ways but stays below the limit, at which only the terminator is stored. -/
theorem readlineStores_lt {max : ℤ} {e : Editor} (hi : (e.i : ℤ) ≤ max - 1) (stream : List UInt8) :
    ∀ j ∈ readlineStores max e stream, (j : ℤ) < max := by
  induction stream generalizing e with
  | nil =>
      intro j hj
      unfold readlineStores at hj
      split at hj
      · cases hj
      · rw [List.mem_singleton.1 hj]
        omega
  | cons c stream ih =>
      intro j hj
      unfold readlineStores at hj
      split at hj
      next hroom =>
        rcases hpass : readlinePass e c with e1 | e1
        · simp only [hpass] at hj
          rw [List.mem_singleton.1 hj, readlinePass_inl hpass]
          show (e.i : ℤ) < max
          omega
        · simp only [hpass] at hj
          have hi1 : (e1.i : ℤ) ≤ max - 1 := by
            have hstep := readlinePass_inr_i hpass
            omega
          rcases List.mem_append.1 hj with hj | hj
          · split at hj
            · cases hj
            · rw [List.mem_singleton.1 hj]
              omega
          · exact ih hi1 j hj
      next =>
        rw [List.mem_singleton.1 hj]
        omega

/-- A call reads the shortest prefix that ends the line, and leaves its text and a NUL in the buffer;
    it waits on if there is none. All its stores are to cells below `max`. -/
theorem keyboardReadline_line (max : ℤ) (hmax : 1 ≤ max) (e : Editor) (stream : List UInt8) :
    (∀ p rest, stream = p ++ rest → IsLine max p →
        ∃ e', keyboardReadline max e stream = some (e', rest)
          ∧ HoldsLine e'.buf (editedText (withoutEnter p)))
      ∧ ((∀ p, p <+: stream → ¬ LineEnds max p) → keyboardReadline max e stream = none)
      ∧ (∀ j ∈ keyboardReadlineStores max e stream, (j : ℤ) ≤ max - 1)
      ∧ ∀ e' rest, keyboardReadline max e stream = some (e', rest) →
          ∀ j, j ∉ keyboardReadlineStores max e stream → e'.buf j = e.buf j := by
  refine ⟨?_, keyboardReadline_of_open hmax e, ?_, fun e' rest h j => keyboardReadline_buf h⟩
  · rintro p rest rfl hline
    obtain ⟨e', hread, hholds, -⟩ := hline.read hmax e rest
    exact ⟨e', hread, hholds⟩
  · intro j hj
    have hstart : (({ e with i := 0 } : Editor).i : ℤ) ≤ max - 1 := by
      show ((0 : ℕ) : ℤ) ≤ max - 1
      omega
    exact Int.le_sub_one_of_lt (readlineStores_lt hstart stream j hj)

/-- A letter is taken back, a second backspace finds the line empty. -/
theorem keyboardReadline_line_backspace :
    ∃ e', keyboardReadline 128 ⟨fun _ => 0, 0, blankScreen 0 0⟩ [97, 8, 8, 98, 10, 99]
        = some (e', [99])
      ∧ HoldsLine e'.buf [98] :=
  (keyboardReadline_line 128 (by decide) ⟨fun _ => 0, 0, blankScreen 0 0⟩
    [97, 8, 8, 98, 10, 99]).1 [97, 8, 8, 98, 10] [99] rfl
    ((fits_of_short (l := [97, 8, 8, 98]) (by decide)).isLine (by decide))

end BlackHole
