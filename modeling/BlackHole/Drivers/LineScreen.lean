import BlackHole.Drivers.Readline

set_option autoImplicit false

/-! # The screen while a line is edited

What `keyboard_readline` holds after each character is a matter of the characters (`editChar`), and so
is the position of the cursor if the echo of the held text is all that the screen shows (`textPos`).
A backspace erases one cell; a held tab may have filled more. -/

namespace BlackHole

/-! ## Editing a text -/

/-- What a character does to the text held. -/
def editChar (text : List UInt8) (c : UInt8) : List UInt8 :=
  if c = 8 then text.dropLast else text ++ [c]

/-- The cursor after the echo of a text. -/
def textPos (pos : ℤ) (text : List UInt8) : ℤ := text.foldl echoPos pos

/-- The text held after the characters, if each of them finds room, none is Enter and the echo stays
    on the screen. -/
def editRun (max pos : ℤ) : List UInt8 → List UInt8 → Option (List UInt8)
  | text, [] => some text
  | text, c :: p =>
      if (text.length : ℤ) < max - 1 ∧ c ≠ 10 ∧ textPos pos (editChar text c) < 2000 then
        editRun max pos (editChar text c) p
      else none

/-- Every tab that a backspace of the stream takes back was echoed in the last column before a tab
    stop, so that it filled one cell. -/
def TabsErasable (max pos : ℤ) (text stream : List UInt8) : Prop :=
  ∀ p b, p ++ [8] <+: stream → editRun max pos text p = some (b ++ [9]) →
    ((b ++ [9]).length : ℤ) < max - 1 → textPos pos b % 4 = 3

/-- After every character processed while nothing has scrolled, the screen shows what the echo of
    the held text alone would show; Enter, which ends the line, adds its newline. -/
def EditAgrees (max : ℤ) (start : Vga) (buf : ℕ → UInt8) (stream : List UInt8) : Prop :=
  ∀ p c e, p ++ [c] <+: stream → readlineAfter max ⟨buf, 0, start⟩ p = some e →
    (e.i : ℤ) < max - 1 →
    match readlinePass e c with
    | .inr e' => e'.vga.scrolls = start.scrolls → e'.vga.Same (echo start e'.held)
    | .inl e' => e'.vga.scrolls = start.scrolls → e'.vga.Same (echo start (e'.held ++ [10]))

theorem textPos_append (pos : ℤ) (text : List UInt8) (c : UInt8) :
    textPos pos (text ++ [c]) = echoPos (textPos pos text) c := by
  simp [textPos]

theorem le_textPos (pos : ℤ) (text : List UInt8) : pos + text.length ≤ textPos pos text := by
  induction text generalizing pos with
  | nil => simp [textPos]
  | cons c text ih =>
      have hstep := echoPos_range pos c
      have hrest := ih (echoPos pos c)
      show pos + ((text.length + 1 : ℕ) : ℤ) ≤ textPos (echoPos pos c) text
      omega

theorem echo_append (s : Vga) (text : List UInt8) (c : UInt8) :
    echo s (text ++ [c]) = vgaPutchar (echo s text) c := by
  simp [echo]

/-! ## The echo of a text -/

/-- The screen after a text that fits: the cursor behind it, blanks from there on. -/
structure Echoed (start : Vga) (text : List UInt8) : Prop where
  onScreen : (echo start text).OnScreen
  pos : (echo start text).pos = textPos start.pos text
  scrolls : (echo start text).scrolls = start.scrolls
  blank : ∀ k, textPos start.pos text ≤ k → k < 2000 → (echo start text).char k = 32

theorem Echoed.append {start : Vga} {text : List UInt8} (h : Echoed start text) {c : UInt8}
    (hc : FillsCells c) (hfits : textPos start.pos (text ++ [c]) < 2000) :
    Echoed start (text ++ [c]) := by
  rw [textPos_append, ← h.pos] at hfits
  have hwrote := vgaPutchar_echo h.onScreen hc hfits
  refine ⟨?_, ?_, ?_, ?_⟩
  · rw [echo_append]
    exact hwrote.onScreen
  · rw [echo_append, textPos_append, hwrote.pos, h.pos]
  · rw [echo_append, hwrote.scrolls, h.scrolls]
  · intro k hk h2000
    rw [textPos_append, ← h.pos] at hk
    have hstep := echoPos_range (echo start text).pos c
    have hpos := h.onScreen.pos_range
    rw [echo_append, hwrote.char k (by omega) h2000, if_neg (by omega)]
    exact h.blank k (by rw [← h.pos]; omega) h2000

theorem Echoed.of_fits {start : Vga} {text : List UInt8} (h : Echoed start [])
    (hfills : ∀ c ∈ text, FillsCells c) (hfits : textPos start.pos text < 2000) :
    Echoed start text := by
  induction text using List.reverseRecOn with
  | nil => exact h
  | append_singleton text c ih =>
      have hstep := echoPos_range (textPos start.pos text) c
      rw [← textPos_append] at hstep
      exact (ih (fun d hd => hfills d (by simp [hd])) (by omega)).append (hfills c (by simp)) hfits

/-! ## The invariant of the loop -/

/-- At the head of the loop, with `text` held: the screen shows its echo. -/
structure Edits (start : Vga) (e : Editor) (text : List UInt8) : Prop where
  held : e.held = text
  fills : ∀ c ∈ text, FillsCells c
  echoed : Echoed start text
  same : e.vga.Same (echo start text)
  scrolls : e.vga.scrolls = start.scrolls

theorem Edits.length {start : Vga} {e : Editor} {text : List UInt8} (h : Edits start e text) :
    e.i = text.length := by
  rw [← h.held]
  simp [Editor.held]

theorem Edits.onScreen {start : Vga} {e : Editor} {text : List UInt8} (h : Edits start e text) :
    e.vga.OnScreen :=
  ⟨h.same.row ▸ h.echoed.onScreen.row, h.same.col ▸ h.echoed.onScreen.col⟩

theorem Edits.pos {start : Vga} {e : Editor} {text : List UInt8} (h : Edits start e text) :
    e.vga.pos = textPos start.pos text :=
  h.same.pos.trans h.echoed.pos

theorem Edits.start {start : Vga} (buf : ℕ → UInt8) (hon : start.OnScreen)
    (hblank : ∀ k, start.pos ≤ k → k < 2000 → start.char k = 32) :
    Edits start ⟨buf, 0, start⟩ [] where
  held := rfl
  fills := by simp
  echoed := ⟨hon, rfl, rfl, hblank⟩
  same := ⟨rfl, rfl, fun _ _ _ => rfl⟩
  scrolls := rfl

theorem held_push (e : Editor) (c : UInt8) (v : Vga) :
    (⟨Function.update e.buf e.i c, e.i + 1, v⟩ : Editor).held = e.held ++ [c] := by
  show (List.range (e.i + 1)).map (Function.update e.buf e.i c)
    = (List.range e.i).map e.buf ++ [c]
  rw [List.range_succ, List.map_append, List.map_singleton, Function.update_self]
  congr 1
  apply List.map_congr_left
  intro j hj
  rw [Function.update_of_ne (by have := List.mem_range.1 hj; omega)]

theorem held_pop {e : Editor} {b : List UInt8} {c : UInt8} (h : e.held = b ++ [c]) (v : Vga) :
    (⟨e.buf, e.i - 1, v⟩ : Editor).held = b := by
  have hlen : e.i = b.length + 1 := by
    have := congrArg List.length h
    simpa [Editor.held] using this
  have htake : (List.range (e.i - 1)).map e.buf = e.held.take (e.i - 1) := by
    unfold Editor.held
    rw [← List.map_take, List.take_range]
    congr 2
    omega
  show (List.range (e.i - 1)).map e.buf = b
  rw [htake, h, hlen]
  simp

/-! ## One character -/

/-- A character that is kept. -/
theorem Edits.push {start : Vga} {e : Editor} {text : List UInt8} (h : Edits start e text)
    {c : UInt8} (hc : FillsCells c) (hfits : textPos start.pos (text ++ [c]) < 2000) :
    Edits start ⟨Function.update e.buf e.i c, e.i + 1, vgaPutchar e.vga c⟩ (text ++ [c]) := by
  have hq : echoPos e.vga.pos c < 2000 := by
    rw [textPos_append] at hfits
    rw [h.pos]
    exact hfits
  refine ⟨?_, ?_, h.echoed.append hc hfits, ?_, ?_⟩
  · rw [held_push, h.held]
  · intro d hd
    rcases List.mem_append.1 hd with hd | hd
    · exact h.fills d hd
    · rw [List.mem_singleton.1 hd]
      exact hc
  · rw [echo_append]
    exact h.same.putchar h.onScreen hc hq
  · exact (vgaPutchar_echo h.onScreen hc hq).scrolls.trans h.scrolls

theorem Edits.push_scrolls {start : Vga} {e : Editor} {text : List UInt8} (h : Edits start e text)
    {c : UInt8} (hc : FillsCells c) (hfull : 2000 ≤ textPos start.pos (text ++ [c])) :
    (vgaPutchar e.vga c).scrolls ≠ start.scrolls := by
  have hq : 2000 ≤ echoPos e.vga.pos c := by
    rw [textPos_append] at hfull
    rw [h.pos]
    exact hfull
  rw [vgaPutchar_scrolls h.onScreen hc hq, h.scrolls]
  omega

/-- Erasing on the screen takes the cursor one cell back. -/
theorem Edits.erase {start : Vga} {e : Editor} {b : List UInt8} {c : UInt8}
    (hstart : 0 ≤ start.pos) (h : Edits start e (b ++ [c])) :
    e.vga.Wrote (vgaPrint e.vga [8, 32, 8]) (echoPos (textPos start.pos b) c - 1) fun k =>
      if k = echoPos (textPos start.pos b) c - 1 then 32 else e.vga.char k := by
  have hpos : e.vga.pos = echoPos (textPos start.pos b) c := by
    rw [h.pos, textPos_append]
  have hle := le_textPos start.pos b
  have hstep := echoPos_range (textPos start.pos b) c
  rw [← hpos]
  exact vgaPrint_erase h.onScreen (by omega)

/-- A character that filled one cell is erased from the screen with its place in the buffer. -/
theorem Edits.pop {start : Vga} {e : Editor} {b : List UInt8} {c : UInt8}
    (hstart : 0 ≤ start.pos) (h : Edits start e (b ++ [c])) (hb : Echoed start b)
    (hone : echoPos (textPos start.pos b) c = textPos start.pos b + 1) :
    Edits start ⟨e.buf, e.i - 1, vgaPrint e.vga [8, 32, 8]⟩ b := by
  have herase := h.erase hstart
  have hfits : echoPos (echo start b).pos c < 2000 := by
    have := h.onScreen.pos_range
    rw [hb.pos, ← textPos_append, ← h.pos]
    omega
  have hecho := vgaPutchar_echo hb.onScreen (h.fills c (by simp)) hfits
  rw [← echo_append, hb.pos, hone] at hecho
  rw [hone] at herase
  refine ⟨held_pop h.held _, fun d hd => h.fills d (by simp [hd]), hb, ?_,
    herase.scrolls.trans h.scrolls⟩
  refine herase.onScreen.same_of_pos hb.onScreen (by rw [herase.pos, hb.pos]; omega) ?_
  intro k hk0 hk1
  rw [herase.char k hk0 hk1, h.same.char k hk0 hk1, hecho.char k hk0 hk1]
  by_cases hk : k = textPos start.pos b
  · rw [if_pos (by omega), hb.blank k (by omega) hk1]
  · rw [if_neg (by omega), if_neg (by omega)]

/-- A tab that filled more than one cell leaves the cursor behind the rest of the text. -/
theorem Edits.pop_differs {start : Vga} {e : Editor} {b : List UInt8} {c : UInt8}
    (hstart : 0 ≤ start.pos) (h : Edits start e (b ++ [c])) (hb : Echoed start b)
    (hmore : echoPos (textPos start.pos b) c ≠ textPos start.pos b + 1) :
    ¬ (vgaPrint e.vga [8, 32, 8]).Same (echo start b) := by
  intro hsame
  have hpos := hsame.pos
  rw [(h.erase hstart).pos, hb.pos] at hpos
  omega

theorem echoPos_eq_succ_iff (p : ℤ) (c : UInt8) :
    echoPos p c = p + 1 ↔ (c = 9 → p % 4 = 3) := by
  unfold echoPos
  by_cases hc : c = 9
  · rw [if_pos hc]
    constructor
    · intro h _
      omega
    · intro h
      have := h hc
      omega
  · rw [if_neg hc]
    exact ⟨fun _ h => absurd h hc, fun _ => rfl⟩

/-- The pass that processes one character: within the screen it keeps the invariant, and it leaves
    the screen by scrolling. -/
theorem Edits.pass {start : Vga} {e : Editor} {text : List UInt8} (hstart : Echoed start [])
    (h : Edits start e text) {c : UInt8} (hc : Deliverable c) (hnl : c ≠ 10)
    (htab : c = 8 → ∀ b, text = b ++ [9] → textPos start.pos b % 4 = 3) :
    ∃ e', readlinePass e c = .inr e'
      ∧ (textPos start.pos (editChar text c) < 2000 → Edits start e' (editChar text c))
      ∧ (e'.vga.scrolls = start.scrolls → textPos start.pos (editChar text c) < 2000) := by
  have hfits : textPos start.pos text < 2000 := by
    rw [← h.pos]
    exact h.onScreen.pos_range.2
  have hstart0 : 0 ≤ start.pos := hstart.onScreen.pos_range.1
  unfold readlinePass editChar
  by_cases hbs : c = 8
  · rw [if_neg hnl, if_pos hbs, if_pos hbs]
    rcases List.eq_nil_or_concat text with rfl | ⟨b, d, rfl⟩
    · have hi : ¬ e.i > 0 := by
        rw [h.length]
        simp
      rw [if_neg hi]
      exact ⟨e, rfl, fun _ => h, fun _ => hfits⟩
    · rw [List.concat_eq_append] at h hfits htab ⊢
      have hi : e.i > 0 := by
        rw [h.length]
        simp
      have hstep := echoPos_range (textPos start.pos b) d
      rw [textPos_append] at hfits
      have hb : Echoed start b :=
        hstart.of_fits (fun x hx => h.fills x (by simp [hx])) (by omega)
      have hone : echoPos (textPos start.pos b) d = textPos start.pos b + 1 := by
        rw [echoPos_eq_succ_iff]
        rintro rfl
        exact htab hbs b rfl
      rw [if_pos hi, List.dropLast_concat]
      exact ⟨_, rfl, fun _ => h.pop hstart0 hb hone, fun _ => by omega⟩
  · have hfill := hc.fillsCells hbs hnl
    rw [if_neg hnl, if_neg hbs, if_neg hbs]
    refine ⟨_, rfl, fun hin => h.push hfill hin, fun hscr => ?_⟩
    by_contra hout
    exact h.push_scrolls hfill (by omega) hscr

/-! ## The whole line -/

theorem vgaTabFill_scrolls (next : ℤ) (s : Vga) : (vgaTabFill next s).scrolls = s.scrolls := by
  fun_induction vgaTabFill next s with
  | case1 s _ ih => exact ih
  | case2 s _ => rfl

theorem vgaNewline_scrolls_le (s : Vga) : s.scrolls ≤ (vgaNewline s).scrolls := by
  unfold vgaNewline
  dsimp only
  split
  · exact Nat.le_succ _
  · exact Nat.le_refl _

theorem vgaWrap_scrolls_le (s : Vga) : s.scrolls ≤ (vgaWrap s).scrolls := by
  unfold vgaWrap
  split
  · exact vgaNewline_scrolls_le s
  · exact Nat.le_refl _

theorem vgaPutchar_scrolls_le (s : Vga) (c : UInt8) : s.scrolls ≤ (vgaPutchar s c).scrolls := by
  unfold vgaPutchar
  dsimp only
  split_ifs
  · exact Nat.le_refl _
  · exact Nat.le_refl _
  · exact Nat.le_refl _
  · exact vgaNewline_scrolls_le s
  · exact Nat.le_refl _
  · exact (vgaTabFill_scrolls _ s).ge.trans (vgaWrap_scrolls_le _)
  · exact (Nat.le_refl _).trans (vgaWrap_scrolls_le
      { vgaStoreCell s (vgaOffset s.cursorRow s.cursorCol) c with cursorCol := s.cursorCol + 1 })

theorem readlinePass_scrolls_le {e e' : Editor} {c : UInt8} (h : readlinePass e c = .inr e') :
    e.vga.scrolls ≤ e'.vga.scrolls := by
  unfold readlinePass at h
  split_ifs at h <;> cases h
  · show e.vga.scrolls ≤ (vgaPutchar (vgaPutchar (vgaPutchar e.vga 8) 32) 8).scrolls
    exact ((vgaPutchar_scrolls_le _ _).trans (vgaPutchar_scrolls_le _ _)).trans
      (vgaPutchar_scrolls_le _ _)
  · exact Nat.le_refl _
  · exact vgaPutchar_scrolls_le _ _

theorem readlineAfter_scrolls_le {max : ℤ} {e e' : Editor} {p : List UInt8}
    (h : readlineAfter max e p = some e') : e.vga.scrolls ≤ e'.vga.scrolls := by
  induction p generalizing e with
  | nil => rw [Option.some.inj h]
  | cons c p ih =>
      unfold readlineAfter at h
      split at h
      next =>
        rcases hpass : readlinePass e c with e1 | e1
        · simp [hpass] at h
        · simp only [hpass] at h
          exact (readlinePass_scrolls_le hpass).trans (ih h)
      next => cases h

theorem TabsErasable.tail {max pos : ℤ} {text stream : List UInt8} {c : UInt8}
    (h : TabsErasable max pos text (c :: stream)) (hroom : (text.length : ℤ) < max - 1)
    (hnl : c ≠ 10) (hfits : textPos pos (editChar text c) < 2000) :
    TabsErasable max pos (editChar text c) stream := by
  intro p b hp hrun hlen
  refine h (c :: p) b ?_ ?_ hlen
  · exact (List.prefix_cons_inj c).2 hp
  · rw [editRun, if_pos ⟨hroom, hnl, hfits⟩]
    exact hrun

/-- The characters processed without scrolling keep the invariant. -/
theorem Edits.run {start : Vga} {max : ℤ} (hstart : Echoed start []) {p : List UInt8} :
    ∀ {e : Editor} {text : List UInt8}, Edits start e text → (∀ c ∈ p, Deliverable c) →
      TabsErasable max start.pos text p → ∀ {e' : Editor}, readlineAfter max e p = some e' →
      e'.vga.scrolls = start.scrolls →
      ∃ text', editRun max start.pos text p = some text' ∧ Edits start e' text' := by
  induction p with
  | nil =>
      intro e text h _ _ e' hrun _
      exact ⟨text, rfl, Option.some.inj hrun ▸ h⟩
  | cons c p ih =>
      intro e text h hdel htabs e' hrun hscr
      have hroom : (e.i : ℤ) < max - 1 := by
        by_contra hfull
        rw [readlineAfter, if_neg hfull] at hrun
        cases hrun
      have hnl : c ≠ 10 := by
        rintro rfl
        simp [readlineAfter, readlinePass] at hrun
      have hroom' : (text.length : ℤ) < max - 1 := h.length ▸ hroom
      obtain ⟨e1, hpass, hkeep, hout⟩ := h.pass hstart (hdel c (List.mem_cons_self ..)) hnl
        fun hbs b hb => htabs [] b (by simp [hbs]) (by rw [hb]; rfl) (hb ▸ hroom')
      rw [readlineAfter, if_pos hroom, hpass] at hrun
      have hscr1 : e1.vga.scrolls = start.scrolls := by
        have h1 := readlinePass_scrolls_le hpass
        have h2 := readlineAfter_scrolls_le hrun
        have h3 := h.scrolls
        omega
      have hfits := hout hscr1
      obtain ⟨text', hedit, hedits⟩ := ih (hkeep hfits)
        (fun d hd => hdel d (List.mem_cons_of_mem _ hd)) (htabs.tail hroom' hnl hfits) hrun hscr
      refine ⟨text', ?_, hedits⟩
      rw [editRun, if_pos ⟨hroom', hnl, hfits⟩]
      exact hedit

/-- Characters that the editing of the text gets past are processed without scrolling. -/
theorem Edits.run_of_editRun {start : Vga} {max : ℤ} (hstart : Echoed start []) {p : List UInt8} :
    ∀ {e : Editor} {text : List UInt8}, Edits start e text → (∀ c ∈ p, Deliverable c) →
      TabsErasable max start.pos text p → ∀ {text' : List UInt8},
      editRun max start.pos text p = some text' →
      ∃ e', readlineAfter max e p = some e' ∧ Edits start e' text' := by
  induction p with
  | nil =>
      intro e text h _ _ text' hrun
      exact ⟨e, rfl, Option.some.inj hrun ▸ h⟩
  | cons c p ih =>
      intro e text h hdel htabs text' hrun
      rw [editRun] at hrun
      split at hrun
      next hgo =>
        obtain ⟨hroom, hnl, hfits⟩ := hgo
        obtain ⟨e1, hpass, hkeep, -⟩ := h.pass hstart (hdel c (List.mem_cons_self ..)) hnl
          fun hbs b hb => htabs [] b (by simp [hbs]) (by rw [hb]; rfl) (hb ▸ hroom)
        obtain ⟨e', hafter, hedits⟩ := ih (hkeep hfits)
          (fun d hd => hdel d (List.mem_cons_of_mem _ hd)) (htabs.tail hroom hnl hfits) hrun
        refine ⟨e', ?_, hedits⟩
        rw [readlineAfter, if_pos (h.length ▸ hroom), hpass]
        exact hafter
      next => cases hrun

theorem TabsErasable.of_prefix {max pos : ℤ} {text stream p : List UInt8}
    (h : TabsErasable max pos text stream) (hp : p <+: stream) : TabsErasable max pos text p :=
  fun p' b hp' => h p' b (hp'.trans hp)

/-- A newline that does not scroll. -/
theorem Vga.Same.newline {s t : Vga} (hst : s.Same t) (hs : s.OnScreen)
    (hscr : (vgaNewline s).scrolls = s.scrolls) : (vgaNewline s).Same (vgaNewline t) := by
  have hrow : s.cursorRow < 24 := by
    by_contra hlast
    have hscroll := (vgaNewline_last (show s.cursorRow = 24 by have := hs.row; omega)).scrolls
    rw [hscr] at hscroll
    exact absurd hscroll (Nat.ne_of_lt (Nat.lt_succ_self _))
  rw [vgaNewline_above hrow, vgaNewline_above (hst.row ▸ hrow)]
  exact ⟨congrArg (· + 1) hst.row, rfl, hst.char⟩

theorem EditAgrees.of_tabsErasable {start : Vga} {max : ℤ} {buf : ℕ → UInt8} {stream : List UInt8}
    (hstart : Echoed start []) (h0 : Edits start ⟨buf, 0, start⟩ [])
    (hdel : ∀ c ∈ stream, Deliverable c) (htabs : TabsErasable max start.pos [] stream) :
    EditAgrees max start buf stream := by
  intro p c e hp hafter hroom
  have hpre : p <+: stream := (List.prefix_append p [c]).trans hp
  have hcdel : Deliverable c := hdel c (hp.subset (by simp))
  -- while nothing has scrolled, the invariant holds before this character
  have hinv : e.vga.scrolls = start.scrolls →
      ∃ text, editRun max start.pos [] p = some text ∧ Edits start e text :=
    h0.run hstart (fun d hd => hdel d (hpre.subset hd)) (htabs.of_prefix hpre) hafter
  have hle : start.scrolls ≤ e.vga.scrolls := readlineAfter_scrolls_le hafter
  by_cases hnl : c = 10
  · have hpass : readlinePass e c = .inl { e with vga := vgaPutchar e.vga 10 } := if_pos hnl
    rw [hpass]
    intro hscr
    have hscr' : (vgaPutchar e.vga 10).scrolls = start.scrolls := hscr
    have hle' := vgaPutchar_scrolls_le e.vga 10
    obtain ⟨text, -, hedits⟩ := hinv (by omega)
    show (vgaNewline e.vga).Same (echo start (e.held ++ [10]))
    rw [hedits.held, echo_append]
    exact hedits.same.newline hedits.onScreen (hscr'.trans hedits.scrolls.symm)
  · rcases hpass : readlinePass e c with e' | e'
    · unfold readlinePass at hpass
      split_ifs at hpass
    · intro hscr
      have hle' := readlinePass_scrolls_le hpass
      obtain ⟨text, hrun, hedits⟩ := hinv (by omega)
      obtain ⟨e1, hpass1, hkeep, hout⟩ := hedits.pass hstart hcdel hnl fun hbs b hb =>
        htabs p b (hbs ▸ hp) (hb ▸ hrun) (by rw [← hb, ← hedits.length]; exact hroom)
      rw [hpass, Sum.inr.injEq] at hpass1
      subst hpass1
      have hedits' := hkeep (hout hscr)
      rw [hedits'.held]
      exact hedits'.same

theorem EditAgrees.tabsErasable {start : Vga} {max : ℤ} {buf : ℕ → UInt8} {stream : List UInt8}
    (hstart : Echoed start []) (h0 : Edits start ⟨buf, 0, start⟩ [])
    (hdel : ∀ c ∈ stream, Deliverable c) (hagrees : EditAgrees max start buf stream) :
    TabsErasable max start.pos [] stream := by
  intro p
  -- at the first backspace that takes back a wide tab the screen goes wrong, so induct on `p`
  induction hn : p.length using Nat.strong_induction_on generalizing p with
  | _ n ih =>
      intro b hp hrun hlen
      have hpre : p <+: stream := (List.prefix_append p [8]).trans hp
      have htabs : TabsErasable max start.pos [] p := by
        intro p' b' hp'
        have hlt : p'.length < n := by
          have := hp'.length_le
          rw [List.length_append, List.length_singleton] at this
          omega
        exact ih p'.length hlt p' rfl b' (hp'.trans hpre)
      obtain ⟨e, hafter, hedits⟩ := h0.run_of_editRun hstart
        (fun d hd => hdel d (hpre.subset hd)) htabs hrun
      have hstart0 : 0 ≤ start.pos := hstart.onScreen.pos_range.1
      have hi : e.i > 0 := by
        rw [hedits.length]
        simp
      have hpass : readlinePass e 8
          = .inr ⟨e.buf, e.i - 1, vgaPrint e.vga [8, 32, 8]⟩ := by
        unfold readlinePass
        rw [if_neg (by decide), if_pos rfl, if_pos hi]
      have hb : Echoed start b := by
        refine hstart.of_fits (fun x hx => hedits.fills x (by simp [hx])) ?_
        have hstep := echoPos_range (textPos start.pos b) 9
        have hpos := hedits.onScreen.pos_range
        rw [hedits.pos, textPos_append] at hpos
        omega
      have hsame := hagrees p 8 e hp hafter (by rw [hedits.length]; exact hlen)
      rw [hpass] at hsame
      by_contra hwide
      refine hedits.pop_differs hstart0 hb ?_ ?_
      · rw [Ne, echoPos_eq_succ_iff]
        exact fun h => hwide (h rfl)
      · have hheld := hsame ((hedits.erase hstart0).scrolls.trans hedits.scrolls)
        rwa [held_pop hedits.held] at hheld

/-- From a cursor with blank cells behind it, screen and line buffer agree after every character
    processed exactly when no backspace takes back a tab that filled more than one cell. -/
theorem readline_screen_agrees_iff (max : ℤ) (start : Vga) (buf : ℕ → UInt8) (stream : List UInt8)
    (hon : start.OnScreen) (hblank : ∀ k, start.pos ≤ k → k < 2000 → start.char k = 32)
    (hdel : ∀ c ∈ stream, Deliverable c) :
    EditAgrees max start buf stream ↔ TabsErasable max start.pos [] stream := by
  have hstart : Echoed start [] := ⟨hon, rfl, rfl, hblank⟩
  have h0 := Edits.start buf hon hblank
  exact ⟨fun h => h.tabsErasable hstart h0 hdel, EditAgrees.of_tabsErasable hstart h0 hdel⟩

/-- A blank screen in light grey, the cursor in this row and column. -/
def blankScreen (row col : ℤ) : Vga := ⟨fun _ => 32, row, col, 7, [], 0⟩

/-- The tab typed in column 75 fills one cell, which the backspace takes back. -/
theorem readline_screen_agrees_iff_tab :
    EditAgrees 128 (blankScreen 3 74) (fun _ => 0) [97, 9, 8, 98] := by
  refine (readline_screen_agrees_iff 128 (blankScreen 3 74) (fun _ => 0) [97, 9, 8, 98]
    ⟨by decide, by decide⟩ (fun _ _ _ => rfl) ?_).2 ?_
  · intro c hc
    simp only [List.mem_cons, List.not_mem_nil, or_false] at hc
    rcases hc with rfl | rfl | rfl | rfl
    all_goals exact ⟨by decide, Or.inl (by decide +kernel)⟩
  · intro p b hp hrun _
    obtain rfl : p = [97, 9] := by
      obtain ⟨rest, heq⟩ := hp
      match p with
      | [] | [_] | [_, _, _] => simp at heq
      | [_, _] => simp_all
      | _ :: _ :: _ :: _ :: _ => simp at heq
    obtain rfl : b = [97] := by
      have hrun' : editRun 128 (blankScreen 3 74).pos [] [97, 9] = some [97, 9] := by decide +kernel
      rw [hrun'] at hrun
      exact (List.append_cancel_right (Option.some.inj hrun)).symm
    decide +kernel

/-- A tab and a backspace at the start of an empty screen: the buffer is empty again, the cursor is
    in column 3. -/
theorem readline_tab_backspace :
    (blankScreen 0 0).OnScreen
      ∧ (∀ k, (blankScreen 0 0).pos ≤ k → k < 2000 → (blankScreen 0 0).char k = 32)
      ∧ (∀ c ∈ ([9, 8] : List UInt8), Deliverable c)
      ∧ ¬ EditAgrees 128 (blankScreen 0 0) (fun _ => 0) [9, 8] := by
  have hon : (blankScreen 0 0).OnScreen := ⟨by decide, by decide⟩
  refine ⟨hon, fun _ _ _ => rfl, ?_, fun hagrees => ?_⟩
  · intro c hc
    rcases List.mem_cons.1 hc with rfl | hc
    · exact ⟨by decide, Or.inl (by decide +kernel)⟩
    · rw [List.mem_singleton.1 hc]
      exact ⟨by decide, Or.inl (by decide +kernel)⟩
  · have hstart : Echoed (blankScreen 0 0) [] := ⟨hon, rfl, rfl, fun _ _ _ => rfl⟩
    have htab := (Edits.start (fun _ => 0) hstart.onScreen hstart.blank).push (c := 9)
      ⟨by decide, by decide, by decide⟩ (by decide)
    have hafter : readlineAfter 128 ⟨fun _ => 0, 0, blankScreen 0 0⟩ [9]
        = some ⟨Function.update (fun _ => 0) 0 9, 1, vgaPutchar (blankScreen 0 0) 9⟩ := by
      simp [readlineAfter, readlinePass]
    have hsame := hagrees [9] 8 _ (List.prefix_refl _) hafter (by decide)
    have hheld := hsame ((htab.erase (b := []) (by decide)).scrolls.trans htab.scrolls)
    rw [held_pop (b := []) htab.held] at hheld
    exact htab.pop_differs (b := []) (by decide) hstart (by decide) hheld

end BlackHole
