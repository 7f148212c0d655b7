import BlackHole.Drivers.Terminal
import BlackHole.Lib.Machine
import BlackHole.Libc.Formats

set_option autoImplicit false

/-! # The console

The functions of `libc/stdio.c` on top of `drivers/vga.c`. The colours that are stored with the
characters do not decide where text goes (`SameText`), so the screen shows the layout of everything
that was printed since it was cleared, whatever the colours (`console_shows`). -/

namespace BlackHole

open Screen

/-! ## Screens with the same text -/

/-- The two have the same characters and the same cursor. -/
structure SameText (s t : Vga) : Prop where
  row : s.cursorRow = t.cursorRow
  col : s.cursorCol = t.cursorCol
  char : ∀ k : ℤ, 0 ≤ k → k < 2000 → s.buffer (2 * k) = t.buffer (2 * k)

section

variable {s t s' t' : Vga}

/-- Two screens that are painted alike, but for the colours. -/
theorem SameText.of_paints {f g : ℤ → UInt8} (hs : s.Paints s' f) (ht : t.Paints t' g)
    (hrow : s.cursorRow = t.cursorRow) (hcol : s.cursorCol = t.cursorCol)
    (hfg : ∀ k : ℤ, 0 ≤ k → k < 2000 → f (2 * k) = g (2 * k)) : SameText s' t' where
  row := hs.row.trans (hrow.trans ht.row.symm)
  col := hs.col.trans (hcol.trans ht.col.symm)
  char := fun k h0 hk => (hs.buffer _).trans ((hfg k h0 hk).trans (ht.buffer _).symm)

theorem SameText.newline (h : SameText s t) (hrow : s.cursorRow ≤ 24) :
    SameText (vgaNewline s) (vgaNewline t) := by
  have hrow' := h.row
  rcases Int.lt_or_le s.cursorRow 24 with habove | hlast
  · rw [vgaNewline_above habove, vgaNewline_above (by omega)]
    exact ⟨congrArg (· + 1) h.row, rfl, h.char⟩
  · refine SameText.of_paints (vgaNewline_last (by omega)) (vgaNewline_last (by omega)) rfl rfl ?_
    intro k h0 hk
    unfold blanked shifted
    by_cases hbottom : 3840 ≤ 2 * k ∧ 2 * k < 3840 + 160
    · rw [if_pos hbottom, if_pos hbottom, if_pos (by omega), if_pos (by omega)]
    · rw [if_neg hbottom, if_neg hbottom, if_pos (by omega), if_pos (by omega),
        show 2 * k + 160 = 2 * (k + 80) by omega]
      exact h.char _ (by omega) (by omega)

theorem SameText.wrap (h : SameText s t) (hrow : s.cursorRow ≤ 24) :
    SameText (vgaWrap s) (vgaWrap t) := by
  unfold vgaWrap
  rw [h.col]
  split
  · exact h.newline hrow
  · exact h

theorem SameText.storeCell (h : SameText s t) (hrow : 0 ≤ s.cursorRow ∧ s.cursorRow < 25)
    (hcol : 0 ≤ s.cursorCol ∧ s.cursorCol < 80) (c : UInt8) :
    SameText
      { vgaStoreCell s (vgaOffset s.cursorRow s.cursorCol) c with cursorCol := s.cursorCol + 1 }
      { vgaStoreCell t (vgaOffset t.cursorRow t.cursorCol) c with
        cursorCol := t.cursorCol + 1 } := by
  have hoff : vgaOffset t.cursorRow t.cursorCol = vgaOffset s.cursorRow s.cursorCol := by
    rw [h.row, h.col]
  have hin : 0 ≤ vgaOffset s.cursorRow s.cursorCol ∧
      vgaOffset s.cursorRow s.cursorCol + 1 < 4000 := by
    rw [vgaOffset_eq]
    omega
  have hs := (Vga.Paints.self s).storeCell (c := c) hin fun _ => rfl
  have ht := (Vga.Paints.self t).storeCell (c := c) hin fun _ => rfl
  rw [hoff]
  refine ⟨hs.row.trans (h.row.trans ht.row.symm), congrArg (· + 1) h.col, fun k h0 hk => ?_⟩
  refine (hs.buffer _).trans (Eq.trans ?_ (ht.buffer _).symm)
  have hodd : ¬ 2 * k = vgaOffset s.cursorRow s.cursorCol + 1 := by
    rw [vgaOffset_eq]
    omega
  rw [if_neg hodd, if_neg hodd]
  split
  · rfl
  · exact h.char k h0 hk

theorem SameText.tabFill (h : SameText s t) (hrow : 0 ≤ s.cursorRow ∧ s.cursorRow < 25) {n : ℕ}
    (hcol : 0 ≤ s.cursorCol ∧ s.cursorCol + n ≤ 80) :
    SameText (vgaTabFill (s.cursorCol + n) s) (vgaTabFill (t.cursorCol + n) t) := by
  have hr := h.row
  have hc := h.col
  refine SameText.of_paints
    (vgaTabFill_paints hcol.2 n s hrow.1 hrow.2 hcol.1 rfl)
    (vgaTabFill_paints (by omega) n t (by omega) (by omega) (by omega) rfl) h.row
    (congrArg (· + (n : ℤ)) h.col) ?_
  intro k h0 hk
  unfold blanked
  rw [← h.row, ← h.col, vgaOffset_eq]
  split
  · rw [if_pos (by omega), if_pos (by omega)]
  · exact h.char k h0 hk

/-- A character goes where it goes whatever the colours are. -/
theorem SameText.putchar (h : SameText s t) (hrow : 0 ≤ s.cursorRow ∧ s.cursorRow < 25)
    (hcol : 0 ≤ s.cursorCol ∧ s.cursorCol < 80) {c : UInt8} (hbs : c ≠ 8) :
    SameText (vgaPutchar s c) (vgaPutchar t c) := by
  unfold vgaPutchar
  rw [if_neg hbs, if_neg hbs]
  by_cases hnl : c = 10
  · rw [if_pos hnl, if_pos hnl]
    exact h.newline (by omega)
  rw [if_neg hnl, if_neg hnl]
  by_cases hcr : c = 13
  · rw [if_pos hcr, if_pos hcr]
    exact ⟨h.row, rfl, h.char⟩
  rw [if_neg hcr, if_neg hcr]
  by_cases htab : c = 9
  · obtain ⟨n, hn, hstop⟩ : ∃ n : ℕ, (s.cursorCol + 4) / 4 * 4 = s.cursorCol + n ∧
        s.cursorCol + n ≤ 80 := ⟨((s.cursorCol + 4) / 4 * 4 - s.cursorCol).toNat, by omega, by omega⟩
    rw [if_pos htab, if_pos htab, ← h.col, hn]
    have hfill := h.tabFill hrow ⟨hcol.1, hstop⟩
    rw [← h.col] at hfill
    refine hfill.wrap ?_
    have hpaints := vgaTabFill_paints hstop n s hrow.1 hrow.2 hcol.1 rfl
    rw [hpaints.row]
    exact Int.lt_add_one_iff.1 hrow.2
  · rw [if_neg htab, if_neg htab]
    exact (h.storeCell hrow hcol c).wrap (Int.lt_add_one_iff.1 hrow.2)

end

/-! ## Screens that show a text -/

/-- The screen shows the last 25 lines of the text, in some colours. -/
def TextShown (s : Vga) (text : List UInt8) : Prop :=
  ∃ t color, SameText s t ∧ Shows t color (layout text) ∧ (layout text).current.length < 80

section

variable {s : Vga} {text : List UInt8}

theorem TextShown.clear (s : Vga) : TextShown (vgaClear s) [] :=
  ⟨vgaClear s, s.currentColor, ⟨rfl, rfl, fun _ _ _ => rfl⟩, Shows.clear s, show 0 < 80 by decide⟩

theorem TextShown.setColor (h : TextShown s text) (fg bg : UInt8) :
    TextShown (vgaSetColor s fg bg) text := by
  obtain ⟨t, color, hsame, hshows⟩ := h
  exact ⟨t, color, ⟨hsame.row, hsame.col, hsame.char⟩, hshows⟩

theorem TextShown.putchar (h : TextShown s text) {c : UInt8} (hbs : c ≠ 8) (hcr : c ≠ 13) :
    TextShown (vgaPutchar s c) (text ++ [c]) := by
  obtain ⟨t, color, hsame, hshows, hfits⟩ := h
  obtain ⟨hshows', hfits'⟩ := hshows.putchar hfits hbs hcr
  have hrow := hshows.cursorRow_lt
  have hcol := hshows.col
  rw [← hsame.row] at hrow
  rw [← hsame.col] at hcol
  have hlayout : layout (text ++ [c]) = layoutChar (layout text) c := by
    rw [layout, List.foldl_append]
    rfl
  exact ⟨_, color, hsame.putchar hrow (by omega) hbs, hlayout ▸ hshows', hlayout ▸ hfits'⟩

theorem TextShown.putchars (h : TextShown s text) {chars : List UInt8}
    (hchars : ∀ c ∈ chars, c ≠ 8 ∧ c ≠ 13) :
    TextShown (chars.foldl vgaPutchar s) (text ++ chars) := by
  induction chars generalizing s text with
  | nil => rwa [List.append_nil]
  | cons c chars ih =>
      obtain ⟨hbs, hcr⟩ := hchars c (List.mem_cons_self ..)
      have hrest := ih (h.putchar hbs hcr) fun d hd => hchars d (List.mem_cons_of_mem c hd)
      rwa [List.append_assoc] at hrest

/-- What such a screen shows in its cells and where its cursor is. -/
theorem TextShown.cells (h : TextShown s text) :
    (∀ r c : ℕ, r < 25 → c < 80 → s.buffer (vgaOffset r c) = (layout text).cell 32 25 r c) ∧
      s.cursorRow = (layout text).row 25 ∧ s.cursorCol = (layout text).current.length := by
  obtain ⟨t, color, hsame, hshows, -⟩ := h
  refine ⟨fun r c hr hc => ?_, hsame.row.trans hshows.row, hsame.col.trans hshows.col⟩
  rw [← hshows.char r c hr hc, vgaOffset_eq, show 160 * (r : ℤ) + 2 * c = 2 * (80 * r + c) by omega]
  exact hsame.char _ (by omega) (by omega)

end

/-! ## Calls -/

/-- A call that prints. Behind the format of a `printf` lies `va`. -/
inductive ConsoleCall where
  | output (o : Output) (va : VaList)
  | putchar (c : ℕ)
  | puts (str : List UInt8)

/-- `putchar` -/
def putchar (s : Vga) (c : ℕ) : ℤ × Vga := (toInt c, vgaPutchar s (UInt8.ofNat c))

/-- `puts` -/
def puts (s : Vga) (str : List UInt8) : ℤ × Vga := (0, vgaPutchar (vgaPrint s str) 10)

/-- The call on the screen; the answer is what the function returns. -/
def ConsoleCall.exec (fuel : ℕ) (s : Vga) : ConsoleCall → Option (Option ℤ × Vga)
  | .output (.printf format _) va =>
      (printf fuel (charPtr (cstr format)) va).map fun r => (some r.1, r.2.sent.foldl vgaPutchar s)
  | .output (.setColor fg bg) _ => some (none, vgaSetColor s fg bg)
  | .output .clear _ => some (none, vgaClear s)
  | .putchar c => some (some (BlackHole.putchar s c).1, (BlackHole.putchar s c).2)
  | .puts str => some (some (BlackHole.puts s str).1, (BlackHole.puts s str).2)

/-- What the call does to the text that has been printed since the screen was cleared. -/
def ConsoleCall.print (text : List UInt8) : ConsoleCall → Option (Option ℤ × List UInt8)
  | .output (.printf format args) _ =>
      (expansion (cstr format) args).map fun t => (some (toInt (u32 t.length)), text ++ t)
  | .output (.setColor _ _) _ => some (none, text)
  | .output .clear _ => some (none, [])
  | .putchar c => some (some (toInt c), text ++ [UInt8.ofNat c])
  | .puts str => some (some 0, text ++ (printed str ++ [10]))

/-- Neither a backspace nor a carriage return. -/
def Plain (text : List UInt8) : Prop := ∀ c ∈ text, c ≠ 8 ∧ c ≠ 13

/-- The arguments of the call lie on the stack, and it prints plain text. -/
def ConsoleCall.Plain : ConsoleCall → Prop
  | .output (.printf format args) va =>
      0 ∉ cstr format ∧ va.Holds args ∧ ∀ t, expansion (cstr format) args = some t → BlackHole.Plain t
  | .output _ _ => True
  | .putchar c => BlackHole.Plain [UInt8.ofNat c]
  | .puts str => BlackHole.Plain (printed str)

/-- A call prints its text on the screen. -/
theorem ConsoleCall.exec_awaits :
    Machine.Awaits ConsoleCall.exec ConsoleCall.print ConsoleCall.Plain TextShown := by
  rintro s text call answer text' hshown hplain hprint
  cases call with
  | putchar c =>
      obtain ⟨rfl, rfl⟩ := Prod.mk.inj (Option.some.inj hprint)
      obtain ⟨hbs, hcr⟩ := hplain _ (List.mem_singleton_self _)
      exact ⟨_, hshown.putchar hbs hcr, 0, fun _ _ => rfl⟩
  | puts str =>
      obtain ⟨rfl, rfl⟩ := Prod.mk.inj (Option.some.inj hprint)
      have hline := (hshown.putchars hplain).putchar (show (10 : UInt8) ≠ 8 by decide) (by decide)
      rw [List.append_assoc] at hline
      exact ⟨_, hline, 0, fun _ _ => rfl⟩
  | output o va =>
      cases o with
      | setColor fg bg =>
          obtain ⟨rfl, rfl⟩ := Prod.mk.inj (Option.some.inj hprint)
          exact ⟨_, hshown.setColor fg bg, 0, fun _ _ => rfl⟩
      | clear =>
          obtain ⟨rfl, rfl⟩ := Prod.mk.inj (Option.some.inj hprint)
          exact ⟨_, TextShown.clear s, 0, fun _ _ => rfl⟩
      | printf format args =>
          obtain ⟨h0, hva, hchars⟩ := hplain
          obtain ⟨t, hexpand, hend⟩ := Option.map_eq_some_iff.1 hprint
          obtain ⟨rfl, rfl⟩ := Prod.mk.inj hend
          obtain ⟨N, hprints⟩ :=
            prints_expansion hva (FormatAt.charPtr h0) List.drop_zero hexpand
          obtain ⟨st, hrun, hsent, hwritten⟩ := hprints ⟨0, 0, [], 0, []⟩ rfl rfl
          refine ⟨_, hshown.putchars (hchars t hexpand), N, fun n hn => ?_⟩
          simp only [ConsoleCall.exec, printf, hrun n hn, Option.map_some, hsent, hwritten,
            Nat.zero_add, List.nil_append]

/-- After the screen has been cleared, in every sequence of calls that print, of changes of the colour
    and of further clearings: `printf` returns the length of what it prints, and the screen shows the
    last 25 lines of the layout of everything printed since it was last cleared, with the cursor at
    the end of it. -/
theorem console_shows (s : Vga) {calls : List ConsoleCall} (hplain : ∀ call ∈ calls, call.Plain)
    {answers : List (Option ℤ)} {text : List UInt8}
    (hprint : Machine.run ConsoleCall.print [] calls = some (answers, text)) :
    ∃ t, (∃ N, ∀ n, N < n →
        Machine.run (ConsoleCall.exec n) (vgaClear s) calls = some (answers, t)) ∧
      (∀ r c : ℕ, r < 25 → c < 80 → t.buffer (vgaOffset r c) = (layout text).cell 32 25 r c) ∧
      t.cursorRow = (layout text).row 25 ∧ t.cursorCol = (layout text).current.length := by
  obtain ⟨t, hshown, hrun⟩ := ConsoleCall.exec_awaits.run (TextShown.clear s) hplain hprint
  exact ⟨t, hrun, hshown.cells⟩

/-- A greeting in two colours. -/
theorem console_shows_greeting : ∃ t, (∃ N, ∀ n, N < n →
    Machine.run (ConsoleCall.exec n) (vgaClear ⟨fun _ => 0, 7, 7, 15, [], 0⟩)
      [.output (.setColor 10 0) ⟨fun _ => 0, fun _ => []⟩,
        .output (.printf "%c%%" [.word 55]) ⟨fun _ => 55, fun _ => []⟩, .puts [111, 107]]
      = some ([none, some 2, some 0], t)) ∧
    t.buffer (vgaOffset 0 3) = 107 := by
  have hexpand : expansion (cstr "%c%%") [.word 55] = some [55, 37] := by decide
  have hplain : ∀ call ∈ [ConsoleCall.output (.setColor 10 0) ⟨fun _ => 0, fun _ => []⟩,
      .output (.printf "%c%%" [.word 55]) ⟨fun _ => 55, fun _ => []⟩, .puts [111, 107]],
      call.Plain := by
    intro call hcall
    simp only [List.mem_cons, List.not_mem_nil, or_false] at hcall
    rcases hcall with rfl | rfl | rfl
    · trivial
    · refine ⟨by decide, ⟨fun _ => (by decide : 55 < 4294967296), fun j n h => ?_, fun j h => ?_, fun j s h => ?_⟩,
        fun t h => ?_⟩
      · rcases j with _ | j <;> simp_all
      · rcases j with _ | j <;> simp at h
      · rcases j with _ | j <;> simp at h
      · rw [hexpand] at h
        obtain rfl := Option.some.inj h
        simp [Plain]
    · simp [ConsoleCall.Plain, Plain, printed]
  have hprint : Machine.run ConsoleCall.print []
      [.output (.setColor 10 0) ⟨fun _ => 0, fun _ => []⟩,
        .output (.printf "%c%%" [.word 55]) ⟨fun _ => 55, fun _ => []⟩, .puts [111, 107]]
      = some ([none, some 2, some 0], [55, 37, 111, 107, 10]) := by
    simp only [Machine.run, ConsoleCall.print, hexpand, Option.map_some, Option.bind_some]
    rfl
  obtain ⟨t, hrun, hcell, -⟩ := console_shows ⟨fun _ => 0, 7, 7, 15, [], 0⟩ hplain hprint
  exact ⟨t, hrun, (hcell 0 3 (by decide) (by decide)).trans (by decide)⟩

end BlackHole
