import BlackHole.Kernel.Boot
import BlackHole.Libc.Console

set_option autoImplicit false

/-! # The screen after the start

The messages of `kernel_main` are lines without conversions. `printf` sends them to the screen, which
shows them one under the other (`boot_screen`). -/

namespace BlackHole

open Bytes Screen

/-! ## Lines -/

/-- A line that `printf` sends and the screen shows as it is. -/
def PlainLine (l : List UInt8) : Prop :=
  l.length < 80 ∧ ∀ c ∈ l, c ≠ 0 ∧ c ≠ 8 ∧ c ≠ 9 ∧ c ≠ 10 ∧ c ≠ 13 ∧ c ≠ 37

-- character by character, and not over all values of a byte
instance : DecidablePred PlainLine := fun l =>
  decidable_of_iff (l.length < 80 ∧ (l.all fun c =>
    c ≠ 0 ∧ c ≠ 8 ∧ c ≠ 9 ∧ c ≠ 10 ∧ c ≠ 13 ∧ c ≠ 37) = true) (by
      simp only [PlainLine, List.all_eq_true, decide_eq_true_eq])

theorem foldl_layoutChar {l : List UInt8} (hchars : ∀ c ∈ l, c ≠ 9 ∧ c ≠ 10) {p : Page UInt8}
    (hfits : p.current.length + l.length < 80) : l.foldl layoutChar p = p.extend l := by
  induction l generalizing p with
  | nil => simp [Page.extend]
  | cons c l ih =>
      obtain ⟨htab, hnl⟩ := hchars c (List.mem_cons_self ..)
      rw [List.length_cons] at hfits
      have hlen : (p.extend [c]).current.length = p.current.length + 1 := by simp [Page.extend]
      have hchar : layoutChar p c = p.extend [c] := by
        rw [layoutChar, if_neg hnl, if_neg htab, Page.close, if_neg (by omega)]
      rw [List.foldl_cons, hchar, ih (fun d hd => hchars d (List.mem_cons_of_mem c hd)) (by omega)]
      simp [Page.extend]

/-- Lines that are ended are laid out as they are. -/
theorem layout_lines {ls : List (List UInt8)} (h : ∀ l ∈ ls, PlainLine l) :
    layout (ls.flatMap (· ++ [10])) = ⟨ls, []⟩ := by
  have hfrom : ∀ closed, (ls.flatMap (· ++ [10])).foldl layoutChar ⟨closed, []⟩
      = ⟨closed ++ ls, []⟩ := by
    induction ls with
    | nil => simp
    | cons l ls ih =>
        intro closed
        obtain ⟨hlen, hchars⟩ := h l (List.mem_cons_self ..)
        have hline : l.foldl layoutChar ⟨closed, []⟩ = ⟨closed, l⟩ :=
          foldl_layoutChar (fun c hc => ⟨(hchars c hc).2.2.1, (hchars c hc).2.2.2.1⟩)
            (by rw [List.length_nil, Nat.zero_add]; exact hlen)
        rw [List.flatMap_cons, List.foldl_append, List.foldl_append, hline]
        show (ls.flatMap (· ++ [10])).foldl layoutChar ⟨closed ++ [l], []⟩ = _
        rw [ih fun m hm => h m (List.mem_cons_of_mem l hm), List.append_assoc]
        rfl
  exact hfrom []

/-- While they fit on the screen, each is in the row of its number. -/
theorem cell_lines {ls : List (List UInt8)} (h : ls.length < 25) (r c : ℕ) :
    (Page.mk ls []).cell 32 25 r c = ((ls[r]?.getD [])[c]?).getD 32 := by
  have htop : (Page.mk ls []).top 25 = 0 := Nat.sub_eq_zero_of_le h
  have hrow : (ls ++ [[]])[r]?.getD [] = ls[r]?.getD [] := by
    rcases Nat.lt_or_ge r ls.length with hlt | hge
    · rw [List.getElem?_append_left hlt]
    · rw [List.getElem?_append_right hge, List.getElem?_eq_none hge]
      rcases r - ls.length with _ | i <;> rfl
  rw [Page.cell, htop, Nat.zero_add, Page.lines, hrow]

/-! ## Messages -/

/-- What a call puts on the screen. -/
def Output.text : Output → List UInt8
  | .printf format args => (expansion (cstr format) args).getD []
  | _ => []

/-- A `printf` with the arguments that its format asks for, or a change of the colour. -/
structure Output.IsMessage (o : Output) : Prop where
  keeps : o ≠ .clear
  format : ∀ format args, o = .printf format args →
    0 ∉ cstr format ∧ expansion (cstr format) args = some o.text
  text : ∀ c ∈ o.text, c ≠ 8 ∧ c ≠ 13

/-- A format without conversions, or a change of the colour. -/
def Output.isLiteral : Output → Bool
  | .printf format _ => (cstr format).all fun c => c ≠ 0 ∧ c ≠ 8 ∧ c ≠ 13 ∧ c ≠ 37
  | .setColor _ _ => true
  | .clear => false

theorem Output.isMessage_of_isLiteral {o : Output} (h : o.isLiteral = true) : o.IsMessage := by
  cases o with
  | printf format args =>
      simp only [isLiteral, List.all_eq_true, decide_eq_true_eq] at h
      have hexpand : expansion (cstr format) args = some (cstr format) :=
        expansion_literal (fun hmem => (h _ hmem).2.2.2 rfl) args
      have htext : (Output.printf format args).text = cstr format := by rw [text, hexpand]; rfl
      refine ⟨nofun, ?_, fun c hc => ?_⟩
      · rintro _ _ ⟨⟩
        exact ⟨fun hmem => (h _ hmem).1 rfl, by rw [htext, hexpand]⟩
      · rw [htext] at hc
        exact ⟨(h c hc).2.1, (h c hc).2.2.1⟩
  | setColor fg bg => exact ⟨nofun, nofun, by simp [text]⟩
  | clear => exact nomatch h

/-- The calls make these outputs, whatever lies behind the formats. -/
def CallsOf (out : List Output) (calls : List ConsoleCall) : Prop :=
  List.Forall₂ (fun o call => ∃ va : VaList, va.Holds o.args ∧ call = .output o va) out calls

theorem CallsOf.print {out : List Output} {calls : List ConsoleCall} (h : CallsOf out calls)
    (hout : ∀ o ∈ out, o.IsMessage) (text : List UInt8) :
    (∀ call ∈ calls, call.Plain) ∧ ∃ answers,
      Machine.run ConsoleCall.print text calls = some (answers, text ++ out.flatMap Output.text) := by
  induction h generalizing text with
  | nil => exact ⟨by simp, [], by simp⟩
  | @cons o call out calls hcall _ ih =>
      obtain ⟨va, hva, rfl⟩ := hcall
      have hmessage := hout o (List.mem_cons_self ..)
      have hrest := fun text => ih (fun o ho => hout o (List.mem_cons_of_mem _ ho)) text
      -- one call
      obtain ⟨hplain, answer, hprint⟩ : (ConsoleCall.output o va).Plain ∧ ∃ answer,
          ConsoleCall.print text (.output o va) = some (answer, text ++ o.text) := by
        cases o with
        | printf format args =>
            obtain ⟨h0, hexpand⟩ := hmessage.format format args rfl
            refine ⟨⟨h0, hva, fun t ht => ?_⟩,
              some (toInt (u32 (Output.printf format args).text.length)), ?_⟩
            · rw [hexpand] at ht
              obtain rfl := Option.some.inj ht
              exact hmessage.text
            · rw [ConsoleCall.print, hexpand]
              rfl
        | setColor fg bg => exact ⟨trivial, none, by simp [ConsoleCall.print, Output.text]⟩
        | clear => exact absurd rfl hmessage.keeps
      obtain ⟨hplains, answers, hrun⟩ := hrest (text ++ o.text)
      refine ⟨fun c hc => ?_, answer :: answers, ?_⟩
      · rcases List.mem_cons.1 hc with rfl | hc
        · exact hplain
        · exact hplains c hc
      · rw [Machine.run, hprint, Option.bind_some, hrun, List.flatMap_cons, List.append_assoc]
        rfl

/-! ## The line of `fat16_init` -/

/-- A format with one `%u`, as it is expanded. -/
theorem expansion_unsigned {before after : List UInt8} (hbefore : 0x25 ∉ before)
    (hafter : 0x25 ∉ after) {n : ℕ} (hn : n < 4294967296) :
    expansion (before ++ 0x25 :: 0x75 :: after) [.word n]
      = some (before ++ numeral 10 n ++ after) := by
  induction before with
  | nil =>
      have hword : wordText 0x75 n = numeral 10 n := by
        rw [wordText, if_neg (by decide), if_pos rfl, printed_uitoa hn]
      have hconversion : expandConversion 0x75 [.word n] = some (wordText 0x75 n, []) := rfl
      rw [List.nil_append, expansion, if_pos rfl, hconversion, Option.bind_some,
        expansion_literal hafter, hword]
      rfl
  | cons c before ih =>
      rw [List.mem_cons, not_or] at hbefore
      obtain ⟨d, rest, hrest⟩ := List.exists_cons_of_ne_nil
        (show before ++ 0x25 :: 0x75 :: after ≠ [] by simp)
      rw [List.cons_append, hrest, expansion, if_neg (Ne.symm hbefore.1), ← hrest, ih hbefore.2]
      rfl

/-- A number in a line. -/
theorem plainLine_numeral {before after : List UInt8} {n : ℕ} (hn : n < 4294967296)
    (hbefore : PlainLine before) (hafter : PlainLine after)
    (hlen : before.length + after.length < 70) : PlainLine (before ++ numeral 10 n ++ after) := by
  have hle : (numeral 10 n).length ≤ 10 := length_numeral_le (by decide) (lt_trans hn (by decide))
  refine ⟨?_, fun c hc => ?_⟩
  · rw [List.length_append, List.length_append]
    omega
  rcases List.mem_append.1 hc with hc | hc
  · rcases List.mem_append.1 hc with hc | hc
    · exact hbefore.2 c hc
    · have hlow := (mem_numeral_ten hc).1
      have hne : ∀ b : UInt8, ¬ 0x30 ≤ b → c ≠ b := by
        rintro b hb rfl
        exact hb hlow
      have hhigh : c ≠ 37 := hne 37 (by decide)
      exact ⟨hne 0 (by decide), hne 8 (by decide), hne 9 (by decide), hne 10 (by decide),
        hne 13 (by decide), hhigh⟩
  · exact hafter.2 c hc

/-- A format with one `%u` that prints a line. -/
theorem Output.isMessage_unsigned {format : String} (before after : List UInt8) {n : ℕ}
    (hformat : cstr format = before ++ 0x25 :: 0x75 :: (after ++ [10])) (hn : n < 4294967296)
    (hbefore : PlainLine before) (hafter : PlainLine after)
    (hlen : before.length + after.length < 70) :
    ∃ line, PlainLine line ∧ (Output.printf format [.word n]).text = line ++ [10] ∧
      (Output.printf format [.word n]).IsMessage := by
  have hexpand : expansion (cstr format) [.word n] = some (before ++ numeral 10 n ++ (after ++ [10])) := by
    rw [hformat]
    refine expansion_unsigned (fun h => (hbefore.2 _ h).2.2.2.2.2 rfl) (fun h => ?_) hn
    rcases List.mem_append.1 h with h | h
    · exact (hafter.2 _ h).2.2.2.2.2 rfl
    · exact absurd (List.mem_singleton.1 h) (by decide)
  have htext : (Output.printf format [.word n]).text = before ++ numeral 10 n ++ after ++ [10] := by
    rw [text, hexpand, Option.getD_some, List.append_assoc _ after]
  have hline := plainLine_numeral hn hbefore hafter hlen
  refine ⟨_, hline, htext, nofun, ?_, fun c hc => ?_⟩
  · rintro _ _ ⟨⟩
    refine ⟨fun h => ?_, by rw [htext, hexpand, List.append_assoc _ after]⟩
    rw [hformat] at h
    simp only [List.mem_append, List.mem_cons, List.not_mem_nil, or_false] at h
    rcases h with h | h | h | h | h
    · exact (hbefore.2 _ h).1 rfl
    · exact absurd h (by decide)
    · exact absurd h (by decide)
    · exact (hafter.2 _ h).1 rfl
    · exact absurd h (by decide)
  · rw [htext] at hc
    rcases List.mem_append.1 hc with hc | hc
    · exact ⟨(hline.2 c hc).2.1, (hline.2 c hc).2.2.2.2.1⟩
    · rw [List.mem_singleton.1 hc]
      decide

/-- `fat16_init` prints one line. -/
theorem fat16Init_line (L : Layout) (d : Disk) :
    ∃ line, PlainLine line ∧ (fat16Init L d).2.2.text = line ++ [10] ∧
      (fat16Init L d).2.2.IsMessage := by
  by_cases hsize : (Bpb.ofSector (ataReadSector d 0)).bytesPerSector = 512
  · simp only [fat16Init, hsize, ne_eq, not_true_eq_false, if_false]
    exact Output.isMessage_unsigned (cstr "> FAT16 initialized. Data starts at LBA ") (cstr ".")
      (by decide +kernel) (u32_lt _) (by decide +kernel) (by decide +kernel) (by decide +kernel)
  · simp only [fat16Init, hsize, ne_eq, not_false_eq_true, if_true]
    exact Output.isMessage_unsigned (cstr "[FAT16] ERROR: Unsupported sector size ") []
      (by decide +kernel) (lt_trans (Bytes.Buf.u16_lt _ _) (by decide)) (by decide +kernel)
      (by decide +kernel) (by decide +kernel)

/-! ## The screen -/

/-- The lines before that of `fat16_init`. -/
def deviceLines : List (List UInt8) :=
  [cstr "BlackHole OS v0.0.3",
    cstr "Kernel loaded successfully.",
    cstr "Initializing Global Descriptor Table (GDT)...",
    cstr "Initializing Virtual Memory (Paging)...",
    cstr "Initializing IDT & PIC...",
    cstr "Initializing Timer...",
    cstr "> Primary ATA Drive initialized.",
    cstr "Initializing FAT16 Filesystem..."]

/-- The lines behind it. -/
def taskLines : List (List UInt8) :=
  [cstr "> IDT initialized.",
    cstr "> Timer running at 100Hz.",
    cstr "> Keyboard driver ready.",
    cstr "> Memory allocator ready.",
    cstr "> Memory allocation test PASSED.",
    [],
    cstr "Initializing Multitasking Scheduler...",
    cstr "> Task zero active.",
    [],
    cstr "Dropping to User Mode (Ring 3)..."]

theorem deviceMessages_eq (mounted : Output) :
    deviceMessages mounted = (deviceMessages .clear).dropLast ++ [mounted] := rfl

theorem bootMessages_text {mounted : Output} {line : List UInt8}
    (hmounted : mounted.text = line ++ [10]) :
    (deviceMessages mounted ++ taskMessages).flatMap Output.text
      = (deviceLines ++ line :: taskLines).flatMap (· ++ [10]) := by
  have hbefore : (deviceMessages .clear).dropLast.flatMap Output.text
      = deviceLines.flatMap (· ++ [10]) := by
    decide +kernel
  have hbehind : taskMessages.flatMap Output.text = taskLines.flatMap (· ++ [10]) := by
    decide +kernel
  simp only [deviceMessages_eq mounted, List.flatMap_append, List.flatMap_cons, List.flatMap_nil, List.append_nil,
    List.append_assoc, hbefore, hbehind, hmounted]

theorem bootMessages_isMessage {mounted : Output} (hmounted : mounted.IsMessage) :
    ∀ o ∈ deviceMessages mounted ++ taskMessages, o.IsMessage := by
  have hbefore : (deviceMessages .clear).dropLast.all Output.isLiteral = true := by decide +kernel
  have hbehind : taskMessages.all Output.isLiteral = true := by decide +kernel
  rw [List.all_eq_true] at hbefore hbehind
  intro o ho
  rw [deviceMessages_eq mounted, List.append_assoc] at ho
  rcases List.mem_append.1 ho with ho | ho
  · exact Output.isMessage_of_isLiteral (hbefore o ho)
  rcases List.mem_cons.1 ho with rfl | ho
  · exact hmounted
  · exact Output.isMessage_of_isLiteral (hbehind o ho)

theorem bootLines_plain {line : List UInt8} (hline : PlainLine line) :
    ∀ l ∈ deviceLines ++ line :: taskLines, PlainLine l := by
  have hbefore : ∀ l ∈ deviceLines, PlainLine l := by decide +kernel
  have hbehind : ∀ l ∈ taskLines, PlainLine l := by decide +kernel
  intro l hl
  rcases List.mem_append.1 hl with hl | hl
  · exact hbefore l hl
  rcases List.mem_cons.1 hl with rfl | hl
  · exact hline
  · exact hbehind l hl

/-- The screen at the switch to user mode: whatever was on it, whatever lies on the stack behind the
    formats and whatever interrupts come, every message of `kernel_main` is in a row of its own, from
    the first one on, the rest is blank, and the cursor is in the row behind the last of them. -/
theorem boot_screen {q : Placement} {lo hi : ℕ} (hlow : q.Low lo hi) (sector : Sector)
    (events : ℕ → List IrqEvent) {k : KernelState Ata.Drive} (hk : k.Loaded) :
    ∃ line out k', (fat16Init k.layout k.drive.device.disk).2.2.text = line ++ [10] ∧
      (∃ N, ∀ fuel, N < fuel → kernelMain Ata.Drive.channel sector fuel q events k = some (out, k')) ∧
      ∀ (s : Vga) (calls : List ConsoleCall), CallsOf out calls → ∃ answers t,
        (∃ N, ∀ n, N < n → Machine.run (ConsoleCall.exec n) (vgaInit s) calls = some (answers, t)) ∧
        (∀ r c : ℕ, r < 25 → c < 80 → t.buffer (vgaOffset r c)
          = ((((deviceLines ++ line :: taskLines)[r]?).getD [])[c]?).getD 32) ∧
        t.cursorRow = 19 ∧ t.cursorCol = 0 := by
  obtain ⟨line, hline, hmounted, hmessage⟩ := fat16Init_line k.layout k.drive.device.disk
  obtain ⟨k', -, hrun⟩ := kernelMain_drive hlow sector events hk
  refine ⟨line, _, k', hmounted, hrun, fun s calls hcalls => ?_⟩
  obtain ⟨hplain, answers, hprint⟩ := hcalls.print (bootMessages_isMessage hmessage) []
  rw [List.nil_append, bootMessages_text hmounted] at hprint
  obtain ⟨t, hshown, hexec⟩ := ConsoleCall.exec_awaits.run (TextShown.clear _) hplain hprint
  obtain ⟨hcells, hrow, hcol⟩ := hshown.cells
  rw [layout_lines (bootLines_plain hline)] at hcells hrow hcol
  have hlength : (deviceLines ++ line :: taskLines).length < 25 := show 19 < 25 by decide
  exact ⟨answers, t, hexec, fun r c hr hc => (hcells r c hr hc).trans (cell_lines hlength r c), hrow,
    hcol⟩

theorem boot_screen_busyMachine :
    ∃ line out k', (fat16Init {} busyMachine.drive.device.disk).2.2.text = line ++ [10] ∧
      (∃ N, ∀ fuel, N < fuel → kernelMain Ata.Drive.channel (Buf.ofFn fun _ => 0) fuel samplePlacement
        pressedKeys busyMachine = some (out, k')) ∧
      ∀ (s : Vga) (calls : List ConsoleCall), CallsOf out calls → ∃ answers t,
        (∃ N, ∀ n, N < n → Machine.run (ConsoleCall.exec n) (vgaInit s) calls = some (answers, t)) ∧
        (∀ r c : ℕ, r < 25 → c < 80 → t.buffer (vgaOffset r c)
          = ((((deviceLines ++ line :: taskLines)[r]?).getD [])[c]?).getD 32) ∧
        t.cursorRow = 19 ∧ t.cursorCol = 0 :=
  boot_screen (show samplePlacement.Low 0x80000 0x90000 from ⟨by decide, by decide, by decide⟩)
    (Buf.ofFn fun _ => 0) pressedKeys busyMachine_loaded

end BlackHole
