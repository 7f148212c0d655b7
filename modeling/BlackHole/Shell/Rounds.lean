import BlackHole.Shell.Session

set_option autoImplicit false

/-! # The rounds of `shell_loop`

Each round prints the prompt, reads a line into `cmd_buffer` and executes what it finds there. The
characters that are typed are cut into lines by Enter and by the end of the buffer (`TypedLine`), and
every line so cut is answered from the files (`shellLoop_answers`). -/

namespace BlackHole

open FirstFit

/-! ## The loop -/

def vgaYellow : UInt8 := 0xE

/-- What a round prints before it reads. -/
def shellPrompt : List Output :=
  [.setColor vgaYellow vgaBlack, .printf "BH-OS> " [], .setColor vgaWhite vgaBlack]

/-- The string in the first `n` cells of the buffer. -/
def Editor.string (e : Editor) (n : ℕ) : List UInt8 :=
  ((List.range n).map e.buf).takeWhile (· ≠ 0)

/-- `shell_loop` between two rounds: `cmd_buffer` and the screen, what the commands act on, and the
    characters that are still to come. -/
structure Shell where
  editor : Editor
  state : ShellState
  stream : List UInt8

/-- A round of `shell_loop` in which `timer_get_ticks` returns `ticks`. `display` is what the printing
    does to the screen. No answer is a line that never ends, or a command that does not return. -/
def shellRound (display : Vga → List Output → Vga) (fuel : ℕ) (L : Layout) (sh : Shell) (ticks : ℕ) :
    Option (List Output × Shell) :=
  (keyboardReadline maxCmdLen { sh.editor with vga := display sh.editor.vga shellPrompt }
      sh.stream).bind fun r =>
    (executeCommand fuel L ticks sh.state (r.1.string 128)).bind fun outcome =>
      match outcome with
      | .returned s out => some (out, ⟨{ r.1 with vga := display r.1.vga out }, s, r.2⟩)
      | .pageFault _ => none
      | .divideError _ => none

/-! ## Lines as they are typed -/

/-- Characters that one call of `keyboard_readline` takes: up to an Enter, or until the buffer is
    full. -/
structure TypedLine where
  chars : List UInt8
  isLine : IsLine maxCmdLen chars
  no_nul : 0 ∉ chars

/-- Editing keeps characters that were typed. -/
theorem editedText_subset (p : List UInt8) : editedText p ⊆ p := by
  induction p using List.reverseRecOn with
  | nil => exact List.Subset.refl _
  | append_singleton p c ih =>
      rw [editedText_append]
      unfold editChar
      split
      · exact fun d hd => List.mem_append_left _ (ih (List.mem_of_mem_dropLast hd))
      · intro d hd
        rcases List.mem_append.1 hd with hd | hd
        · exact List.mem_append_left _ (ih hd)
        · exact List.mem_append_right _ hd

theorem withoutEnter_subset (p : List UInt8) : withoutEnter p ⊆ p := by
  unfold withoutEnter
  split
  · exact List.dropLast_subset p
  · exact List.Subset.refl _

namespace TypedLine

variable (l : TypedLine)

/-- The text of the line. -/
def text : List UInt8 := editedText (withoutEnter l.chars)

theorem read (e : Editor) (rest : List UInt8) :
    ∃ e', keyboardReadline maxCmdLen e (l.chars ++ rest) = some (e', rest) ∧
      HoldsLine e'.buf l.text := by
  obtain ⟨e', hread, hholds, -⟩ := l.isLine.read (by decide) e rest
  exact ⟨e', hread, hholds⟩

theorem zero_notMem_text : 0 ∉ l.text := fun h =>
  l.no_nul (withoutEnter_subset _ (editedText_subset _ h))

theorem length_text_le : l.text.length ≤ 127 := by
  obtain ⟨chars, hline, -⟩ := l
  rcases List.eq_nil_or_concat chars with rfl | ⟨q, c, rfl⟩
  · exact Nat.zero_le _
  rw [List.concat_eq_append] at hline
  simp only [text, List.concat_eq_append]
  -- before the last character there was room
  obtain ⟨e, -, hheld, hroom⟩ :=
    readlineAfter_of_open (by decide) ⟨fun _ => 0, 0, blankScreen 0 0⟩ hline.open_of_append
  have hlen : (editedText q).length < 127 := by
    rw [← hheld, held_length]
    unfold maxCmdLen at hroom
    omega
  by_cases hnl : c = 10
  · rw [hnl, withoutEnter_append]
    exact hlen.le
  · have hall : withoutEnter (q ++ [c]) = q ++ [c] := by simp [withoutEnter, hnl]
    rw [hall, editedText_append]
    exact (editChar_length_le _ c).trans hlen

/-- What `execute_command` is called with. -/
def commandLine : CommandLine := ⟨l.text, l.zero_notMem_text, l.length_text_le⟩

end TypedLine

/-- A buffer that holds a line holds it as a string. -/
theorem HoldsLine.string_eq {e : Editor} {text : List UInt8} (h : HoldsLine e.buf text)
    (h0 : 0 ∉ text) {n : ℕ} (hlen : text.length < n) : e.string n = text := by
  obtain ⟨hcells, hend⟩ := h
  have hkeep : ∀ c ∈ text, decide (c ≠ 0) = true := fun c hc =>
    decide_eq_true fun hc0 => h0 (hc0 ▸ hc)
  obtain ⟨k, rfl⟩ := Nat.exists_eq_add_of_lt hlen
  rw [Editor.string, Nat.add_assoc, List.range_add, List.map_append, hcells,
    List.takeWhile_append_of_pos hkeep, List.range_succ_eq_map]
  simp [hend]

/-! ## Answers to what is typed -/

section

variable {fuel : ℕ} {L : Layout}

/-- A round executes the line that is typed next. -/
theorem shellRound_typed (display : Vga → List Output → Vga) (e : Editor) {s s' : ShellState}
    {out : List Output} (l : TypedLine) {ticks : ℕ} (rest : List UInt8)
    (h : ShellCall.exec fuel L s ⟨l.commandLine, ticks⟩ = some (out, s')) : ∃ e',
    shellRound display fuel L ⟨e, s, l.chars ++ rest⟩ ticks = some (out, ⟨e', s', rest⟩) := by
  obtain ⟨outcome, hrun, hout⟩ := Option.bind_eq_some_iff.1 h
  obtain ⟨e', hread, hholds⟩ := l.read { e with vga := display e.vga shellPrompt } rest
  have hstring := hholds.string_eq l.zero_notMem_text (Nat.lt_succ_of_le l.length_text_le)
  have hexec : executeCommand fuel L ticks s (e'.string 128) = some outcome := by
    rw [hstring]
    exact hrun
  simp only [shellRound, hread, Option.bind_some, hexec]
  cases outcome with
  | returned s₁ out₁ =>
      obtain ⟨rfl, rfl⟩ := Prod.mk.inj (Option.some.inj hout)
      exact ⟨_, rfl⟩
  | pageFault out => cases hout
  | divideError d => cases hout

/-- The rounds execute the lines that are typed, one after the other. -/
theorem shellLoop_typed (display : Vga → List Output → Vga) (e : Editor) {s s' : ShellState}
    {outs : List (List Output)} {typed : List (TypedLine × ℕ)} (rest : List UInt8)
    (h : Machine.run (ShellCall.exec fuel L) s (typed.map fun t => ⟨t.1.commandLine, t.2⟩)
      = some (outs, s')) : ∃ e',
    Machine.run (shellRound display fuel L) ⟨e, s, (typed.flatMap fun t => t.1.chars) ++ rest⟩
      (typed.map Prod.snd) = some (outs, ⟨e', s', rest⟩) := by
  induction typed generalizing e s outs with
  | nil =>
      obtain ⟨rfl, rfl⟩ := Prod.mk.inj (Option.some.inj h)
      exact ⟨e, rfl⟩
  | cons t typed ih =>
      rw [List.map_cons] at h
      obtain ⟨out, s₁, outs₁, hstep, hrun, rfl⟩ := Machine.run_cons_eq_some.1 h
      obtain ⟨e₁, hround⟩ := shellRound_typed display e t.1
        ((typed.flatMap fun t => t.1.chars) ++ rest) hstep
      obtain ⟨e', hrest⟩ := ih e₁ hrun
      rw [List.flatMap_cons, List.append_assoc, List.map_cons]
      exact ⟨e', Machine.run_cons_eq_some.2 ⟨out, _, outs₁, hround, hrest, rfl⟩⟩

/-- From every state that holds a store of files: whatever is typed, with backspaces and with lines
    that run into the end of `cmd_buffer`, the rounds of `shell_loop` print what the store answers to
    the lines, and leave its files on the disk and the blocks of the heap as they were. Between the
    lines nothing of the stream is lost. -/
theorem shellLoop_answers (hL : L.Usable) {live : ℕ → Option ℕ} {bs : List Block} {e : Editor}
    {s : ShellState} {files : FileStore L} (h : Hosts L live bs s files)
    {typed : List (TypedLine × ℕ)}
    (htyped : ∀ t ∈ typed, (Command.parse t.1.text).Answered) (hfuel : 2046 < fuel)
    (hblocks : bs.length + 1 < fuel) (display : Vga → List Output → Vga) (rest : List UInt8) :
    ∃ outs files' e' s',
      Machine.run (shellRound display fuel L) ⟨e, s, (typed.flatMap fun t => t.1.chars) ++ rest⟩
        (typed.map Prod.snd) = some (outs, ⟨e', s', rest⟩) ∧
      Machine.run (FileStore.call (hasRoom bs)) files (typed.map fun t => ⟨t.1.commandLine, t.2⟩)
        = some (outs, files') ∧ Hosts L live bs s' files' := by
  have hcalls : ∀ call ∈ typed.map fun t => (⟨t.1.commandLine, t.2⟩ : ShellCall),
      call.command.Answered := by
    intro call hcall
    obtain ⟨t, ht, rfl⟩ := List.mem_map.1 hcall
    exact htyped t ht
  obtain ⟨outs, files', s', hspec, hrun, h'⟩ := h.run hL hfuel hblocks hcalls
  obtain ⟨e', hloop⟩ := shellLoop_typed display e rest hrun
  exact ⟨outs, files', e', s', hloop, hspec, h'⟩

end

/-- A line without backspaces that ends in Enter. -/
def TypedLine.ofText (text : List UInt8) (hlen : (text.length : ℤ) < maxCmdLen - 1) (hnl : 10 ∉ text)
    (h0 : 0 ∉ text) : TypedLine where
  chars := text ++ [10]
  isLine := (fits_of_short hlen).isLine hnl
  no_nul := by
    rw [List.mem_append, not_or]
    exact ⟨h0, by decide⟩

theorem TypedLine.text_ofText {text : List UInt8} (hlen : (text.length : ℤ) < maxCmdLen - 1) (hnl : 10 ∉ text)
    (h0 : 0 ∉ text) (hbs : 8 ∉ text) : (ofText text hlen hnl h0).text = text := by
  show editedText (withoutEnter (text ++ [10])) = text
  rw [withoutEnter_append, editedText_eq_self hbs]

/-- A file is written and printed, and memory is asked for. -/
def sampleSession : List (TypedLine × ℕ) :=
  [ (.ofText (cstr "write a.txt hi") (by decide) (by decide) (by decide), 7),
    (.ofText (cstr "cat A.TXT") (by decide) (by decide) (by decide), 8),
    (.ofText (cstr "alloc") (by decide) (by decide) (by decide), 9) ]

theorem sampleSession_answered : ∀ t ∈ sampleSession, (Command.parse t.1.text).Answered := by
  have hwrite : Command.parse (cstr "write a.txt hi") = .write (cstr "a.txt hi") := by decide
  have hcat : Command.parse (cstr "cat A.TXT") = .cat (cstr "A.TXT") := by decide
  have halloc : Command.parse (cstr "alloc") = .alloc := by decide
  refine List.forall_mem_cons.2 ⟨?_, List.forall_mem_cons.2 ⟨?_, List.forall_mem_singleton.2 ?_⟩⟩
  · rw [TypedLine.text_ofText _ _ _ (by decide : 8 ∉ cstr "write a.txt hi"), hwrite]
    trivial
  · rw [TypedLine.text_ofText _ _ _ (by decide : 8 ∉ cstr "cat A.TXT"), hcat]
    trivial
  · rw [TypedLine.text_ofText _ _ _ (by decide : 8 ∉ cstr "alloc"), halloc]
    trivial

/-- On the image of `build.ps1`, with a fresh heap. -/
theorem shellLoop_answers_hddImage : ∃ outs files' e' s',
    Machine.run (shellRound (fun vga _ => vga) 2047 hddLayout)
        ⟨⟨fun _ => 0, 0, blankScreen 0 0⟩, ⟨hddImage, memoryInit fun _ => 0⟩,
          (sampleSession.flatMap fun t => t.1.chars) ++ []⟩ (sampleSession.map Prod.snd)
      = some (outs, ⟨e', s', []⟩) ∧
    Machine.run (FileStore.call (hasRoom [⟨heapStart, heapSize - headerSize, true⟩]))
        (FileStore.formatted hddLayout) (sampleSession.map fun t => ⟨t.1.commandLine, t.2⟩)
      = some (outs, files') ∧
    Hosts hddLayout (fun _ => none) [⟨heapStart, heapSize - headerSize, true⟩] s' files' :=
  have hstart : Hosts hddLayout (fun _ => none) [⟨heapStart, heapSize - headerSize, true⟩]
      ⟨hddImage, memoryInit fun _ => 0⟩ (FileStore.formatted hddLayout) :=
    ⟨⟨_, hddImage_formatted.represents⟩, Heap.init_requestInv _⟩
  shellLoop_answers hddImage_formatted.usable hstart sampleSession_answered (by decide) (by decide) _ []

end BlackHole
