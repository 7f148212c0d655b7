import BlackHole.Fat16.StoreRefinement
import BlackHole.Kernel.Allocation
import BlackHole.Shell.CommandLines
import BlackHole.Shell.FatCopies

set_option autoImplicit false

/-! # Sessions of the shell

A line asks for a command (`Command.parse`), and the command is answered from the files of a store
and from whether the heap has a block to spare (`FileStore.answer`). The shell gives the same answers
(`shellCall_implements`), except to the commands that do not return or go around the file system. -/

namespace BlackHole

open Bytes FirstFit

/-! ## Answers -/

/-- The first 2047 bytes of a file. -/
def catText (filename : List UInt8) : Option (List UInt8) → List Output
  | none => fileNotFound filename
  | some bytes => [.printf "%s\n" [.str (some (bytes.take 2047))]]

/-- What a command prints and what it does to the files. Not answered are the commands that do not
    return, or that go around the file system. -/
def FileStore.answer {L : Layout} (room : Bool) (ticks : ℕ) (s : FileStore L) :
    Command → Option (List Output × FileStore L)
  | .alloc => some (allocText room, s)
  | .ls => some (.printf "Root directory:\n" [] :: s.list, s)
  | .cat filename => some (catText filename (s.dir.lookup (toFatName filename)), s)
  | .write args =>
      let filename := writeFilename args
      let data := writeData args
      let r := s.write (toFatName filename) data
      some (writeText filename data.length r.1 r.2.1, r.2.2)
  | .rm filename =>
      let r := s.delete (toFatName filename)
      some (deleteText filename r.1, r.2)
  | cmd => (cmd.text ticks).map fun out => (out, s)

/-- The command returns, and goes through the driver if it needs the disk. -/
def Command.Answered : Command → Prop
  | .pageFault => False
  | .diskWrite => False
  | .diskRead => False
  | _ => True

/-- The state of the shell over a store of files, and over the blocks of the heap. -/
structure Hosts (L : Layout) (live : ℕ → Option ℕ) (bs : List Block) (s : ShellState)
    (files : FileStore L) : Prop where
  files : ∃ own, Represents L s.disk own files
  heap : RequestInv ⟨s.mem, live⟩ bs

/-- Some free block has 64 bytes. -/
def hasRoom (bs : List Block) : Bool := bs.any fun b => b.free && decide (64 ≤ b.size)

section

variable {L : Layout} {live : ℕ → Option ℕ} {bs : List Block} {s : ShellState}
  {files : FileStore L} {fuel ticks : ℕ}

theorem alloc_ne_none_iff_hasRoom : FirstFit.alloc headerSize 4 64 bs ≠ none ↔ hasRoom bs = true := by
  rw [Ne, alloc_eq_none_iff]
  simp [hasRoom]

/-- `alloc` prints what the heap has room for, and leaves the blocks as they were. -/
theorem Hosts.alloc (h : Hosts L live bs s files) (hfuel : bs.length + 1 < fuel) : ∃ m,
    commandAlloc fuel s.mem = some (allocText (hasRoom bs), m) ∧
      Hosts L live bs { s with mem := m } files := by
  obtain ⟨p, m', hall, -, hcases⟩ := memoryAlloc_shape h.heap.shape (by decide : (64 : ℕ) ≠ 0)
  have hrun := hall fuel (by omega)
  have halign : alignSize 64 = 64 := by decide
  rw [halign] at hcases
  rcases hcases with ⟨rfl, rfl, hnone⟩ | ⟨hp, hnew, bs', halloc, hshape, hflags⟩
  · have hroom : hasRoom bs = false := by
      rw [← Bool.not_eq_true, ← alloc_ne_none_iff_hasRoom, hnone]
      exact fun hne => hne rfl
    refine ⟨s.mem, ?_, h⟩
    simp only [commandAlloc, hrun, Option.bind_some, hroom]
    rfl
  · have hroom : hasRoom bs = true := by
      rw [← alloc_ne_none_iff_hasRoom, halloc]
      exact Option.some_ne_none _
    have hlive : Function.update live p (some 64) p ≠ none := by simp
    obtain ⟨m'', hfree, hshape', -, hflags'⟩ := memoryFree_shape hshape (Or.inr hlive)
    have hlen := alloc_length_le halloc
    have hback := coalesce_release_alloc (by decide) h.heap.shape.tiles h.heap.shape.separated halloc
    have hsame : Function.update (Function.update live p (some 64)) p none = live := by
      rw [Function.update_idem, ← hnew, Function.update_eq_self]
    rw [hback, hsame] at hshape'
    rw [hback] at hflags'
    refine ⟨m'', ?_, h.files, hshape', hflags' (hflags h.heap.flags)⟩
    simp only [commandAlloc, hrun, Option.bind_some, if_pos hp, hfree fuel (by omega), Option.map_some,
      hroom]

/-- The bytes that `cat` prints are those that have been read. -/
theorem map_memcpy_eq_take (buffer : ℕ → UInt8) (bytes : List UInt8) (n : ℕ) :
    (List.range (min bytes.length n)).map
      (memcpy buffer 0 (fun k => bytes.getD k 0) (min bytes.length n)) = bytes.take n := by
  refine List.ext_getElem (by simp [Nat.min_comm]) fun k hk hk' => ?_
  have hlt : k < min bytes.length n := by simpa using hk
  rw [List.getElem_map, List.getElem_range, memcpy, if_pos (by omega), Nat.sub_zero,
    List.getElem_take, List.getD_eq_getElem _ _ (by omega)]

theorem readText_readOf (filename : List UInt8) (file : Option (List UInt8)) :
    readText filename (readOf file (fun _ => 0) 2047).1 (readOf file (fun _ => 0) 2047).2
      = catText filename file := by
  rcases file with _ | bytes
  · rfl
  · have hnonneg : ¬ ((min bytes.length 2047 : ℕ) : ℤ) < 0 := by omega
    simp only [readOf, readText, if_neg hnonneg, Int.toNat_natCast, map_memcpy_eq_take, catText]

theorem Hosts.cat (hL : L.Usable) (h : Hosts L live bs s files) (hfuel : 2046 < fuel)
    (filename : List UInt8) : cmdCat fuel L s filename
      = some (.returned s (catText filename (files.dir.lookup (toFatName filename)))) := by
  obtain ⟨own, hrep⟩ := h.files
  simp only [cmdCat, hrep.read hL filename _ _ hfuel, Option.map_some, FileStore.read, Nat.reduceSub,
    readText_readOf]

theorem writeData_suffix (args : List UInt8) : writeData args <:+ args := by
  unfold writeData
  simp only []
  split
  · exact (List.tail_suffix _).trans (List.drop_suffix ..)
  · exact List.drop_suffix ..

theorem Hosts.write (hL : L.Usable) (h : Hosts L live bs s files) (hfuel : 2046 < fuel)
    {args : List UInt8} (h0 : 0 ∉ args) (hlen : args.length ≤ 127) : ∃ s' out files',
    files.answer (hasRoom bs) ticks (.write args) = some (out, files') ∧
      cmdWrite fuel L s args = some (.returned s' out) ∧ Hosts L live bs s' files' := by
  obtain ⟨own, hrep⟩ := h.files
  have hle := (writeData_suffix args).length_le
  have hspc := hL.sectorsPerCluster_lt
  have hstr : strlen (writeData args) = (writeData args).length :=
    strlen_of_notMem fun hmem => h0 ((writeData_suffix args).subset hmem)
  obtain ⟨d', own', hrun, hrep'⟩ := hrep.writeFile hL (writeFilename args)
    (show (writeData args).length + L.sectorsPerCluster * 512 < 4294967296 by omega) hfuel
  refine ⟨{ s with disk := d' }, _, _, rfl, ?_, ⟨own', hrep'⟩, h.heap⟩
  simp only [cmdWrite, hstr, hrun, Option.map_some]

theorem Hosts.rm (hL : L.Usable) (h : Hosts L live bs s files) (hfuel : 2046 < fuel)
    (filename : List UInt8) : ∃ s' out files',
    files.answer (hasRoom bs) ticks (.rm filename) = some (out, files') ∧
      cmdRm fuel L s filename = some (.returned s' out) ∧ Hosts L live bs s' files' := by
  obtain ⟨own, hrep⟩ := h.files
  obtain ⟨d', own', hrun, hrep'⟩ := hrep.deleteFile hL filename hfuel
  refine ⟨{ s with disk := d' }, _, _, rfl, ?_, ⟨own', hrep'⟩, h.heap⟩
  simp only [cmdRm, hrun, Option.map_some]

/-- The shell answers a command as the store does. -/
theorem Hosts.exec (hL : L.Usable) (h : Hosts L live bs s files) (hfuel : 2046 < fuel)
    (hblocks : bs.length + 1 < fuel) {cmd : Command} (hcmd : cmd.Answered) (h0 : 0 ∉ cmd.line)
    (hlen : cmd.line.length ≤ 127) : ∃ s' out files',
    files.answer (hasRoom bs) ticks cmd = some (out, files') ∧
      cmd.exec fuel L ticks s = some (.returned s' out) ∧ Hosts L live bs s' files' := by
  cases cmd with
  | empty => exact ⟨s, _, _, rfl, rfl, h⟩
  | help => exact ⟨s, _, _, rfl, rfl, h⟩
  | clear => exact ⟨s, _, _, rfl, rfl, h⟩
  | echo text => exact ⟨s, _, _, rfl, rfl, h⟩
  | alloc =>
      obtain ⟨m, hrun, h'⟩ := h.alloc hblocks
      refine ⟨{ s with mem := m }, _, _, rfl, ?_, h'⟩
      rw [Command.exec, hrun, Option.map_some]
  | uptime => exact ⟨s, _, _, rfl, rfl, h⟩
  | sleep => exact ⟨s, _, _, rfl, rfl, h⟩
  | pageFault => exact absurd hcmd id
  | diskWrite => exact absurd hcmd id
  | diskRead => exact absurd hcmd id
  | ls =>
      obtain ⟨own, hrep⟩ := h.files
      refine ⟨s, _, _, rfl, ?_, h⟩
      simp only [Command.exec, cmdLs, hrep.list hL]
  | cat filename => exact ⟨s, _, _, rfl, h.cat hL hfuel filename, h⟩
  | write args =>
      refine h.write hL hfuel (fun hmem => h0 (List.mem_append_right _ hmem)) ?_
      have hargs : (cstr "write " ++ args).length ≤ 127 := hlen
      rw [List.length_append] at hargs
      omega
  | rm filename => exact h.rm hL hfuel filename
  | unknown cmd => exact ⟨s, _, _, rfl, rfl, h⟩

end

/-! ## Sessions -/

/-- A line, and what `timer_get_ticks` returns when it is executed. -/
structure ShellCall where
  line : CommandLine
  ticks : ℕ

/-- The shell executes a line. No answer is a fault, or a loop that has not come to an end. -/
def ShellCall.exec (fuel : ℕ) (L : Layout) (s : ShellState) (call : ShellCall) :
    Option (List Output × ShellState) :=
  (executeCommand fuel L call.ticks s call.line.bytes).bind fun outcome =>
    match outcome with
    | .returned s' out => some (out, s')
    | .pageFault _ => none
    | .divideError _ => none

def ShellCall.command (call : ShellCall) : Command := Command.parse call.line.bytes

/-- The store answers a line. -/
def FileStore.call {L : Layout} (room : Bool) (files : FileStore L) (call : ShellCall) :
    Option (List Output × FileStore L) :=
  files.answer room call.ticks call.command

theorem FileStore.exists_call {L : Layout} {room : Bool} (files : FileStore L) (call : ShellCall)
    (h : call.command.Answered) : ∃ r, files.call room call = some r := by
  unfold FileStore.call
  cases hcmd : call.command with
  | pageFault => rw [hcmd] at h; exact absurd h id
  | diskWrite => rw [hcmd] at h; exact absurd h id
  | diskRead => rw [hcmd] at h; exact absurd h id
  | _ => exact ⟨_, rfl⟩

section

variable {L : Layout} {live : ℕ → Option ℕ} {bs : List Block} {s : ShellState}
  {files : FileStore L} {fuel : ℕ}

theorem shellCall_implements (hL : L.Usable) (hfuel : 2046 < fuel) (hblocks : bs.length + 1 < fuel) :
    Machine.Implements (ShellCall.exec fuel L) (FileStore.call (hasRoom bs))
      (fun call => call.command.Answered) (Hosts L live bs) := by
  intro s files call out files' h hcall hanswer
  have hline := Command.line_parse call.line.bytes
  obtain ⟨s', out', files'', hanswer', hexec, h'⟩ := h.exec hL hfuel hblocks hcall
    (hline.symm ▸ call.line.no_nul) (hline.symm ▸ call.line.length_le)
  obtain ⟨rfl, rfl⟩ := Prod.mk.inj (Option.some.inj (hanswer.symm.trans hanswer'))
  refine ⟨s', ?_, h'⟩
  rw [ShellCall.exec, executeCommand_parse call.line.no_nul]
  exact (congrArg (Option.bind · _) hexec).trans rfl

theorem Hosts.run (hL : L.Usable) (h : Hosts L live bs s files) (hfuel : 2046 < fuel)
    (hblocks : bs.length + 1 < fuel) {calls : List ShellCall}
    (hcalls : ∀ call ∈ calls, call.command.Answered) : ∃ out files' s',
    Machine.run (FileStore.call (hasRoom bs)) files calls = some (out, files') ∧
      Machine.run (ShellCall.exec fuel L) s calls = some (out, s') ∧ Hosts L live bs s' files' := by
  obtain ⟨⟨out, files'⟩, hspec⟩ := Machine.exists_run FileStore.exists_call hcalls files
  obtain ⟨s', hrun, h'⟩ := (shellCall_implements hL hfuel hblocks).run h hcalls hspec
  exact ⟨out, files', s', hspec, hrun, h'⟩

end

end BlackHole
