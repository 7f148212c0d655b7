import BlackHole.Fat16.RoundTrip
import BlackHole.Shell.FatCopies
import BlackHole.Shell.FileNames

set_option autoImplicit false

/-! # The line `write N T`

`cmd_write` cuts the name off its arguments after at most 31 characters, and takes what follows for
the data. `cat` and `rm` pass all of their argument as the name; the image of a name does not depend
on what lies behind its first 31 characters, so all three mean the same file (`toFatName_take`). The
file contains `T` if the name was not cut (`writeLine_holds_iff`). -/

namespace BlackHole

open Bytes

/-! ## Splitting the arguments -/

/-- The arguments of `write N T`. -/
def writeArgs (name text : List UInt8) : List UInt8 := name ++ 0x20 :: text

/-- A name is given by one word. -/
def Word (name : List UInt8) : Prop := ∀ c ∈ name, c ≠ 0 ∧ c ≠ 0x20

variable {name text : List UInt8}

theorem writeFilename_writeArgs (hname : Word name) (text : List UInt8) :
    writeFilename (writeArgs name text) = name.take 31 := by
  have hkeep : ∀ c ∈ name.take 31, decide (c ≠ 0 ∧ c ≠ 0x20) = true := fun c hc =>
    decide_eq_true (hname c (List.mem_of_mem_take hc))
  unfold writeFilename writeArgs
  rw [List.take_append, List.takeWhile_append_of_pos hkeep]
  -- behind the name the loop stops at the space, or it has stopped before
  cases hrest : 31 - name.length with
  | zero => simp
  | succ n => simp

/-- A name of at most 31 characters is taken whole, and one space behind it is skipped. -/
theorem writeData_of_le (hname : Word name) (h : name.length ≤ 31) (text : List UInt8) :
    writeData (writeArgs name text) = text := by
  unfold writeData
  rw [writeFilename_writeArgs hname, List.take_of_length_le h, writeArgs, List.drop_left]
  rfl

/-- Of a longer one the rest becomes data. -/
theorem writeData_of_lt (hname : Word name) (h : 31 < name.length) (text : List UInt8) :
    writeData (writeArgs name text) = name.drop 31 ++ 0x20 :: text := by
  obtain ⟨c, tail, hdrop⟩ : ∃ c tail, name.drop 31 = c :: tail := by
    rcases hdrop : name.drop 31 with _ | ⟨c, tail⟩
    · rw [List.drop_eq_nil_iff] at hdrop
      omega
    · exact ⟨c, tail, rfl⟩
  have hc : c ≠ 0x20 := (hname c (List.mem_of_mem_drop (by rw [hdrop]; exact List.mem_cons_self ..))).2
  have hrest : (writeArgs name text).drop 31 = c :: (tail ++ 0x20 :: text) := by
    rw [writeArgs, List.drop_append_of_le_length h.le, hdrop, List.cons_append]
  unfold writeData
  rw [writeFilename_writeArgs hname, List.length_take_of_le h.le, hrest, hdrop]
  exact if_neg (by simpa using hc)

/-- The data are what the line has, less the name that was cut off and one space if it follows. -/
theorem writeData_length (hname : Word name) (text : List UInt8) :
    (writeData (writeArgs name text)).length = text.length ↔ name.length ≤ 31 := by
  rcases Nat.lt_or_ge 31 name.length with hlt | hle
  · rw [writeData_of_lt hname hlt]
    simp only [List.length_append, List.length_drop, List.length_cons]
    omega
  · rw [writeData_of_le hname hle]
    exact iff_of_true rfl hle

theorem writeData_length_le (args : List UInt8) : (writeData args).length ≤ args.length := by
  have hdrop := List.length_drop (i := (writeFilename args).length) (l := args)
  unfold writeData
  simp only []
  split
  · rw [List.length_tail]
    omega
  · omega

theorem zero_notMem_writeData (hname : Word name) (htext : 0 ∉ text) :
    0 ∉ writeData (writeArgs name text) := by
  have hname0 : 0 ∉ name := fun h => (hname 0 h).1 rfl
  rcases Nat.lt_or_ge 31 name.length with hlt | hle
  · rw [writeData_of_lt hname hlt]
    have hdrop : 0 ∉ name.drop 31 := fun h => hname0 (List.mem_of_mem_drop h)
    simp [hdrop, htext]
  · rwa [writeData_of_le hname hle]

/-! ## The image of a name that was cut -/

/-- The typed name that is left after 31 characters. -/
def TypedName.cut (t : TypedName) : TypedName where
  base := t.base.take 31
  ext := if t.base.length < 31 then t.ext.map (·.take (30 - t.base.length)) else none
  base_ok := fun c hc => t.base_ok c (List.mem_of_mem_take hc)
  ext_ok := by
    obtain ⟨base, ext, -, hext⟩ := t
    split
    · cases ext with
      | none => exact List.not_mem_nil
      | some ext => exact fun h0 => hext (List.mem_of_mem_take h0)
    · exact List.not_mem_nil

theorem TypedName.cut_input (t : TypedName) : t.cut.input = t.input.take 31 := by
  obtain ⟨base, ext, hbase, hext⟩ := t
  unfold TypedName.input TypedName.cut
  rw [List.take_append]
  congr 1
  by_cases h : base.length < 31
  · simp only [if_pos h]
    rw [show 31 - base.length = 30 - base.length + 1 by omega]
    cases ext <;> rfl
  · simp only [if_neg h]
    rw [show 31 - base.length = 0 by omega]
    rfl

theorem TypedName.nameField_cut_seenExt (t : TypedName) :
    nameField 3 t.cut.seenExt = nameField 3 t.seenExt := by
  obtain ⟨base, ext, hbase, hext⟩ := t
  have hlen : (base.take 31).length ≤ 8 ↔ base.length ≤ 8 := by
    rw [List.length_take]
    omega
  unfold TypedName.seenExt TypedName.cut
  simp only [hlen]
  split
  next hshort =>
    -- at least 22 characters of the extension are left
    rw [if_pos (by omega)]
    cases ext with
    | none => rfl
    | some ext => exact nameField_take (by omega) ext
  next => rfl

/-- The image depends on the first 31 characters only: 8 of the base, the dot and 3 of the extension. -/
theorem toFatName_take (h0 : 0 ∉ name) : toFatName (name.take 31) = toFatName name := by
  obtain ⟨t, rfl⟩ := TypedName.exists_input h0
  rw [← t.cut_input, ← nameBytes_inj, nameBytes_toFatName, nameBytes_toFatName,
    t.nameField_cut_seenExt]
  exact congrArg (· ++ _) (nameField_take (by decide) t.base)

/-- An image begins with the mark of a deleted entry exactly if the name does. -/
theorem toFatName_byte_zero_iff (h0 : 0 ∉ name) :
    (toFatName name).byte 0 = 0xE5 ↔ name.head? = some 0xE5 := by
  obtain ⟨t, rfl⟩ := TypedName.exists_input h0
  have hbyte := (nameBytes_eq_iff (by simp)).1 (nameBytes_toFatName t) 0 (by decide)
  rw [List.getD_append _ _ _ _ (by simp), getD_nameField (by decide)] at hbyte
  rw [hbyte, TypedName.input]
  rcases hbase : t.base with _ | ⟨c, base⟩
  · -- without a base the image begins with a space, and the name is empty or begins with the dot
    refine iff_of_false (by decide) ?_
    rcases t.ext with _ | ext <;> simp
  · simpa using upperCase_eq_iff (c := c) (x := 0xE5) (by decide) (by decide)

/-! ## What the line leaves behind -/

/-- The line `write N T`. -/
def writeLine (name text : List UInt8) : List UInt8 := cstr "write " ++ writeArgs name text

/-- The message of a write that has succeeded. -/
def ReportsWrite (out : List Output) : Prop :=
  ∃ len filename, .printf "Wrote %u bytes to '%s'.\n" [.word len, .str (some filename)] ∈ out

/-- The name resolves to an entry with the length of the text, and reading the file gives the text. -/
structure FileHolds (L : Layout) (d : Disk) (name text : List UInt8) : Prop where
  entry : ∃ k, findEntry L d name = some (k / entriesPerSector, k % entriesPerSector) ∧
    (rootEntry L d k).fileSize = text.length
  read : ∀ buffer bufSize fuel, bufSize < 2147483648 → 2046 < fuel →
    fat16ReadFile fuel L d name buffer bufSize
      = some (((min text.length bufSize : ℕ) : ℤ),
          memcpy buffer 0 (fun k => text.getD k 0) (min text.length bufSize))

/-- A command that reports a write has made one that returned 0. -/
theorem cmdWrite_reports {fuel : ℕ} {L : Layout} {s s' : ShellState} {args : List UInt8}
    {out : List Output} (hrun : cmdWrite fuel L s args = some (.returned s' out))
    (hok : ReportsWrite out) :
    Step L s.disk (.write (writeFilename args) (fun k => (writeData args).getD k 0)
      (strlen (writeData args))) 0 s'.disk := by
  obtain ⟨outcome, hwrite, hr⟩ := Option.map_eq_some_iff.1 hrun
  cases outcome with
  | divideError d => cases hr
  | returned ret d printed =>
      cases hr
      obtain ⟨len, filename, hmem⟩ := hok
      rcases List.mem_append.1 hmem with hmem | hmem
      · split at hmem <;> simp at hmem
      · split at hmem
        · next hret => exact hret ▸ .write hwrite
        · simp at hmem

/-- A name has one file. -/
theorem FileHolds.length_eq {L : Layout} {d : Disk} {text' : List UInt8}
    (h : FileHolds L d name text) (h' : FileHolds L d name text') : text.length = text'.length := by
  obtain ⟨k, hk, hsize⟩ := h.entry
  obtain ⟨k', hk', hsize'⟩ := h'.entry
  rw [hk, Option.some.injEq, Prod.mk.injEq] at hk'
  have hkk : k = k' := by
    unfold entriesPerSector at hk'
    omega
  rw [← hsize, ← hsize', hkk]

/-- A deleted entry is never found. -/
theorem FileHolds.byte_zero_ne {L : Layout} (hL : L.WellFormed) {d : Disk}
    (h : FileHolds L d name text) : (toFatName name).byte 0 ≠ 0xE5 := by
  obtain ⟨k, hk, -⟩ := h.entry
  obtain ⟨k', hres, -⟩ := (findEntry_eq_some_iff hL).1 hk
  rw [← hres.name_eq, DirEntry.name, Buf.byte_slice (by decide)]
  exact hres.live.2

/-- A successful write of a byte string leaves it under every name of the same image. -/
theorem Step.fileHolds {L : Layout} (hL : L.Usable) {d d' : Disk} {own : ℕ → List ℕ}
    (h : VolumeInv L d own) {filename bytes : List UInt8} (hE5 : (toFatName filename).byte 0 ≠ 0xE5)
    (hname : toFatName name = toFatName filename) (hsize : bytes.length < 2147483648)
    (hs : Step L d (.write filename (fun k => bytes.getD k 0) bytes.length) 0 d') :
    FileHolds L d' name bytes := by
  obtain ⟨d₁, own₁, n, out, hafter, -, -, hwrote⟩ := hs.write_inv hL h
  obtain ⟨k, c, hent, -⟩ := hwrote.fileAt hL hafter.inv rfl hafter.gone hE5
  have hres := (hent.resolvesTo hafter.inv hafter.gone hE5).of_toFatName_eq hname
  refine ⟨⟨k, (findEntry_eq_some_iff hL.toWellFormed).2 ⟨k, hres, rfl, rfl⟩, ?_⟩,
    fun buffer bufSize fuel _ hfuel => ?_⟩
  · rw [hent.root k hent.slot.slot, if_pos rfl, newEntry_fileSize _ _ (by omega)]
  · exact hs.read_back hL h hE5 hname bufSize hsize buffer fuel hfuel

/-- `cat` prints the file, if it fits into its buffer. -/
theorem FileHolds.cat {L : Layout} {s : ShellState} (h : FileHolds L s.disk name text)
    (hlen : text.length ≤ 2047) {fuel : ℕ} (hfuel : 2046 < fuel) (ticks : ℕ) :
    executeCommand fuel L ticks s (cstr "cat " ++ name)
      = some (.returned s [.printf "%s\n" [.str (some text)]]) := by
  have htext : (List.range text.length).map (memcpy (fun _ => 0) 0 (fun k => text.getD k 0)
      text.length) = text := by
    refine List.ext_getElem (by simp) fun k hk hk' => ?_
    rw [List.getElem_map, List.getElem_range, memcpy, if_pos (by omega), Nat.sub_zero,
      List.getD_eq_getElem?_getD, List.getElem?_eq_getElem hk', Option.getD_some]
  have hread := h.read (fun _ => 0) (2048 - 1) fuel (by decide) hfuel
  rw [Nat.min_eq_left (by omega)] at hread
  rw [executeCommand_cat, cmdCat, hread, Option.map_some, readText, if_neg (by simp), Int.toNat_natCast,
    htext]

/-- `rm` deletes it. -/
theorem FileHolds.rm {L : Layout} (hL : L.Usable) {own : ℕ → List ℕ} {s : ShellState}
    (hinv : VolumeInv L s.disk own) (h : FileHolds L s.disk name text) {fuel : ℕ}
    (hfuel : 2046 < fuel) (ticks : ℕ) : ∃ s',
    executeCommand fuel L ticks s (cstr "rm " ++ name)
      = some (.returned s' [.printf "Deleted '%s'.\n" [.str (some name)]]) ∧
    findEntry L s'.disk name = none := by
  obtain ⟨k, hk, -⟩ := h.entry
  obtain ⟨k', hres, -⟩ := (findEntry_eq_some_iff hL.toWellFormed).1 hk
  obtain ⟨ret, d', own', hafter, hret, -, hrun⟩ := fat16DeleteFile_spec hL hinv name
  obtain rfl := hret.1 ⟨k', hres⟩
  refine ⟨{ s with disk := d' }, ?_, (findEntry_eq_none_iff hL.toWellFormed).2 hafter.gone⟩
  rw [executeCommand_rm, cmdRm, hrun fuel hfuel, Option.map_some, deleteText, if_pos rfl]

/-- What `write N T` has written under the cut name is found under `N`. -/
theorem writeArgs_fileHolds {L : Layout} (hL : L.Usable) {own : ℕ → List ℕ} {s s' : ShellState}
    (h : VolumeInv L s.disk own) (hname : Word name) (htext : 0 ∉ text)
    (hfits : (writeLine name text).length ≤ 127) (hE5 : (toFatName name).byte 0 ≠ 0xE5)
    {fuel : ℕ} {out : List Output}
    (hrun : cmdWrite fuel L s (writeArgs name text) = some (.returned s' out))
    (hok : ReportsWrite out) : FileHolds L s'.disk name (writeData (writeArgs name text)) := by
  have hname0 : 0 ∉ name := fun h0 => (hname 0 h0).1 rfl
  have hstep := cmdWrite_reports hrun hok
  rw [strlen_of_notMem (zero_notMem_writeData hname htext), writeFilename_writeArgs hname] at hstep
  have himage := toFatName_take hname0
  refine hstep.fileHolds hL h (by rwa [himage]) himage.symm ?_
  have hle := writeData_length_le (writeArgs name text)
  unfold writeLine at hfits
  rw [List.length_append] at hfits
  omega

/-- A line `write N T` that succeeds leaves exactly `T` in the file that `N` resolves to, if and only if
    the name has at most 31 characters, and does not begin with the mark of deleted entries. -/
theorem writeLine_holds_iff {L : Layout} {d₀ : Disk} (h₀ : Formatted L d₀) {s s' : ShellState}
    (hreach : Reachable L (fun _ call => call.IsU32) d₀ s.disk) (hname : Word name)
    (htext : 0 ∉ text) (hfits : (writeLine name text).length ≤ 127) {fuel ticks : ℕ}
    {out : List Output}
    (hrun : executeCommand fuel L ticks s (writeLine name text) = some (.returned s' out))
    (hok : ReportsWrite out) :
    FileHolds L s'.disk name text ↔ name.length ≤ 31 ∧ name.head? ≠ some 0xE5 := by
  have hL := h₀.usable
  obtain ⟨own, hinv, -⟩ := h₀.reachable hreach
  have hname0 : 0 ∉ name := fun h0 => (hname 0 h0).1 rfl
  rw [writeLine, executeCommand_write] at hrun
  rw [Ne, ← toFatName_byte_zero_iff hname0]
  constructor
  · intro h
    have hE5 := h.byte_zero_ne hL.toWellFormed
    have hdata := writeArgs_fileHolds hL hinv hname htext hfits hE5 hrun hok
    exact ⟨(writeData_length hname text).1 (hdata.length_eq h), hE5⟩
  · rintro ⟨hle, hE5⟩
    have hdata := writeArgs_fileHolds hL hinv hname htext hfits hE5 hrun hok
    rwa [writeData_of_le hname hle] at hdata

/-! ## On the image of `build.ps1` -/

/-- On the fresh image every such line succeeds. -/
theorem writeLine_hddImage (hname : Word name) (htext : 0 ∉ text)
    (hfits : (writeLine name text).length ≤ 127) : ∃ s' out,
    executeCommand 2047 hddLayout 0 ⟨hddImage, fun _ => 0⟩ (writeLine name text)
      = some (.returned s' out) ∧ ReportsWrite out := by
  have h₀ := hddImage_formatted
  have hle := writeData_length_le (writeArgs name text)
  have hlen := strlen_of_notMem (zero_notMem_writeData hname htext)
  unfold writeLine at hfits ⊢
  rw [List.length_append] at hfits
  obtain ⟨-, -, -, ret, d', printed, -, -, -, -, hrun⟩ := fat16WriteFile_spec h₀.usable
    h₀.volumeInv (writeFilename (writeArgs name text))
    (fun k => (writeData (writeArgs name text)).getD k 0) (strlen (writeData (writeArgs name text)))
  have hn := clustersNeeded_of_lt h₀.usable (show strlen (writeData (writeArgs name text))
    + hddLayout.sectorsPerCluster * 512 < 4294967296 by simp only [hddLayout]; omega)
  have hret : ret = 0 := by
    refine ((Step.write (hrun 2047 (by decide))).write_ret h₀.usable h₀.volumeInv hn).1.2 ?_
    refine h₀.room (by decide) _ ?_
    simp only [hddLayout]
    omega
  rw [executeCommand_write]
  simp only [cmdWrite, hrun 2047 (by decide), Option.map_some, hret]
  exact ⟨_, _, rfl, strlen (writeData (writeArgs name text)), writeFilename (writeArgs name text),
    List.mem_append_right _ (by simp)⟩

/-- `write a.txt`, with a text that begins with a space. -/
theorem writeLine_holds_hddImage : ∃ s' out,
    executeCommand 2047 hddLayout 0 ⟨hddImage, fun _ => 0⟩ (writeLine (cstr "a.txt") (cstr " x"))
      = some (.returned s' out) ∧ FileHolds hddLayout s'.disk (cstr "a.txt") (cstr " x") := by
  have hname : Word (cstr "a.txt") := fun c hc => of_decide_eq_true (List.all_eq_true.1
    (by decide : (cstr "a.txt").all fun c => decide (c ≠ 0 ∧ c ≠ 0x20)) c hc)
  obtain ⟨s', out, hrun, hok⟩ := writeLine_hddImage hname (by decide : 0 ∉ cstr " x") (by decide)
  exact ⟨s', out, hrun, (writeLine_holds_iff (s := ⟨hddImage, fun _ => 0⟩) hddImage_formatted
    Relation.ReflTransGen.refl hname (by decide) (by decide) hrun hok).2 ⟨by decide, by decide⟩⟩

/-- With a name of 32 characters the last of them and the space get into the file. -/
theorem writeLine_cut_hddImage : ∃ s' out,
    executeCommand 2047 hddLayout 0 ⟨hddImage, fun _ => 0⟩
      (writeLine (List.replicate 32 0x61) (cstr "x")) = some (.returned s' out) ∧
    ReportsWrite out ∧ FileHolds hddLayout s'.disk (List.replicate 32 0x61) (cstr "a x") ∧
    ¬ FileHolds hddLayout s'.disk (List.replicate 32 0x61) (cstr "x") := by
  have hname : Word (List.replicate 32 0x61) := by
    intro c hc
    rw [List.eq_of_mem_replicate hc]
    decide
  obtain ⟨s', out, hrun, hok⟩ := writeLine_hddImage hname (by decide : 0 ∉ cstr "x") (by decide)
  have hcmd := hrun
  rw [writeLine, executeCommand_write] at hcmd
  have hdata := writeArgs_fileHolds hddImage_formatted.usable hddImage_formatted.volumeInv hname
    (by decide : 0 ∉ cstr "x") (by decide) (by decide) hcmd hok
  refine ⟨s', out, hrun, hok, hdata, fun h => ?_⟩
  exact absurd (hdata.length_eq h) (by decide)

end BlackHole
