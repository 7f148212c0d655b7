import BlackHole.Fat16.History
import BlackHole.Shell.Commands

set_option autoImplicit false

/-! # The copies of the FAT under the shell

The file commands go through the driver, which writes every copy of the FAT; `diskwrite` writes a
fixed sector, which on the image of `build.ps1` lies in the second copy. `shell_fatCopies_identical`
is about every sequence of commands without it. -/

namespace BlackHole

open Bytes

/-! ## Runs of the shell -/

/-- A command line as `keyboard_readline` leaves it in `cmd_buffer`: at most `MAX_CMD_LEN - 1`
    bytes before the NUL. -/
structure CommandLine where
  bytes : List UInt8
  no_nul : 0 ∉ bytes
  length_le : bytes.length ≤ 127

/-- `s'` is reached from `s` by commands that satisfy `ok` and return, at whatever times. -/
def ShellRun (L : Layout) (ok : CommandLine → Prop) : ShellState → ShellState → Prop :=
  Relation.ReflTransGen fun s s' => ∃ cmd fuel ticks out, ok cmd ∧
    executeCommand fuel L ticks s cmd.bytes = some (.returned s' out)

/-! ## What a command does to the disk -/

theorem cmdCat_disk {fuel : ℕ} {L : Layout} {s s' : ShellState} {filename : List UInt8}
    {out : List Output} (h : cmdCat fuel L s filename = some (.returned s' out)) :
    s'.disk = s.disk := by
  obtain ⟨r, -, hr⟩ := Option.map_eq_some_iff.1 h
  cases hr
  rfl

theorem cmdWrite_disk {fuel : ℕ} {L : Layout} {s s' : ShellState} {args : List UInt8}
    {out : List Output} (h : cmdWrite fuel L s args = some (.returned s' out)) :
    ∃ call ret, Step L s.disk call ret s'.disk := by
  obtain ⟨outcome, hrun, hr⟩ := Option.map_eq_some_iff.1 h
  cases outcome with
  | divideError d => cases hr
  | returned ret d printed =>
      cases hr
      exact ⟨_, ret, .write hrun⟩

theorem cmdRm_disk {fuel : ℕ} {L : Layout} {s s' : ShellState} {filename : List UInt8}
    {out : List Output} (h : cmdRm fuel L s filename = some (.returned s' out)) :
    ∃ call ret, Step L s.disk call ret s'.disk := by
  obtain ⟨r, hrun, hr⟩ := Option.map_eq_some_iff.1 h
  cases hr
  exact ⟨_, r.1, .delete hrun⟩

/-- A command that returns leaves the disk alone, makes one call of the driver, or is `diskwrite`. -/
theorem Command.exec_disk {fuel ticks : ℕ} {L : Layout} {s s' : ShellState} {c : Command}
    {out : List Output} (h : c.exec fuel L ticks s = some (.returned s' out)) :
    s'.disk = s.disk ∨ (∃ call ret, Step L s.disk call ret s'.disk) ∨ c = .diskWrite := by
  cases c with
  | alloc =>
      obtain ⟨r, -, hr⟩ := Option.map_eq_some_iff.1 h
      cases hr
      exact Or.inl rfl
  | pageFault => cases h
  | diskWrite => exact Or.inr (Or.inr rfl)
  | cat filename => exact Or.inl (cmdCat_disk h)
  | write args => exact Or.inr (Or.inl (cmdWrite_disk h))
  | rm filename => exact Or.inr (Or.inl (cmdRm_disk h))
  | _ =>
      cases h
      exact Or.inl rfl

/-- Without `diskwrite` the disk moves by calls of the driver. -/
theorem ShellRun.reachable {L : Layout} {s s' : ShellState}
    (h : ShellRun L (fun cmd => cmd.bytes ≠ cstr "diskwrite") s s') :
    Reachable L (fun _ _ => True) s.disk s'.disk := by
  induction h with
  | refl => exact Relation.ReflTransGen.refl
  | tail _ hstep ih =>
      obtain ⟨cmd, fuel, ticks, out, hok, hrun⟩ := hstep
      rw [executeCommand_parse cmd.no_nul] at hrun
      rcases Command.exec_disk hrun with hsame | ⟨call, ret, hs⟩ | hdiskwrite
      · exact hsame ▸ ih
      · exact ih.tail ⟨call, ret, trivial, hs⟩
      · have hline := Command.line_parse cmd.bytes
        rw [hdiskwrite] at hline
        exact absurd hline.symm hok

/-! ## The copies of the FAT -/

/-- Every copy of the FAT is, byte for byte, the first one. -/
def FatCopiesIdentical (L : Layout) (d : Disk) : Prop :=
  ∀ f < L.numFats, ∀ i < L.fatSizeSectors,
    d (L.fatStartLba + f * L.fatSizeSectors + i) = d (L.fatStartLba + i)

/-- A sector is determined by its words. -/
theorem sector_ext_u16 {a b : Sector} (h : ∀ w < 256, a.u16 (w * 2) = b.u16 (w * 2)) : a = b := by
  apply Buf.ext_byte
  intro k hk
  obtain ⟨h0, h1⟩ := le16_inj (h (k / 2) (by omega))
  rcases Nat.mod_two_eq_zero_or_one k with hmod | hmod
  · have hk2 : k / 2 * 2 = k := by omega
    rwa [hk2] at h0
  · have hk2 : k / 2 * 2 + 1 = k := by omega
    rwa [hk2] at h1

theorem fatCopiesIdentical_of_entries {L : Layout} {d : Disk}
    (h : ∀ f < L.numFats, ∀ c < fatEntries L, fatEntry L d f c = fatEntry L d 0 c) :
    FatCopiesIdentical L d := by
  intro f hf i hi
  apply sector_ext_u16
  intro w hw
  have hentry := h f hf (256 * i + w) (by unfold fatEntries; omega)
  have hdiv : (256 * i + w) / 256 = i := by omega
  have hmod : (256 * i + w) % 256 = w := by omega
  simpa only [fatEntry, fatLba, hdiv, hmod, Nat.zero_mul, Nat.add_zero] using hentry

/-- The driver keeps the copies identical if they were formatted so. -/
theorem Formatted.fatCopiesIdentical {L : Layout} {d₀ d : Disk} (h₀ : Formatted L d₀)
    (hreserved : ∀ f < L.numFats, ∀ c < 2, fatEntry L d₀ f c = fatEntry L d₀ 0 c)
    {ok : Disk → Call → Prop} (h : Reachable L ok d₀ d) : FatCopiesIdentical L d := by
  obtain ⟨own, hinv, hun, -⟩ := h₀.reachable h
  refine fatCopiesIdentical_of_entries fun f hf c hc => ?_
  by_cases h2 : 2 ≤ c
  · exact hinv.agree f hf c hc h2
  · rw [hun.reserved f hf c (by omega), hun.reserved 0 h₀.numFats_pos c (by omega)]
    exact hreserved f hf c (by omega)

theorem hddImage_reserved : ∀ f < hddLayout.numFats, ∀ c < 2,
    fatEntry hddLayout hddImage f c = fatEntry hddLayout hddImage 0 c := by
  decide +kernel

/-- On the image of `build.ps1` the copies of the FAT are identical after every sequence of commands
    none of which is `diskwrite`. -/
theorem shell_fatCopies_identical {s s' : ShellState} (h₀ : s.disk = hddImage)
    (hrun : ShellRun hddLayout (fun cmd => cmd.bytes ≠ cstr "diskwrite") s s') :
    FatCopiesIdentical hddLayout s'.disk :=
  hddImage_formatted.fatCopiesIdentical hddImage_reserved (h₀ ▸ hrun.reachable)

/-- A first command `write A x` returns and keeps the copies identical. -/
theorem shell_fatCopies_identical_write : ∃ s' out,
    executeCommand 2047 hddLayout 0 ⟨hddImage, fun _ => 0⟩ (cstr "write A x")
      = some (.returned s' out) ∧ FatCopiesIdentical hddLayout s'.disk := by
  obtain ⟨-, -, -, ret, d', printed, -, -, -, -, hwrite⟩ := fat16WriteFile_spec
    hddImage_formatted.usable hddImage_formatted.volumeInv (cstr "A")
    (fun k => (cstr "x").getD k 0) 1
  have hdispatch : executeCommand 2047 hddLayout 0 ⟨hddImage, fun _ => 0⟩ (cstr "write A x")
      = cmdWrite 2047 hddLayout ⟨hddImage, fun _ => 0⟩ (cstr "A x") := rfl
  have hname : writeFilename (cstr "A x") = cstr "A" := by decide
  have hdata : writeData (cstr "A x") = cstr "x" := by decide
  have hlen : strlen (cstr "x") = 1 := by decide
  have hrun : ∃ out, cmdWrite 2047 hddLayout ⟨hddImage, fun _ => 0⟩ (cstr "A x")
      = some (.returned ⟨d', fun _ => 0⟩ out) := by
    simp only [cmdWrite, hname, hdata, hlen, hwrite 2047 (by decide)]
    exact ⟨_, rfl⟩
  rw [← hdispatch] at hrun
  obtain ⟨out, hrun⟩ := hrun
  refine ⟨_, out, hrun, shell_fatCopies_identical (s := ⟨hddImage, fun _ => 0⟩) rfl
    (Relation.ReflTransGen.single ⟨⟨cstr "write A x", by decide, by decide⟩, 2047, 0, out, ?_, hrun⟩)⟩
  show cstr "write A x" ≠ cstr "diskwrite"
  decide

/-- `diskwrite` on the fresh image returns, and leaves the copies different. -/
theorem shell_fatCopies_diskwrite :
    fat16Init {} hddImage = (0, hddLayout, .printf "> FAT16 initialized. Data starts at LBA %u.\n" [.word 49]) ∧
    ∃ s' out, executeCommand 0 hddLayout 0 ⟨hddImage, fun _ => 0⟩ (cstr "diskwrite")
      = some (.returned s' out) ∧ ¬ FatCopiesIdentical hddLayout s'.disk := by
  refine ⟨fat16Init_hddImage, ⟨ataWriteSector hddImage 10 diskWriteBuffer, fun _ => 0⟩, _, rfl,
    fun h => ?_⟩
  have hsector := h 1 (by decide) 1 (by decide)
  have hlba : hddLayout.fatStartLba + 1 * hddLayout.fatSizeSectors + 1 = 10 := rfl
  rw [hlba, show hddLayout.fatStartLba + 1 = 2 from rfl] at hsector
  have hbyte : (ataWriteSector hddImage 10 diskWriteBuffer 10).byte 0
      ≠ (ataWriteSector hddImage 10 diskWriteBuffer 2).byte 0 := by decide +kernel
  exact hbyte (congrArg (fun b : Sector => b.byte 0) hsector)

end BlackHole
