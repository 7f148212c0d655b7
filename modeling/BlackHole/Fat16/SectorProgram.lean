import BlackHole.Fat16.FileStore
import BlackHole.Fat16.Layout
import BlackHole.Lib.BlockProgram

set_option autoImplicit false

/-! # The driver as programs

The functions of `fs/fat16.c` once more, as programs whose steps are the calls of `ata_read_sector` and
`ata_write_sector` in the order in which the source makes them. On a sector store a program does what
the function does (`run_exec`), and it asks for no sector that an address of 28 bits cannot name
(`within_exec`). -/

namespace BlackHole

open Bytes BlockProgram

abbrev SectorProg := Prog ℕ Sector

namespace SectorProg

/-! ## Entries of the FAT -/

def ataReadSector (lba : ℕ) : SectorProg Sector := .read lba .done

def ataWriteSector (lba : ℕ) (s : Sector) : SectorProg Unit := .write lba s (.done ())

/-- `fat_read_entry` -/
def fatReadEntry (L : Layout) (cluster : ℕ) : SectorProg ℕ := do
  let fatOffset := u32 (cluster * 2)
  let fatSector := u32 (L.fatStartLba + fatOffset / 512)
  let entryOffset := fatOffset % 512
  let buf ← ataReadSector fatSector
  return buf.u16 entryOffset

/-- `fat_write_entry` -/
def fatWriteEntry (L : Layout) (cluster value : ℕ) : SectorProg Unit :=
  let fatOffset := u32 (cluster * 2)
  let fatSectorOff := fatOffset / 512
  let entryOffset := fatOffset % 512
  (List.range L.numFats).foldlM (fun _ f => do
    let sector := u32 (u32 (L.fatStartLba + f * L.fatSizeSectors) + fatSectorOff)
    let buf ← ataReadSector sector
    ataWriteSector sector (buf.setU16 entryOffset value)) ()

/-- `fat_alloc_cluster` -/
def fatAllocCluster (L : Layout) : SectorProg ℕ := do
  let r ← (List.range' 2 (2048 - 2)).findSomeM? fun c => do
    let entry ← fatReadEntry L c
    return if entry = 0x0000 then some c else none
  return r.getD 0

/-! ## The root directory -/

/-- The loop over the sectors of the root directory. -/
def rootScan {ρ : Type} (L : Layout) (visit : ℕ → Sector → Option ρ) : SectorProg (Option ρ) :=
  (List.range L.rootDirSectors).findSomeM? fun s => do
    let sector ← ataReadSector (u32 (L.rootDirStartLba + s))
    return visit s sector

/-- The loop over the entries of a sector, which is left with the sector in its buffer. -/
def matchSector (name : List UInt8) (s : ℕ) (sector : Sector) : Option (Option (ℕ × ℕ × Sector)) :=
  ((List.range entriesPerSector).findSome? fun i => matchVisit name s i (sectorEntry sector i)).map
    fun r => r.map fun e => (e.1, e.2, sector)

/-- The scan of `fat16_read_file` and `fat16_delete_file`. -/
def findEntry (L : Layout) (name : List UInt8) : SectorProg (Option (ℕ × ℕ × Sector)) := do
  let r ← rootScan L (matchSector name)
  return r.getD none

/-! ## Reading -/

/-- One iteration of the sector loop of `fat16_read_file`. -/
def readSector (fileSize bufSize lba : ℕ) (st : ReadState) (sec : ℕ) : SectorProg ReadState :=
  if st.bytesRead < fileSize then do
    let tmp ← ataReadSector (u32 (lba + sec))
    let n := toCopy fileSize st.bytesRead bufSize
    return { st with
      buffer := memcpy st.buffer st.bytesRead tmp.byte n
      bytesRead := u32 (st.bytesRead + n) }
  else pure st

/-- One iteration of its loop over the chain. -/
def readCluster (L : Layout) (fileSize bufSize : ℕ) (st : ReadState) :
    SectorProg (ReadState ⊕ ReadState) :=
  if 2 ≤ st.cluster ∧ st.cluster < 0xFFF8 ∧ st.bytesRead < fileSize then do
    let lba := clusterToLba L st.cluster
    let st' ← (List.range L.sectorsPerCluster).foldlM (readSector fileSize bufSize lba) st
    let next ← fatReadEntry L st.cluster
    return .inr { st' with cluster := next }
  else pure (.inl st)

/-- `fat16_read_file` -/
def fat16ReadFile (fuel : ℕ) (L : Layout) (name : List UInt8) (buffer : ℕ → UInt8) (bufSize : ℕ) :
    SectorProg (Option (ℤ × (ℕ → UInt8))) := do
  let found ← findEntry L name
  match found with
  | none => return some (-1, buffer)
  | some (_, i, sector) =>
      let e := sectorEntry sector i
      let r ← Prog.iterate (readCluster L e.fileSize bufSize) fuel ⟨e.firstClusterLo, 0, buffer⟩
      return r.map fun st => (toInt st.bytesRead, st.buffer)

/-! ## Deleting -/

/-- One iteration of the loop of `fat16_delete_file` over the chain. -/
def freeCluster (L : Layout) (cluster : ℕ) : SectorProg (Unit ⊕ ℕ) :=
  if 2 ≤ cluster ∧ cluster < 0xFFF8 then do
    let next ← fatReadEntry L cluster
    fatWriteEntry L cluster 0x0000
    return .inr next
  else pure (.inl ())

/-- `fat16_delete_file` -/
def fat16DeleteFile (fuel : ℕ) (L : Layout) (name : List UInt8) : SectorProg (Option ℤ) := do
  let found ← findEntry L name
  match found with
  | none => return some (-1)
  | some (s, i, sector) =>
      let e := sectorEntry sector i
      let r ← Prog.iterate (freeCluster L) fuel e.firstClusterLo
      match r with
      | none => return none
      | some () =>
          ataWriteSector (u32 (L.rootDirStartLba + s)) (setSectorEntry sector i (e.setByte 0 0xE5))
          return some 0

/-! ## Writing -/

/-- The data of the `c`-th cluster of the file. -/
def writeClusterData (L : Layout) (cluster : ℕ) (data : ℕ → UInt8) (size c : ℕ) : SectorProg Unit :=
  let clusterBytes := L.sectorsPerCluster * 512
  let lba := clusterToLba L cluster
  let offset := u32 (c * clusterBytes)
  (List.range L.sectorsPerCluster).foldlM (fun _ sec =>
    ataWriteSector (u32 (lba + sec)) (paddedSector data size (u32 (offset + sec * 512)))) ()

/-- The allocation loop of `fat16_write_file`, with `first_cluster` and `prev_cluster`; `none` is the
    early `return -1`. -/
def writeClusters (L : Layout) (data : ℕ → UInt8) (size : ℕ) :
    List ℕ → ℕ → ℕ → SectorProg (Option ℕ)
  | [], firstCluster, _ => pure (some firstCluster)
  | c :: cs, firstCluster, prevCluster => do
      let cluster ← fatAllocCluster L
      if cluster = 0 then pure none
      else do
        fatWriteEntry L cluster 0xFFFF
        (if prevCluster ≠ 0 then fatWriteEntry L prevCluster cluster else pure ())
        writeClusterData L cluster data size c
        writeClusters L data size cs (if c = 0 then cluster else firstCluster) cluster

/-- The loop over the entries of a sector for a free slot. -/
def freeSector (s : ℕ) (sector : Sector) : Option (ℕ × ℕ × Sector) :=
  ((List.range entriesPerSector).findSome? fun i => freeVisit s i (sectorEntry sector i)).map
    fun e => (e.1, e.2, sector)

/-- `fat16_write_file` once the old version is deleted: the result and what it has printed; `none` is
    the divide error. -/
def writeNewFile (L : Layout) (name : List UInt8) (data : ℕ → UInt8) (size : ℕ) :
    SectorProg (Option (ℤ × String)) :=
  match clustersNeeded L size with
  | none => pure none
  | some needed => do
      let firstCluster ← writeClusters L data size (List.range needed) 0 0
      match firstCluster with
      | none => return some (-1, "[FAT16] ERROR: Disk full!\n")
      | some first =>
          let slot ← rootScan L freeSector
          match slot with
          | none => return some (-1, "[FAT16] ERROR: Root directory full!\n")
          | some (s, i, sector) =>
              ataWriteSector (u32 (L.rootDirStartLba + s))
                (setSectorEntry sector i (newEntry name first size))
              return some (0, "")

/-- `fat16_write_file`; the outer `none` is a loop that has not come to an end. -/
def fat16WriteFile (fuel : ℕ) (L : Layout) (name : List UInt8) (data : ℕ → UInt8) (size : ℕ) :
    SectorProg (Option (Option (ℤ × String))) := do
  let deleted ← fat16DeleteFile fuel L name
  match deleted with
  | none => return none
  | some _ =>
      let r ← writeNewFile L name data size
      return some r

/-! ## Listing and starting -/

/-- The sector loop of `fat16_list_root`. -/
def listSectors (L : Layout) : List ℕ → ListState → SectorProg ListState
  | [], st => pure st
  | s :: ss, st => do
      let sector ← ataReadSector (u32 (L.rootDirStartLba + s))
      match (List.range entriesPerSector).foldlM (fun st i => listEntry st (sectorEntry sector i)) st with
      | .error st => return st
      | .ok st => listSectors L ss st

/-- `fat16_list_root` -/
def fat16ListRoot (L : Layout) : SectorProg (List Output) := do
  let st ← listSectors L (List.range L.rootDirSectors) ⟨0, []⟩
  return if st.fileCount = 0 then st.out ++ [.printf "  (empty directory)\n" []] else st.out

/-- `fat16_init` -/
def fat16Init (L : Layout) : SectorProg (ℤ × Layout × Output) := do
  let sector ← ataReadSector 0
  let bpb := Bpb.ofSector sector
  if bpb.bytesPerSector ≠ 512 then
    return (-1, L, .printf "[FAT16] ERROR: Unsupported sector size %u\n" [.word bpb.bytesPerSector])
  else
    let fatStartLba := bpb.reservedSectors
    let rootDirStartLba := u32 (fatStartLba + u32 (bpb.numFats * bpb.fatSize16))
    let rootDirSectors := u32 (u32 (bpb.rootEntryCount * 32) + 511) / 512
    let dataStartLba := u32 (rootDirStartLba + rootDirSectors)
    return (0,
      { fatStartLba := fatStartLba
        rootDirStartLba := rootDirStartLba
        dataStartLba := dataStartLba
        rootDirSectors := rootDirSectors
        bytesPerSector := bpb.bytesPerSector
        sectorsPerCluster := bpb.sectorsPerCluster
        rootEntryCount := bpb.rootEntryCount
        fatSizeSectors := bpb.fatSize16
        numFats := bpb.numFats },
      .printf "> FAT16 initialized. Data starts at LBA %u.\n" [.word dataStartLba])

/-- A call of the driver: its answer, and the statics it leaves. -/
def exec (fuel : ℕ) (L : Layout) : FsCall → SectorProg (Option (FsAnswer × Layout))
  | .boot => do
      let r ← fat16Init {}
      return some (.booted r.1 r.2.2, r.2.1)
  | .write name data => do
      let r ← fat16WriteFile fuel L name (fun k => data.getD k 0) data.length
      return (r.bind id).map fun r => (.wrote r.1 r.2, L)
  | .delete name => do
      let r ← fat16DeleteFile fuel L name
      return r.map fun ret => (.deleted ret, L)
  | .read name buffer bufSize => do
      let r ← fat16ReadFile fuel L name buffer bufSize
      return r.map fun r => (.read r.1 r.2, L)
  | .list => do
      let out ← fat16ListRoot L
      return some (.listed out, L)

/-! ## On a sector store -/

section

variable (L : Layout) (d : Disk)

theorem run_fat16Init : (fat16Init L).run d = (BlackHole.fat16Init L d, d) := by
  show Prog.run (if (Bpb.ofSector (d 0)).bytesPerSector ≠ 512 then _ else _) d = _
  simp only [BlackHole.fat16Init, BlackHole.ataReadSector]
  split
  next hsize => exact congrArg (·, d) (if_pos hsize).symm
  next hsize => exact congrArg (·, d) (if_neg hsize).symm

end

/-! ## The sectors that are asked for -/

/-- An address of 28 bits names the sector. -/
def Addressable (lba : ℕ) : Prop := lba < 268435456

section

variable {L : Layout}

theorem within_ataReadSector {lba : ℕ} (h : Addressable lba) :
    (ataReadSector lba).Within Addressable fun _ => True := ⟨h, fun _ => trivial⟩

theorem within_fat16Init (L₀ : Layout) : (fat16Init L₀).Within Addressable fun _ => True := by
  refine (within_ataReadSector (show 0 < 268435456 by decide)).bind fun sector _ => ?_
  by_cases hsize : (Bpb.ofSector sector).bytesPerSector = 512
  · simp only [hsize, ne_eq, not_true_eq_false, if_false]
    exact trivial
  · simp only [ne_eq, hsize, not_false_eq_true, if_true]
    exact trivial

end

end SectorProg

end BlackHole
