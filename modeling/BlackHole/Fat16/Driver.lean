import BlackHole.CTypes
import BlackHole.Lib.Bytes
import BlackHole.Lib.Loop
import BlackHole.Libc.Stdio

set_option autoImplicit false

/-! # The FAT16 driver

`fs/fat16.c` over an ideal sector store (a function from LBAs to 512-byte sectors, which returns
what was last written). The file-level statics are the record `Layout`; every driver function takes
them and the disk as arguments and returns what it changes, its result and what it prints.

Counted `for` loops are folds over `List.range`; the two loops that follow a cluster chain are
`Loop.iterate`, so the functions that contain them take an amount of fuel and return `none` while
the chain has not come to an end. -/

namespace BlackHole

open Bytes

/-! ## Disk structures -/

abbrev Sector := Buf 512

/-- The sector store behind the ATA driver. -/
abbrev Disk := ℕ → Sector

/-- `ata_read_sector`. -/
def ataReadSector (d : Disk) (lba : ℕ) : Sector := d lba

/-- `ata_write_sector`. -/
def ataWriteSector (d : Disk) (lba : ℕ) (s : Sector) : Disk := Function.update d lba s

/-- The fields of `bpb_t` that the driver (or its format) relies on. -/
structure Bpb where
  bytesPerSector : ℕ
  sectorsPerCluster : ℕ
  reservedSectors : ℕ
  numFats : ℕ
  rootEntryCount : ℕ
  totalSectors16 : ℕ
  fatSize16 : ℕ

/-- The packed `bpb_t` at the start of a boot sector. -/
def Bpb.ofSector (s : Sector) : Bpb where
  bytesPerSector := s.u16 11
  sectorsPerCluster := (s.byte 13).toNat
  reservedSectors := s.u16 14
  numFats := (s.byte 16).toNat
  rootEntryCount := s.u16 17
  totalSectors16 := s.u16 19
  fatSize16 := s.u16 22

/-- An 11-byte 8.3 name. -/
abbrev FatName := Buf 11

/-- The 32 bytes of a `fat16_dir_entry_t`. -/
abbrev DirEntry := Buf 32

namespace DirEntry

def name (e : DirEntry) : FatName := e.slice 11 0

def attr (e : DirEntry) : UInt8 := e.byte 11

def firstClusterLo (e : DirEntry) : ℕ := e.u16 26

def fileSize (e : DirEntry) : ℕ := e.u32 28

/-- `name[0]`, which also marks unused (`0x00`) and deleted (`0xE5`) entries. -/
def firstByte (e : DirEntry) : UInt8 := e.byte 0

end DirEntry

/-- `FAT16_ATTR_ARCHIVE` -/
def fat16AttrArchive : UInt8 := 0x20

/-- `512 / sizeof(fat16_dir_entry_t)` -/
def entriesPerSector : ℕ := 16

/-- Entry `i` of a sector seen as an array of directory entries. -/
def sectorEntry (s : Sector) (i : ℕ) : DirEntry := s.slice 32 (32 * i)

/-- A sector with its entry `i` replaced. -/
def setSectorEntry (s : Sector) (i : ℕ) (e : DirEntry) : Sector := s.splice (32 * i) e

/-! ## Helpers -/

/-- The statics of `fat16.c`: the layout `fat16_init` caches, all zero before it has run. -/
structure Layout where
  fatStartLba : ℕ := 0
  rootDirStartLba : ℕ := 0
  dataStartLba : ℕ := 0
  rootDirSectors : ℕ := 0
  bytesPerSector : ℕ := 0
  sectorsPerCluster : ℕ := 0
  rootEntryCount : ℕ := 0
  fatSizeSectors : ℕ := 0
  numFats : ℕ := 0
deriving DecidableEq

/-- `cluster_to_lba`; `cluster - 2` is an `int` that is converted to `uint32_t`. -/
def clusterToLba (L : Layout) (cluster : ℕ) : ℕ :=
  u32 (L.dataStartLba + u32 (u32sub cluster 2 * L.sectorsPerCluster))

/-- `fat_read_entry` -/
def fatReadEntry (L : Layout) (d : Disk) (cluster : ℕ) : ℕ :=
  let fatOffset := u32 (cluster * 2)
  let fatSector := u32 (L.fatStartLba + fatOffset / 512)
  let entryOffset := fatOffset % 512
  (ataReadSector d fatSector).u16 entryOffset

/-- `fat_write_entry`: read, modify and write the entry's sector in every copy of the FAT. -/
def fatWriteEntry (L : Layout) (d : Disk) (cluster value : ℕ) : Disk :=
  let fatOffset := u32 (cluster * 2)
  let fatSectorOff := fatOffset / 512
  let entryOffset := fatOffset % 512
  (List.range L.numFats).foldl (fun d f =>
    let sector := u32 (u32 (L.fatStartLba + f * L.fatSizeSectors) + fatSectorOff)
    let buf := ataReadSector d sector
    ataWriteSector d sector (buf.setU16 entryOffset value)) d

/-- `fat_alloc_cluster`: the first zero entry of clusters `2..2047`, or `0`. -/
def fatAllocCluster (L : Layout) (d : Disk) : ℕ :=
  ((List.range' 2 (2048 - 2)).find? fun c => fatReadEntry L d c == 0x0000).getD 0

/-! ## Names

A name is the byte string behind a `const char *`: it ends at its first NUL or with the list. -/

/-- Upper-case `a`-`z`. -/
def upperCase (c : UInt8) : UInt8 :=
  if 0x61 ≤ c ∧ c ≤ 0x7A then c - 32 else c

/-- The copying loop of `to_fat_name`: copy upper-cased characters to `fat_name[j++]` until the
    input ends, a character satisfies `stop` or `j` reaches `limit`. Returns the rest of the input
    and the name so far. -/
def copyUpper (stop : UInt8 → Bool) (limit : ℕ) : List UInt8 → ℕ → FatName → List UInt8 × FatName
  | [], _, out => ([], out)
  | c :: input, j, out =>
      if c ≠ 0 ∧ ¬ stop c ∧ j < limit then
        copyUpper stop limit input (j + 1) (out.setByte j (upperCase c))
      else (c :: input, out)

/-- `to_fat_name`: `"hello.txt"` becomes `"HELLO   TXT"`. -/
def toFatName (input : List UInt8) : FatName :=
  let blank : FatName := Buf.ofFn fun _ => 0x20
  let base := copyUpper (fun c => c == 0x2E) 8 input 0 blank
  match base.1 with
  | c :: ext => if c = 0x2E then (copyUpper (fun _ => false) 11 ext 8 base.2).2 else base.2
  | [] => base.2

/-- `fat_name_match` -/
def fatNameMatch (input : List UInt8) (dirName : FatName) : Bool :=
  (List.range 11).all fun i => (toFatName input).byte i == dirName.byte i

/-! ## Initialisation -/

/-- `fat16_init`: the result, the statics it leaves and what it prints. -/
def fat16Init (L : Layout) (d : Disk) : ℤ × Layout × Output :=
  let bpb := Bpb.ofSector (ataReadSector d 0)
  if bpb.bytesPerSector ≠ 512 then
    (-1, L, .printf "[FAT16] ERROR: Unsupported sector size %u\n" [.word bpb.bytesPerSector])
  else
    let fatStartLba := bpb.reservedSectors
    let rootDirStartLba := u32 (fatStartLba + u32 (bpb.numFats * bpb.fatSize16))
    let rootDirSectors := u32 (u32 (bpb.rootEntryCount * 32) + 511) / 512
    let dataStartLba := u32 (rootDirStartLba + rootDirSectors)
    (0,
      { fatStartLba := fatStartLba
        rootDirStartLba := rootDirStartLba
        dataStartLba := dataStartLba
        rootDirSectors := rootDirSectors
        bytesPerSector := bpb.bytesPerSector
        sectorsPerCluster := bpb.sectorsPerCluster
        rootEntryCount := bpb.rootEntryCount
        fatSizeSectors := bpb.fatSize16
        numFats := bpb.numFats },
      .printf "> FAT16 initialized. Data starts at LBA %u.\n" [.word dataStartLba])

/-! ## The root directory -/

/-- The nested loops over the root directory: visit every entry of every root sector in order, and
    leave with the first result a visit yields. -/
def rootScan {ρ : Type} (L : Layout) (d : Disk) (visit : ℕ → ℕ → DirEntry → Option ρ) : Option ρ :=
  (List.range L.rootDirSectors).findSome? fun s =>
    let sector := ataReadSector d (u32 (L.rootDirStartLba + s))
    (List.range entriesPerSector).findSome? fun i => visit s i (sectorEntry sector i)

/-- The scan of `fat16_read_file` and `fat16_delete_file`: a `0x00` entry ends it, a `0xE5` entry
    and one of another name are passed over. `some none` is the early `return -1`. -/
def matchVisit (name : List UInt8) (s i : ℕ) (e : DirEntry) : Option (Option (ℕ × ℕ)) :=
  if e.firstByte = 0x00 then some none
  else if e.firstByte = 0xE5 then none
  else if ¬ fatNameMatch name e.name then none
  else some (some (s, i))

/-- The root sector and the index of the entry a name resolves to. -/
def findEntry (L : Layout) (d : Disk) (name : List UInt8) : Option (ℕ × ℕ) :=
  (rootScan L d (matchVisit name)).getD none

/-! ## Reading -/

/-- `memcpy` of `n` bytes of `src` to offset `off` of `dst`. -/
def memcpy (dst : ℕ → UInt8) (off : ℕ) (src : ℕ → UInt8) (n : ℕ) : ℕ → UInt8 :=
  fun k => if off ≤ k ∧ k < off + n then src (k - off) else dst k

/-- The locals of the read loop, and the caller's buffer. -/
structure ReadState where
  cluster : ℕ
  bytesRead : ℕ
  buffer : ℕ → UInt8

/-- The number of bytes one sector contributes. -/
def toCopy (fileSize bytesRead bufSize : ℕ) : ℕ :=
  let n := u32sub fileSize bytesRead
  let n := if n > 512 then 512 else n
  if u32 (bytesRead + n) > bufSize then u32sub bufSize bytesRead else n

/-- One iteration of the sector loop; once `bytes_read` has reached `file_size` nothing happens. -/
def readSector (d : Disk) (fileSize bufSize lba : ℕ) (st : ReadState) (sec : ℕ) : ReadState :=
  if st.bytesRead < fileSize then
    let tmp := ataReadSector d (u32 (lba + sec))
    let n := toCopy fileSize st.bytesRead bufSize
    { st with
      buffer := memcpy st.buffer st.bytesRead tmp.byte n
      bytesRead := u32 (st.bytesRead + n) }
  else st

/-- One iteration of the loop over the chain. -/
def readCluster (L : Layout) (d : Disk) (fileSize bufSize : ℕ) (st : ReadState) :
    ReadState ⊕ ReadState :=
  if 2 ≤ st.cluster ∧ st.cluster < 0xFFF8 ∧ st.bytesRead < fileSize then
    let lba := clusterToLba L st.cluster
    let st' := (List.range L.sectorsPerCluster).foldl (readSector d fileSize bufSize lba) st
    .inr { st' with cluster := fatReadEntry L d st.cluster }
  else .inl st

/-- `fat16_read_file`: the result and the buffer it leaves. -/
def fat16ReadFile (fuel : ℕ) (L : Layout) (d : Disk) (name : List UInt8) (buffer : ℕ → UInt8)
    (bufSize : ℕ) : Option (ℤ × (ℕ → UInt8)) :=
  match findEntry L d name with
  | none => some (-1, buffer)
  | some (s, i) =>
      let e := sectorEntry (ataReadSector d (u32 (L.rootDirStartLba + s))) i
      (Loop.iterate (readCluster L d e.fileSize bufSize) fuel ⟨e.firstClusterLo, 0, buffer⟩).map
        fun st => (toInt st.bytesRead, st.buffer)

/-! ## Deleting -/

/-- One iteration of the chain-freeing loop: read the link, then zero it in every copy. -/
def freeCluster (L : Layout) (st : ℕ × Disk) : Disk ⊕ (ℕ × Disk) :=
  if 2 ≤ st.1 ∧ st.1 < 0xFFF8 then
    let next := fatReadEntry L st.2 st.1
    .inr (next, fatWriteEntry L st.2 st.1 0x0000)
  else .inl st.2

/-- `fat16_delete_file`. The root sector that is written back is the one read before the chain was
    freed. -/
def fat16DeleteFile (fuel : ℕ) (L : Layout) (d : Disk) (name : List UInt8) : Option (ℤ × Disk) :=
  match findEntry L d name with
  | none => some (-1, d)
  | some (s, i) =>
      let sector := ataReadSector d (u32 (L.rootDirStartLba + s))
      let e := sectorEntry sector i
      (Loop.iterate (freeCluster L) fuel (e.firstClusterLo, d)).map fun d' =>
        (0, ataWriteSector d' (u32 (L.rootDirStartLba + s))
          (setSectorEntry sector i (e.setByte 0 0xE5)))

/-! ## Writing -/

/-- The 512 bytes written to the sector that holds the data from `dataOffset` on: zero padded behind
    the end of the data. -/
def paddedSector (data : ℕ → UInt8) (size dataOffset : ℕ) : Sector :=
  if dataOffset < size then
    let n := u32sub size dataOffset
    let n := if n > 512 then 512 else n
    Buf.ofFn (memcpy (fun _ => 0) 0 (fun k => data (dataOffset + k)) n)
  else Buf.ofFn fun _ => 0

/-- Write the data of the `c`-th cluster of the file to the sectors of `cluster`. -/
def writeClusterData (L : Layout) (d : Disk) (cluster : ℕ) (data : ℕ → UInt8) (size c : ℕ) : Disk :=
  let clusterBytes := L.sectorsPerCluster * 512
  let lba := clusterToLba L cluster
  let offset := u32 (c * clusterBytes)
  (List.range L.sectorsPerCluster).foldl (fun d sec =>
    ataWriteSector d (u32 (lba + sec)) (paddedSector data size (u32 (offset + sec * 512)))) d

/-- The locals of the allocation loop, and the disk. -/
structure AllocState where
  firstCluster : ℕ
  prevCluster : ℕ
  disk : Disk

/-- One iteration of the allocation loop: allocate, mark as end of chain, link the previous cluster
    and write the data. The error is the early `return -1` on a full disk. -/
def writeCluster (L : Layout) (data : ℕ → UInt8) (size : ℕ) (st : AllocState) (c : ℕ) :
    Except Disk AllocState :=
  let cluster := fatAllocCluster L st.disk
  if cluster = 0 then .error st.disk
  else
    let d := fatWriteEntry L st.disk cluster 0xFFFF
    let d := if st.prevCluster ≠ 0 then fatWriteEntry L d st.prevCluster cluster else d
    .ok
      { firstCluster := if c = 0 then cluster else st.firstCluster
        prevCluster := cluster
        disk := writeClusterData L d cluster data size c }

/-- `clusters_needed`; `none` is the division by a zero cluster size. -/
def clustersNeeded (L : Layout) (size : ℕ) : Option ℕ :=
  let clusterBytes := L.sectorsPerCluster * 512
  if clusterBytes = 0 then none
  else
    let n := u32sub (u32 (size + clusterBytes)) 1 / clusterBytes
    some (if n = 0 then 1 else n)

/-- A free slot of the root directory. -/
def freeVisit (s i : ℕ) (e : DirEntry) : Option (ℕ × ℕ) :=
  if e.firstByte = 0x00 ∨ e.firstByte = 0xE5 then some (s, i) else none

/-- The entry `fat16_write_file` puts into a free slot: cleared, then filled in. -/
def newEntry (name : List UInt8) (firstCluster size : ℕ) : DirEntry :=
  let e : DirEntry := Buf.ofFn fun _ => 0
  let e := e.splice 0 (toFatName name)
  let e := e.setByte 11 fat16AttrArchive
  let e := e.setU16 26 firstCluster
  e.setU32 28 size

/-- How a call of `fat16_write_file` ends: with a divide error, or with a result, the disk it leaves
    and what it printed. -/
inductive WriteOutcome where
  | divideError (disk : Disk)
  | returned (ret : ℤ) (disk : Disk) (printed : String)

/-- `fat16_write_file` once the old version is deleted: allocate and write the clusters, then find a
    free directory entry and populate it. -/
def writeNewFile (L : Layout) (d : Disk) (name : List UInt8) (data : ℕ → UInt8) (size : ℕ) :
    WriteOutcome :=
  match clustersNeeded L size with
  | none => .divideError d
  | some needed =>
      match (List.range needed).foldlM (writeCluster L data size) ⟨0, 0, d⟩ with
      | .error d => .returned (-1) d "[FAT16] ERROR: Disk full!\n"
      | .ok st =>
          match rootScan L st.disk freeVisit with
          | none => .returned (-1) st.disk "[FAT16] ERROR: Root directory full!\n"
          | some (s, i) =>
              let lba := u32 (L.rootDirStartLba + s)
              let sector := ataReadSector st.disk lba
              .returned 0 (ataWriteSector st.disk lba
                (setSectorEntry sector i (newEntry name st.firstCluster size))) ""

/-- `fat16_write_file`: delete an existing file of the same name, ignoring the result, and write the
    new one. -/
def fat16WriteFile (fuel : ℕ) (L : Layout) (d : Disk) (name : List UInt8) (data : ℕ → UInt8)
    (size : ℕ) : Option WriteOutcome :=
  (fat16DeleteFile fuel L d name).map fun r => writeNewFile L r.2 name data size

end BlackHole
