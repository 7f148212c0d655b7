import BlackHole.Fat16.Driver

set_option autoImplicit false

/-! # Listing the root directory

`fat16_list_root`. It changes nothing; what it prints depends on the root directory alone. -/

namespace BlackHole

/-- `FAT16_ATTR_VOLUME_ID` -/
def fat16AttrVolumeId : UInt8 := 0x08

/-- `FAT16_ATTR_LONG_NAME` -/
def fat16AttrLongName : UInt8 := 0x0F

/-- The bytes written to `name[13]` before its NUL: the name without its spaces, and a dot and the
    extension where there is one. -/
def displayName (n : FatName) : List UInt8 :=
  let base := ((List.range 8).map n.byte).filter (· ≠ 0x20)
  if n.byte 8 ≠ 0x20 then base ++ 0x2E :: ((List.range' 8 3).map n.byte).filter (· ≠ 0x20)
  else base

/-- `file_count`, and what has been printed. -/
structure ListState where
  fileCount : ℕ
  out : List Output

/-- One entry; the error is the `goto done` at the first unused entry. -/
def listEntry (st : ListState) (e : DirEntry) : Except ListState ListState :=
  if e.firstByte = 0x00 then .error st
  else if e.firstByte = 0xE5 then .ok st
  else if e.attr &&& fat16AttrVolumeId ≠ 0 then .ok st
  else if e.attr &&& fat16AttrLongName ≠ 0 then .ok st
  else .ok
    { fileCount := st.fileCount + 1
      out := st.out ++
        [.printf "  %-13s %u bytes\n" [.str (some (displayName e.name)), .word e.fileSize]] }

/-- `fat16_list_root` -/
def fat16ListRoot (L : Layout) (d : Disk) : List Output :=
  let scan := (List.range L.rootDirSectors).foldlM (fun st s =>
    let sector := ataReadSector d (u32 (L.rootDirStartLba + s))
    (List.range entriesPerSector).foldlM (fun st i => listEntry st (sectorEntry sector i)) st)
    (⟨0, []⟩ : ListState)
  let st := match scan with
    | .ok st => st
    | .error st => st
  if st.fileCount = 0 then st.out ++ [.printf "  (empty directory)\n" []] else st.out

end BlackHole
