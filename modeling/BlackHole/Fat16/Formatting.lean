import BlackHole.Fat16.Volume

set_option autoImplicit false

/-! # Freshly formatted volumes

What it means for a volume to be freshly formatted, and the image `build.ps1` writes as an example
of one. -/

namespace BlackHole

open Bytes

/-! ## Formatting -/

/-- A freshly formatted volume and the layout `fat16_init` caches of it. That sector 0 is reserved
    need not be asked for: an empty FAT on it would not give a sector size of 512. -/
structure Formatted (L : Layout) (d : Disk) : Prop where
  init : ∃ L₀ out, fat16Init L₀ d = (0, L, out)
  sectorsPerCluster_pos : 1 ≤ L.sectorsPerCluster
  numFats_pos : 1 ≤ L.numFats
  fatSize_ge : 8 ≤ L.fatSizeSectors
  fat_zero : ∀ f < L.numFats, ∀ c < fatEntries L, 2 ≤ c → fatEntry L d f c = 0
  root_zero : ∀ k < rootSlots L, ∀ i < 32, (rootEntry L d k).byte i = 0

theorem Formatted.usable {L : Layout} {d : Disk} (h : Formatted L d) : L.Usable := by
  obtain ⟨L₀, out, hinit⟩ := h.init
  exact ⟨fat16Init_wellFormed hinit, h.sectorsPerCluster_pos, h.numFats_pos, h.fatSize_ge⟩

theorem Formatted.not_live {L : Layout} {d : Disk} (h : Formatted L d) {k : ℕ} :
    ¬ LiveSlot L d k :=
  fun hk => hk.2.1 (h.root_zero k hk.1 0 (by decide))

/-- Nobody owns anything on a freshly formatted volume. -/
theorem Formatted.volumeInv {L : Layout} {d : Disk} (h : Formatted L d) :
    VolumeInv L d fun _ => [] := by
  refine ⟨fun f hf c hc h2 => ?_, fun k hk => absurd hk h.not_live, fun k hk => absurd hk h.not_live,
    fun _ _ => rfl, fun _ _ _ => List.disjoint_nil_left _, fun k _ hk => absurd hk h.not_live,
    fun k hk => absurd hk h.not_live⟩
  rw [h.fat_zero f hf c hc h2, h.fat_zero 0 h.numFats_pos c hc h2]

theorem Formatted.freeClusters_eq {L : Layout} {d : Disk} (h : Formatted L d) :
    freeClusters L d = List.range' 2 2046 := by
  rw [freeClusters, List.filter_eq_self]
  intro c hc
  rw [List.mem_range'_1] at hc
  rw [h.fat_zero 0 h.numFats_pos c (lt_fatEntries h.usable (by omega)) hc.1, beq_self_eq_true]

/-! ## The image of `build.ps1` -/

/-- The bytes `build.ps1` sets in its all-zero 1 MB image: the BPB, the boot signature and the first
    two entries of both copies of the FAT. -/
def hddBytes : List (ℕ × UInt8) :=
  [ (0, 0xEB), (1, 0x3C), (2, 0x90),
    (3, 0x42), (4, 0x48), (5, 0x4F), (6, 0x4C), (7, 0x45), (8, 0x31), (9, 0x36), (10, 0x20),
    (11, 0x00), (12, 0x02), -- bytes per sector
    (13, 0x01), -- sectors per cluster
    (14, 0x01), (15, 0x00), -- reserved sectors
    (16, 0x02), -- number of FATs
    (17, 0x00), (18, 0x02), -- root entry count
    (19, 0x00), (20, 0x08), -- total sectors
    (21, 0xF8), -- media type
    (22, 0x08), (23, 0x00), -- FAT size
    (24, 0x20), (25, 0x00), (26, 0x02), (27, 0x00),
    (28, 0x00), (29, 0x00), (30, 0x00), (31, 0x00),
    (32, 0x00), (33, 0x00), (34, 0x00), (35, 0x00),
    (510, 0x55), (511, 0xAA),
    (512, 0xF8), (513, 0xFF), (514, 0xFF), (515, 0xFF),
    (4608, 0xF8), (4609, 0xFF), (4610, 0xFF), (4611, 0xFF) ]

/-- The image as a disk. -/
def hddImage : Disk := fun lba => Buf.ofFn fun k => (hddBytes.lookup (512 * lba + k)).getD 0

/-- The layout of the image. -/
def hddLayout : Layout where
  fatStartLba := 1
  rootDirStartLba := 17
  dataStartLba := 49
  rootDirSectors := 32
  bytesPerSector := 512
  sectorsPerCluster := 1
  rootEntryCount := 512
  fatSizeSectors := 8
  numFats := 2

theorem fat16Init_hddImage : fat16Init {} hddImage
    = (0, hddLayout, .printf "> FAT16 initialized. Data starts at LBA %u.\n" [.word 49]) := by
  decide +kernel

/-- Behind the boot sector only the first two entries of each copy of the FAT are set. -/
theorem hddImage_byte_eq_zero {lba k : ℕ} (hk : k < 512)
    (h : 516 ≤ 512 * lba + k ∧ (512 * lba + k < 4608 ∨ 4612 ≤ 512 * lba + k)) :
    (hddImage lba).byte k = 0 := by
  have hset : ∀ p ∈ hddBytes, p.1 < 516 ∨ 4608 ≤ p.1 ∧ p.1 < 4612 := by decide
  have hnone : hddBytes.lookup (512 * lba + k) = none := by
    rw [List.lookup_eq_none_iff]
    intro p hp
    have hp := hset p hp
    rw [bne_iff_ne]
    omega
  rw [hddImage, Buf.byte_ofFn _ hk, hnone, Option.getD_none]

/-- The image is a freshly formatted volume. -/
theorem hddImage_formatted : Formatted hddLayout hddImage where
  init := ⟨{}, _, fat16Init_hddImage⟩
  sectorsPerCluster_pos := by decide
  numFats_pos := by decide
  fatSize_ge := by decide
  fat_zero := by
    intro f hf c hc h2
    simp only [hddLayout, fatEntries] at hf hc
    simp only [fatEntry, Buf.u16, le16, fatLba, hddLayout]
    rw [hddImage_byte_eq_zero (by omega) (by omega), hddImage_byte_eq_zero (by omega) (by omega)]
    rfl
  root_zero := by
    intro k hk i hi
    simp only [rootSlots, entriesPerSector, hddLayout] at hk
    simp only [rootEntry, sectorEntry, rootLba, entriesPerSector, hddLayout]
    rw [Buf.byte_slice hi, hddImage_byte_eq_zero (by omega) (by omega)]

end BlackHole
