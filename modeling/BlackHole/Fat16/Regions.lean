import Mathlib.Order.CompletePartialOrder
import Mathlib.Order.Interval.Set.Disjoint
import BlackHole.Fat16.Formatting

set_option autoImplicit false

/-! # The layout of a volume

Two facts that everything above them rests on. The FAT entries behave as an array, whatever the
statics of the driver hold (`fatWriteEntry_array`). And on the layout of every boot sector that
`fat16_init` accepts the 32-bit arithmetic is exact and the regions are apart
(`fat16Init_regions`). -/

namespace BlackHole

open Bytes

/-! ## The FAT as an array -/

/-- The entry of cluster `c` in copy `f`, where the driver looks for it. -/
def copyEntry (L : Layout) (d : Disk) (f c : ℕ) : ℕ := (d (fatSector L f c)).u16 (c % 256 * 2)

/-- Byte `i` of sector `lba` belongs to the entry of cluster `c` in some copy. -/
def InEntry (L : Layout) (c lba i : ℕ) : Prop :=
  ∃ f < L.numFats, lba = fatSector L f c ∧ (i = c % 256 * 2 ∨ i = c % 256 * 2 + 1)

/-- The sums may wrap: the copies take less than `2 ^ 32` sectors, so that their sectors differ even so. -/
theorem fatSector_inj {L : Layout} (hfats : L.numFats < 256) (hsize : L.fatSizeSectors < 65536)
    {f g c c' : ℕ} (hf : f < L.numFats) (hg : g < L.numFats) (hc : c < fatEntries L)
    (hc' : c' < fatEntries L) (h : fatSector L f c = fatSector L g c') :
    f = g ∧ c / 256 = c' / 256 := by
  have hmul := mul_lt_of_lt hfats hsize
  unfold fatEntries at hc hc'
  have hrow : f * L.fatSizeSectors + c / 256 < L.numFats * L.fatSizeSectors :=
    row_col_lt hf (by omega)
  have hrow' : g * L.fatSizeSectors + c' / 256 < L.numFats * L.fatSizeSectors :=
    row_col_lt hg (by omega)
  have heq : f * L.fatSizeSectors + c / 256 = g * L.fatSizeSectors + c' / 256 := by
    unfold fatSector u32 at h
    omega
  exact row_col_inj (by omega) (by omega) heq

section

variable {L : Layout} {d : Disk} {c v : ℕ}

/-- Outside the entry no byte changes. -/
theorem byte_fatWriteEntry (hc16 : c < 65536) {lba i : ℕ} (hout : ¬ InEntry L c lba i) :
    (fatWriteEntry L d c v lba).byte i = (d lba).byte i := by
  rw [fatWriteEntry_sector L d hc16]
  split
  · next h =>
      obtain ⟨f, hf, hlba⟩ := h
      have hbyte : ¬ (i = c % 256 * 2 ∨ i = c % 256 * 2 + 1) := fun hi => hout ⟨f, hf, hlba, hi⟩
      exact Buf.byte_setU16_of_outside _ _ (by omega)
  · rfl

/-- In each copy the entry is set. -/
theorem copyEntry_fatWriteEntry_self (hc16 : c < 65536) (hv : v < 65536) {f : ℕ}
    (hf : f < L.numFats) : copyEntry L (fatWriteEntry L d c v) f c = v := by
  unfold copyEntry
  rw [fatWriteEntry_sector L d hc16, if_pos ⟨f, hf, rfl⟩, Buf.u16_setU16_self _ (by omega),
    Nat.mod_eq_of_lt hv]

/-- In each copy every other entry is as it was. -/
theorem copyEntry_fatWriteEntry_of_ne (hfats : L.numFats < 256) (hsize : L.fatSizeSectors < 65536)
    (hc : c < fatEntries L) (hc16 : c < 65536) {f c' : ℕ} (hf : f < L.numFats)
    (hc' : c' < fatEntries L) (hne : c' ≠ c) :
    copyEntry L (fatWriteEntry L d c v) f c' = copyEntry L d f c' := by
  unfold copyEntry
  rw [fatWriteEntry_sector L d hc16]
  split
  · next h =>
      obtain ⟨g, hg, hsec⟩ := h
      -- the same sector, at another place in it
      have hrow := (fatSector_inj hfats hsize hf hg hc' hc hsec).2
      exact Buf.u16_setU16_of_disjoint _ _ (by omega)
  · rfl

/-- The FAT is an array, in every copy: for all statics of the types of `fat16.c`, writing an entry makes
    it read as written, leaves every other entry as it was, and touches no other byte of the disk. -/
theorem fatWriteEntry_array (hfats : 1 ≤ L.numFats) (hfats8 : L.numFats < 256)
    (hsize16 : L.fatSizeSectors < 65536) (d : Disk) (hc : c < fatEntries L) (hc16 : c < 65536)
    (hv : v < 65536) :
    let d' := fatWriteEntry L d c v
    fatReadEntry L d' c = v ∧
    (∀ c' < fatEntries L, c' < 65536 → c' ≠ c → fatReadEntry L d' c' = fatReadEntry L d c') ∧
    (∀ f < L.numFats, copyEntry L d' f c = v ∧
      ∀ c' < fatEntries L, c' ≠ c → copyEntry L d' f c' = copyEntry L d f c') ∧
    ∀ lba i, ¬ InEntry L c lba i → (d' lba).byte i = (d lba).byte i := by
  intro d'
  refine ⟨?_, fun c' hc' hc16' hne => ?_, fun f hf => ⟨?_, fun c' hc' hne => ?_⟩,
    fun lba i hout => ?_⟩
  · rw [fatReadEntry_sector L d' hc16]
    exact copyEntry_fatWriteEntry_self hc16 hv hfats
  · rw [fatReadEntry_sector L d' hc16', fatReadEntry_sector L d hc16']
    exact copyEntry_fatWriteEntry_of_ne hfats8 hsize16 hc hc16 hfats hc' hne
  · exact copyEntry_fatWriteEntry_self hc16 hv hf
  · exact copyEntry_fatWriteEntry_of_ne hfats8 hsize16 hc hc16 hf hc' hne
  · exact byte_fatWriteEntry hc16 hout

end

/-- The last entry of a FAT's first sector, on the image of `build.ps1`. -/
theorem fatWriteEntry_array_255 :
    let d' := fatWriteEntry hddLayout hddImage 255 0xFFFF
    fatReadEntry hddLayout d' 255 = 0xFFFF ∧
    (∀ c' < fatEntries hddLayout, c' < 65536 → c' ≠ 255 →
      fatReadEntry hddLayout d' c' = fatReadEntry hddLayout hddImage c') ∧
    (∀ f < hddLayout.numFats, copyEntry hddLayout d' f 255 = 0xFFFF ∧
      ∀ c' < fatEntries hddLayout, c' ≠ 255 →
        copyEntry hddLayout d' f c' = copyEntry hddLayout hddImage f c') ∧
    ∀ lba i, ¬ InEntry hddLayout 255 lba i → (d' lba).byte i = (hddImage lba).byte i :=
  fatWriteEntry_array (by decide) (by decide) (by decide) hddImage (by decide) (by decide)
    (by decide)

/-! ## Arithmetic without wrap-around -/

/-- The exact values of the 32-bit operations in `fat16_init`. -/
def Bpb.layoutValues (bpb : Bpb) : List ℕ :=
  let fatSectors := bpb.numFats * bpb.fatSize16
  let rootDirStartLba := bpb.reservedSectors + fatSectors
  let rootBytes := bpb.rootEntryCount * 32
  [fatSectors, rootDirStartLba, rootBytes, rootBytes + 511, (rootBytes + 511) / 512,
    rootDirStartLba + (rootBytes + 511) / 512]

/-- Those in `cluster_to_lba`. -/
def clusterToLbaValues (L : Layout) (c : ℕ) : List ℕ :=
  [c - 2, (c - 2) * L.sectorsPerCluster, L.dataStartLba + (c - 2) * L.sectorsPerCluster]

/-- Those in `fat_read_entry`. -/
def fatReadEntryValues (L : Layout) (c : ℕ) : List ℕ :=
  [c * 2, c * 2 / 512, L.fatStartLba + c * 2 / 512, c * 2 % 512]

/-- Those in `fat_write_entry`, for copy `f`. -/
def fatWriteEntryValues (L : Layout) (f c : ℕ) : List ℕ :=
  [c * 2, c * 2 / 512, c * 2 % 512, f * L.fatSizeSectors, L.fatStartLba + f * L.fatSizeSectors,
    L.fatStartLba + f * L.fatSizeSectors + c * 2 / 512]

/-- The cluster numbers that a FAT16 entry can hold. -/
def ClusterNumber (c : ℕ) : Prop := 2 ≤ c ∧ c ≤ 0xFFF7

/-- No 32-bit operation wraps: the exact values fit, and the statics, the sectors of an entry and those of
    a cluster are the exact ones and fit in 28 bits. -/
structure ExactArithmetic (bpb : Bpb) (L : Layout) : Prop where
  layout_values : ∀ x ∈ bpb.layoutValues, x < 4294967296
  fatStart_eq : L.fatStartLba = bpb.reservedSectors
  rootDirStart_eq : L.rootDirStartLba = bpb.reservedSectors + bpb.numFats * bpb.fatSize16
  rootDirSectors_eq : L.rootDirSectors = (bpb.rootEntryCount * 32 + 511) / 512
  dataStart_eq : L.dataStartLba = L.rootDirStartLba + L.rootDirSectors
  dataStart_lt : L.dataStartLba < 268435456
  cluster_values : ∀ c, ClusterNumber c → ∀ x ∈ clusterToLbaValues L c, x < 4294967296
  clusterToLba_eq : ∀ c, ClusterNumber c →
    clusterToLba L c = L.dataStartLba + (c - 2) * L.sectorsPerCluster
  cluster_lt : ∀ c, ClusterNumber c → clusterToLba L c + L.sectorsPerCluster < 268435456
  read_values : ∀ c, ClusterNumber c → ∀ x ∈ fatReadEntryValues L c, x < 4294967296
  read_eq : ∀ c, ClusterNumber c → ∀ d, fatReadEntry L d c
    = (d (L.fatStartLba + c * 2 / 512)).u16 (c * 2 % 512)
  read_lt : ∀ c, ClusterNumber c → L.fatStartLba + c * 2 / 512 < 268435456
  write_values : ∀ c, ClusterNumber c → ∀ f < L.numFats,
    (∀ x ∈ fatWriteEntryValues L f c, x < 4294967296) ∧ f * L.fatSizeSectors < 2147483648
  write_eq : ∀ c, ClusterNumber c → ∀ d v lba, fatWriteEntry L d c v lba
    = if ∃ f < L.numFats, lba = fatSector L f c then (d lba).setU16 (c * 2 % 512) v else d lba
  fatSector_eq : ∀ c, ClusterNumber c → ∀ f < L.numFats,
    fatSector L f c = L.fatStartLba + f * L.fatSizeSectors + c * 2 / 512
  write_lt : ∀ c, ClusterNumber c → ∀ f < L.numFats, fatSector L f c < 268435456

section

variable {L : Layout} {c : ℕ}

theorem fatSector_exact (hL : L.WellFormed) (hc : ClusterNumber c) {f : ℕ} (hf : f < 256) :
    fatSector L f c = L.fatStartLba + f * L.fatSizeSectors + c * 2 / 512 := by
  unfold ClusterNumber at hc
  rw [fatSector_eq hL hf (by omega), fatLba]
  omega

/-- A cluster number times an 8-bit field, and a copy number times a 16-bit field. -/
theorem offset_lt (hL : L.WellFormed) (hc : ClusterNumber c) :
    (c - 2) * L.sectorsPerCluster < 16777216 ∧ ∀ f < L.numFats, f * L.fatSizeSectors < 16777216 := by
  unfold ClusterNumber at hc
  refine ⟨?_, fun f hf => mul_lt_of_lt (lt_trans hf hL.numFats_lt) hL.fatSize_lt⟩
  exact mul_lt_of_lt (show c - 2 < 65536 by omega) hL.sectorsPerCluster_lt

theorem clusterToLbaValues_lt (hL : L.WellFormed) (hc : ClusterNumber c) :
    ∀ x ∈ clusterToLbaValues L c, x < 4294967296 := by
  have hdata := dataStart_lt hL
  have hoff := (offset_lt hL hc).1
  unfold clusterToLbaValues
  unfold ClusterNumber at hc
  simp only [List.forall_mem_cons, List.not_mem_nil, false_imp_iff, implies_true, and_true]
  omega

theorem fatReadEntryValues_lt (hL : L.WellFormed) (hc : ClusterNumber c) :
    ∀ x ∈ fatReadEntryValues L c, x < 4294967296 := by
  have hstart := hL.fatStart_lt
  unfold fatReadEntryValues
  unfold ClusterNumber at hc
  simp only [List.forall_mem_cons, List.not_mem_nil, false_imp_iff, implies_true, and_true]
  omega

theorem fatWriteEntryValues_lt (hL : L.WellFormed) (hc : ClusterNumber c) {f : ℕ}
    (hf : f < L.numFats) : ∀ x ∈ fatWriteEntryValues L f c, x < 4294967296 := by
  have hstart := hL.fatStart_lt
  have hoff := (offset_lt hL hc).2 f hf
  unfold fatWriteEntryValues
  unfold ClusterNumber at hc
  simp only [List.forall_mem_cons, List.not_mem_nil, false_imp_iff, implies_true, and_true]
  omega

/-- A cluster ends below `2 ^ 28`. -/
theorem clusterToLba_lt (hL : L.WellFormed) (hc : ClusterNumber c) :
    clusterToLba L c + L.sectorsPerCluster < 268435456 := by
  have hdata := dataStart_lt hL
  have hspc := hL.sectorsPerCluster_lt
  have hoff := (offset_lt hL hc).1
  unfold ClusterNumber at hc
  rw [clusterToLba_eq hL hc.1 (by omega), dataLba]
  omega

theorem fatSector_lt (hL : L.WellFormed) (hc : ClusterNumber c) {f : ℕ} (hf : f < L.numFats) :
    fatSector L f c < 268435456 := by
  have hstart := hL.fatStart_lt
  have hoff := (offset_lt hL hc).2 f hf
  rw [fatSector_exact hL hc (lt_trans hf hL.numFats_lt)]
  unfold ClusterNumber at hc
  omega

end

section

variable {L₀ L : Layout} {d : Disk} {out : Output}

theorem fat16Init_statics (h : fat16Init L₀ d = (0, L, out)) :
    L.fatStartLba = (Bpb.ofSector (d 0)).reservedSectors ∧
    L.numFats = (Bpb.ofSector (d 0)).numFats ∧
    L.fatSizeSectors = (Bpb.ofSector (d 0)).fatSize16 ∧
    L.rootEntryCount = (Bpb.ofSector (d 0)).rootEntryCount := by
  simp only [fat16Init] at h
  split at h
  · simp at h
  · simp only [Prod.mk.injEq, true_and] at h
    obtain ⟨rfl, -⟩ := h
    exact ⟨rfl, rfl, rfl, rfl⟩

theorem layoutValues_lt (h : fat16Init L₀ d = (0, L, out)) :
    ∀ x ∈ (Bpb.ofSector (d 0)).layoutValues, x < 4294967296 := by
  have hL := fat16Init_wellFormed h
  obtain ⟨hstart, hfats, hsize, hcount⟩ := fat16Init_statics h
  have hstart_lt := hL.fatStart_lt
  have hcount_lt := hL.rootEntryCount_lt
  have hmul := mul_lt_of_lt hL.numFats_lt hL.fatSize_lt
  unfold Bpb.layoutValues
  rw [← hstart, ← hfats, ← hsize, ← hcount]
  simp only [List.forall_mem_cons, List.not_mem_nil, false_imp_iff, implies_true, and_true]
  omega

/-- The statics of an accepted boot sector are the values of its fields, and nothing wraps. -/
theorem fat16Init_exactArithmetic (h : fat16Init L₀ d = (0, L, out)) :
    ExactArithmetic (Bpb.ofSector (d 0)) L := by
  have hL := fat16Init_wellFormed h
  obtain ⟨hstart, hfats, hsize, hcount⟩ := fat16Init_statics h
  have hc16 : ∀ {c}, ClusterNumber c → c < 65536 := fun hc => lt_of_le_of_lt hc.2 (by decide)
  exact {
    layout_values := layoutValues_lt h
    fatStart_eq := hstart
    rootDirStart_eq := by rw [hL.rootDirStart_eq, hstart, hfats, hsize]
    rootDirSectors_eq := by rw [hL.rootDirSectors_eq, hcount]
    dataStart_eq := hL.dataStart_eq
    dataStart_lt := lt_trans (dataStart_lt hL) (by decide)
    cluster_values := fun c hc => clusterToLbaValues_lt hL hc
    clusterToLba_eq := fun c hc => clusterToLba_eq hL hc.1 (hc16 hc)
    cluster_lt := fun c hc => clusterToLba_lt hL hc
    read_values := fun c hc => fatReadEntryValues_lt hL hc
    read_eq := fun c hc d => by
      rw [fatReadEntry_sector L d (hc16 hc), fatSector_exact hL hc (by decide), Nat.zero_mul,
        Nat.add_zero, show c % 256 * 2 = c * 2 % 512 by omega]
    read_lt := fun c hc => by
      have hstart_lt := hL.fatStart_lt
      have hlt := hc16 hc
      omega
    write_values := fun c hc f hf =>
      ⟨fatWriteEntryValues_lt hL hc hf, lt_trans ((offset_lt hL hc).2 f hf) (by decide)⟩
    write_eq := fun c hc d v lba => by
      rw [fatWriteEntry_sector L d (hc16 hc), show c * 2 % 512 = c % 256 * 2 by omega]
    fatSector_eq := fun c hc f hf => fatSector_exact hL hc (lt_trans hf hL.numFats_lt)
    write_lt := fun c hc f hf => fatSector_lt hL hc hf }

end

/-! ## Regions -/

/-- The sectors of copy `f` of the FAT. -/
def fatCopy (L : Layout) (f : ℕ) : Set ℕ :=
  Set.Ico (L.fatStartLba + f * L.fatSizeSectors) (L.fatStartLba + (f + 1) * L.fatSizeSectors)

/-- The sectors of the root directory. -/
def rootRegion (L : Layout) : Set ℕ :=
  Set.Ico L.rootDirStartLba (L.rootDirStartLba + L.rootDirSectors)

/-- The sectors of cluster `c`. -/
def clusterRegion (L : Layout) (c : ℕ) : Set ℕ :=
  Set.Ico (clusterToLba L c) (clusterToLba L c + L.sectorsPerCluster)

/-- No sector belongs to two of: a copy of the FAT, the root directory, a cluster. -/
structure RegionsApart (L : Layout) : Prop where
  copies : ∀ f < L.numFats, ∀ g < L.numFats, f ≠ g → Disjoint (fatCopy L f) (fatCopy L g)
  copy_root : ∀ f < L.numFats, Disjoint (fatCopy L f) (rootRegion L)
  copy_cluster : ∀ f < L.numFats, ∀ c, ClusterNumber c →
    Disjoint (fatCopy L f) (clusterRegion L c)
  root_cluster : ∀ c, ClusterNumber c → Disjoint (rootRegion L) (clusterRegion L c)
  clusters : ∀ c, ClusterNumber c → ∀ c', ClusterNumber c' → c ≠ c' →
    Disjoint (clusterRegion L c) (clusterRegion L c')

section

variable {L : Layout} {c : ℕ}

/-- The copies lie one behind the other, up to the root directory. -/
theorem fatCopy_end (hL : L.WellFormed) {f g : ℕ} (hf : f < g) (hg : g ≤ L.numFats) :
    (f + 1) * L.fatSizeSectors ≤ g * L.fatSizeSectors ∧
      L.fatStartLba + g * L.fatSizeSectors ≤ L.rootDirStartLba := by
  have hroot := hL.rootDirStart_eq
  have hle := Nat.mul_le_mul_right L.fatSizeSectors hg
  exact ⟨Nat.mul_le_mul_right _ hf, by omega⟩

theorem fatCopy_disjoint (hL : L.WellFormed) {f g : ℕ} (hf : f < g) (hg : g < L.numFats) :
    Disjoint (fatCopy L f) (fatCopy L g) := by
  have hend := (fatCopy_end hL hf hg.le).1
  unfold fatCopy
  rw [Set.disjoint_left]
  rintro lba ⟨-, hlt⟩ ⟨hge, -⟩
  omega

theorem clusterRegion_ge (hL : L.WellFormed) (hc : ClusterNumber c) :
    ∀ lba ∈ clusterRegion L c, L.dataStartLba ≤ lba := by
  rintro lba ⟨hge, -⟩
  rw [clusterToLba_eq hL hc.1 (lt_of_le_of_lt hc.2 (by decide))] at hge
  exact le_trans (dataLba_ge L c 0) hge

/-- A sector of a cluster, by its number in the cluster. -/
theorem mem_clusterRegion (hL : L.WellFormed) (hc : ClusterNumber c) {lba : ℕ}
    (h : lba ∈ clusterRegion L c) : ∃ s < L.sectorsPerCluster, lba = dataLba L c s := by
  obtain ⟨hge, hlt⟩ := h
  have hbase := clusterToLba_eq hL hc.1 (lt_of_le_of_lt hc.2 (by decide))
  unfold dataLba at hbase ⊢
  exact ⟨lba - clusterToLba L c, by omega, by omega⟩

theorem regionsApart (hL : L.WellFormed) : RegionsApart L := by
  have hdata := hL.dataStart_eq
  refine ⟨fun f hf g hg hne => ?_, fun f hf => ?_, fun f hf c hc => ?_, fun c hc => ?_,
    fun c hc c' hc' hne => ?_⟩
  · rcases Nat.lt_or_gt_of_ne hne with hlt | hgt
    · exact fatCopy_disjoint hL hlt hg
    · exact (fatCopy_disjoint hL hgt hf).symm
  · have hend : L.fatStartLba + (f + 1) * L.fatSizeSectors ≤ L.rootDirStartLba :=
      (fatCopy_end hL (Nat.lt_succ_self f) hf).2
    rw [Set.disjoint_left]
    rintro lba ⟨-, hlt⟩ ⟨hge, -⟩
    omega
  · have hend : L.fatStartLba + (f + 1) * L.fatSizeSectors ≤ L.rootDirStartLba :=
      (fatCopy_end hL (Nat.lt_succ_self f) hf).2
    rw [Set.disjoint_left]
    rintro lba ⟨-, hlt⟩ hmem
    have hge := clusterRegion_ge hL hc lba hmem
    omega
  · rw [Set.disjoint_left]
    rintro lba ⟨-, hlt⟩ hmem
    have hge := clusterRegion_ge hL hc lba hmem
    omega
  · rw [Set.disjoint_left]
    intro lba hmem hmem'
    obtain ⟨s, hs, rfl⟩ := mem_clusterRegion hL hc hmem
    obtain ⟨s', hs', heq⟩ := mem_clusterRegion hL hc' hmem'
    exact hne (dataLba_inj hc.1 hc'.1 hs hs' heq).1

/-- The entries of a copy lie in the copy. -/
theorem fatSector_mem_fatCopy (hL : L.WellFormed) (hc : ClusterNumber c) (hentry : c < fatEntries L)
    {f : ℕ} (hf : f < L.numFats) : fatSector L f c ∈ fatCopy L f := by
  unfold fatEntries at hentry
  rw [fatSector_exact hL hc (lt_trans hf hL.numFats_lt)]
  have hnext : (f + 1) * L.fatSizeSectors = f * L.fatSizeSectors + L.fatSizeSectors :=
    Nat.succ_mul ..
  refine ⟨by omega, ?_⟩
  omega

end

/-- For every boot sector that `fat16_init` accepts: no 32-bit operation wraps, all LBAs fit in 28 bits,
    the copies of the FAT, the root directory and the clusters are apart, the clusters begin at
    `data_start_lba`, and the entries of a copy of the FAT lie in it. -/
theorem fat16Init_regions {L₀ L : Layout} {d : Disk} {out : Output}
    (h : fat16Init L₀ d = (0, L, out)) :
    ExactArithmetic (Bpb.ofSector (d 0)) L ∧ RegionsApart L ∧
    (∀ c, ClusterNumber c → ∀ lba ∈ clusterRegion L c, L.dataStartLba ≤ lba) ∧
    ∀ c, ClusterNumber c → c < 256 * L.fatSizeSectors → ∀ f < L.numFats,
      fatSector L f c ∈ fatCopy L f := by
  have hL := fat16Init_wellFormed h
  exact ⟨fat16Init_exactArithmetic h, regionsApart hL, fun c hc => clusterRegion_ge hL hc,
    fun c hc hentry f hf => fatSector_mem_fatCopy hL hc hentry hf⟩

theorem fat16Init_regions_hddImage :
    ExactArithmetic (Bpb.ofSector (hddImage 0)) hddLayout ∧ RegionsApart hddLayout ∧
    (∀ c, ClusterNumber c → ∀ lba ∈ clusterRegion hddLayout c, hddLayout.dataStartLba ≤ lba) ∧
    ∀ c, ClusterNumber c → c < 256 * hddLayout.fatSizeSectors → ∀ f < hddLayout.numFats,
      fatSector hddLayout f c ∈ fatCopy hddLayout f :=
  fat16Init_regions fat16Init_hddImage

end BlackHole
