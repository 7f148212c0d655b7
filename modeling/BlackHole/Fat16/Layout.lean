import Mathlib.Tactic.Linarith
import Mathlib.Algebra.Order.Ring.Nat
import BlackHole.Fat16.Driver

set_option autoImplicit false

/-! # The regions of a volume

What `fat16_init` guarantees of the layout it caches, the three regions this gives (the copies of
the FAT, the root directory, the data), and one spec lemma for each driver primitive that touches a
region: which entries, slots or sectors it changes, and that everything else is as it was.

The regions are addressed by plain (unwrapped) arithmetic: `fatLba`, `rootLba`, `dataLba`. -/

namespace BlackHole

open Bytes

/-! ## Layouts -/

/-- The layout `fat16_init` caches: fields as wide as the boot sector's, regions back to back. -/
structure Layout.WellFormed (L : Layout) : Prop where
  fatStart_lt : L.fatStartLba < 65536
  numFats_lt : L.numFats < 256
  fatSize_lt : L.fatSizeSectors < 65536
  sectorsPerCluster_lt : L.sectorsPerCluster < 256
  rootEntryCount_lt : L.rootEntryCount < 65536
  rootDirStart_eq : L.rootDirStartLba = L.fatStartLba + L.numFats * L.fatSizeSectors
  rootDirSectors_eq : L.rootDirSectors = (L.rootEntryCount * 32 + 511) / 512
  dataStart_eq : L.dataStartLba = L.rootDirStartLba + L.rootDirSectors

/-- A layout on which files can be stored: clusters are not empty, there is a FAT, and it has an
    entry for each of the clusters `2..2047` that `fat_alloc_cluster` considers. -/
structure Layout.Usable (L : Layout) : Prop extends L.WellFormed where
  sectorsPerCluster_pos : 1 ≤ L.sectorsPerCluster
  numFats_pos : 1 ≤ L.numFats
  fatSize_ge : 8 ≤ L.fatSizeSectors

theorem mul_lt_of_lt {a b m n : ℕ} (ha : a < m) (hb : b < n) : a * b < m * n :=
  Nat.mul_lt_mul'' ha hb

/-- Every layout that `fat16_init` accepts is well formed. -/
theorem fat16Init_wellFormed {L₀ L : Layout} {d : Disk} {out : Output}
    (h : fat16Init L₀ d = (0, L, out)) : L.WellFormed := by
  simp only [fat16Init] at h
  split at h
  · simp at h
  · simp only [Prod.mk.injEq, true_and] at h
    obtain ⟨rfl, -⟩ := h
    have hres := Buf.u16_lt (ataReadSector d 0) 14
    have hsize := Buf.u16_lt (ataReadSector d 0) 22
    have hroot := Buf.u16_lt (ataReadSector d 0) 17
    have hfats : ((ataReadSector d 0).byte 16).toNat < 256 := UInt8.toNat_lt _
    have hspc : ((ataReadSector d 0).byte 13).toNat < 256 := UInt8.toNat_lt _
    have hmul := mul_lt_of_lt hfats hsize
    refine ⟨hres, hfats, hsize, hspc, hroot, ?_, ?_, ?_⟩ <;>
      simp only [Bpb.ofSector, u32] <;> omega

/-! ## Two-dimensional indices -/

/-- Row and column of `row * width + column` are determined. -/
theorem row_col_inj {w a b i j : ℕ} (hi : i < w) (hj : j < w) (h : a * w + i = b * w + j) :
    a = b ∧ i = j := by
  have hrow : a = b := by
    have ha : (a * w + i) / w = a := by
      rw [Nat.mul_comm, Nat.mul_add_div (by omega), Nat.div_eq_of_lt hi, Nat.add_zero]
    have hb : (b * w + j) / w = b := by
      rw [Nat.mul_comm, Nat.mul_add_div (by omega), Nat.div_eq_of_lt hj, Nat.add_zero]
    rw [← ha, h, hb]
  subst hrow
  exact ⟨rfl, by omega⟩

theorem row_col_lt {w n a i : ℕ} (ha : a < n) (hi : i < w) : a * w + i < n * w := by
  have h : (a + 1) * w ≤ n * w := Nat.mul_le_mul_right w ha
  rw [Nat.add_mul, Nat.one_mul] at h
  omega

/-! ## The FAT copies -/

/-- The sector of copy `f` that holds the entry of cluster `c`. -/
def fatLba (L : Layout) (f c : ℕ) : ℕ := L.fatStartLba + f * L.fatSizeSectors + c / 256

/-- The entry of cluster `c` in copy `f` of the FAT. -/
def fatEntry (L : Layout) (d : Disk) (f c : ℕ) : ℕ := (d (fatLba L f c)).u16 (c % 256 * 2)

/-- Entries of a copy whose sector lies inside the copy. -/
def fatEntries (L : Layout) : ℕ := 256 * L.fatSizeSectors

/-- The sector that the driver computes for the entry of cluster `c` in copy `f`: the sums wrap. -/
def fatSector (L : Layout) (f c : ℕ) : ℕ :=
  u32 (u32 (L.fatStartLba + f * L.fatSizeSectors) + c / 256)

theorem fatSector_eq {L : Layout} (hL : L.WellFormed) {f c : ℕ} (hf : f < 256) (hc : c < 65536) :
    fatSector L f c = fatLba L f c := by
  have hstart := hL.fatStart_lt
  have hmul := mul_lt_of_lt hf hL.fatSize_lt
  unfold fatSector fatLba
  rw [u32_of_lt (show L.fatStartLba + f * L.fatSizeSectors < _ by omega), u32_of_lt (by omega)]

/-- `fat_read_entry` reads the first copy. -/
theorem fatReadEntry_sector (L : Layout) (d : Disk) {c : ℕ} (hc : c < 65536) :
    fatReadEntry L d c = (d (fatSector L 0 c)).u16 (c % 256 * 2) := by
  have hoff : u32 (c * 2) = c * 2 := u32_of_lt (by omega)
  have hsec : u32 (L.fatStartLba + c * 2 / 512) = fatSector L 0 c := by
    unfold fatSector u32
    omega
  simp only [fatReadEntry, ataReadSector, hoff, hsec]
  congr 1
  omega

theorem fatReadEntry_eq {L : Layout} (hL : L.WellFormed) (d : Disk) {c : ℕ} (hc : c < 65536) :
    fatReadEntry L d c = fatEntry L d 0 c := by
  rw [fatReadEntry_sector L d hc, fatSector_eq hL (by decide) hc, fatEntry]

/-- `fat_write_entry` touches exactly the entry's sector in every copy, and there the entry. -/
theorem fatWriteEntry_sector (L : Layout) (d : Disk) {c : ℕ} (hc : c < 65536) (v lba : ℕ) :
    fatWriteEntry L d c v lba
      = if ∃ f < L.numFats, lba = fatSector L f c then (d lba).setU16 (c % 256 * 2) v
        else d lba := by
  have hoff : u32 (c * 2) = c * 2 := u32_of_lt (by omega)
  have hcol : c * 2 % 512 = c % 256 * 2 := by omega
  have hrow : c * 2 / 512 = c / 256 := by omega
  -- after the first `n` copies exactly their sectors are rewritten
  have key : ∀ n, (List.range n).foldl (fun d f =>
      ataWriteSector d (fatSector L f c)
        ((ataReadSector d (fatSector L f c)).setU16 (c % 256 * 2) v)) d lba
      = if ∃ f < n, lba = fatSector L f c then (d lba).setU16 (c % 256 * 2) v else d lba := by
    intro n
    induction n with
    | zero => simp
    | succ n ih =>
        rw [List.range_succ, List.foldl_append, List.foldl_cons, List.foldl_nil]
        simp only [ataWriteSector, ataReadSector] at ih ⊢
        by_cases hlba : lba = fatSector L n c
        · subst hlba
          have hhit : ∃ f < n + 1, fatSector L n c = fatSector L f c := ⟨n, by omega, rfl⟩
          rw [Function.update_self, ih, if_pos hhit]
          split
          · rw [Buf.setU16_setU16]
          · rfl
        · rw [Function.update_of_ne hlba, ih]
          refine if_congr ⟨?_, ?_⟩ rfl rfl
          · rintro ⟨f, hf, h⟩
            exact ⟨f, by omega, h⟩
          · rintro ⟨f, hf, h⟩
            refine ⟨f, ?_, h⟩
            rcases Nat.lt_or_eq_of_le (Nat.lt_succ_iff.1 hf) with hlt | rfl
            · exact hlt
            · exact absurd h hlba
  simp only [fatWriteEntry, hoff, hcol, hrow]
  exact key L.numFats

/-- On a well-formed layout the sectors do not wrap. -/
theorem fatWriteEntry_apply {L : Layout} (hL : L.WellFormed) (d : Disk) {c : ℕ} (hc : c < 65536)
    (v lba : ℕ) :
    fatWriteEntry L d c v lba
      = if ∃ f < L.numFats, lba = fatLba L f c then (d lba).setU16 (c % 256 * 2) v else d lba := by
  rw [fatWriteEntry_sector L d hc]
  refine if_congr (exists_congr fun f => and_congr_right fun hf => ?_) rfl rfl
  rw [fatSector_eq hL (lt_trans hf hL.numFats_lt) hc]

/-- Entries of different copies or in different sectors of a copy lie in different sectors. -/
theorem fatLba_inj {L : Layout} {f g c c' : ℕ} (hc : c < fatEntries L) (hc' : c' < fatEntries L)
    (h : fatLba L f c = fatLba L g c') : f = g ∧ c / 256 = c' / 256 := by
  unfold fatEntries at hc hc'
  unfold fatLba at h
  exact row_col_inj (w := L.fatSizeSectors) (by omega) (by omega) (by omega)

/-- The copies of the FAT lie between the reserved sectors and the root directory. -/
theorem fatLba_mem_region {L : Layout} (hL : L.WellFormed) {f c : ℕ} (hf : f < L.numFats)
    (hc : c < fatEntries L) : L.fatStartLba ≤ fatLba L f c ∧ fatLba L f c < L.rootDirStartLba := by
  unfold fatEntries at hc
  have hlt : f * L.fatSizeSectors + c / 256 < L.numFats * L.fatSizeSectors :=
    row_col_lt hf (by omega)
  have hroot := hL.rootDirStart_eq
  unfold fatLba
  omega

/-- The sectors outside the copies of the FAT. -/
def OutsideFat (L : Layout) (lba : ℕ) : Prop := lba < L.fatStartLba ∨ L.rootDirStartLba ≤ lba

theorem fatWriteEntry_outside {L : Layout} (hL : L.WellFormed) (d : Disk) {c lba : ℕ} (v : ℕ)
    (hc : c < fatEntries L) (hc' : c < 65536) (hlba : OutsideFat L lba) :
    fatWriteEntry L d c v lba = d lba := by
  rw [fatWriteEntry_apply hL d hc', if_neg]
  rintro ⟨f, hf, rfl⟩
  have hreg := fatLba_mem_region hL hf hc
  unfold OutsideFat at hlba
  omega

/-- The FAT is an array, the same in every copy: writing an entry sets it in each of them and leaves
    every other entry alone. -/
theorem fatEntry_fatWriteEntry {L : Layout} (hL : L.WellFormed) (d : Disk) {f c c' v : ℕ}
    (hf : f < L.numFats) (hc : c < fatEntries L) (hc16 : c < 65536) (hc' : c' < fatEntries L)
    (hv : v < 65536) :
    fatEntry L (fatWriteEntry L d c v) f c' = Function.update (fatEntry L d f) c v c' := by
  unfold fatEntry
  rw [fatWriteEntry_apply hL d hc16]
  by_cases hcc : c' = c
  · subst hcc
    rw [if_pos ⟨f, hf, rfl⟩, Function.update_self, Buf.u16_setU16_self _ (by omega),
      Nat.mod_eq_of_lt hv]
  · rw [Function.update_of_ne hcc]
    split
    · next h =>
        obtain ⟨g, -, hg⟩ := h
        have hsec := (fatLba_inj hc' hc hg).2
        exact Buf.u16_setU16_of_disjoint _ _ (by omega)
    · rfl

/-! ## The root directory -/

/-- Number of entries in the root directory's sectors. -/
def rootSlots (L : Layout) : ℕ := entriesPerSector * L.rootDirSectors

/-- The sector that holds slot `k` of the root directory. -/
def rootLba (L : Layout) (k : ℕ) : ℕ := L.rootDirStartLba + k / entriesPerSector

/-- Slot `k` of the root directory. -/
def rootEntry (L : Layout) (d : Disk) (k : ℕ) : DirEntry :=
  sectorEntry (d (rootLba L k)) (k % entriesPerSector)

/-- Replace slot `k` of the root directory. -/
def setRootEntry (L : Layout) (d : Disk) (k : ℕ) (e : DirEntry) : Disk :=
  Function.update d (rootLba L k) (setSectorEntry (d (rootLba L k)) (k % entriesPerSector) e)

theorem rootLba_mem_region {L : Layout} (hL : L.WellFormed) {k : ℕ} (hk : k < rootSlots L) :
    L.rootDirStartLba ≤ rootLba L k ∧ rootLba L k < L.dataStartLba := by
  have hdata := hL.dataStart_eq
  simp only [rootSlots, rootLba, entriesPerSector] at hk ⊢
  omega

theorem u32_rootDirStart_add {L : Layout} (hL : L.WellFormed) {s : ℕ} (hs : s ≤ 65536) :
    u32 (L.rootDirStartLba + s) = L.rootDirStartLba + s := by
  have hmul := mul_lt_of_lt hL.numFats_lt hL.fatSize_lt
  have hroot := hL.rootDirStart_eq
  have hstart := hL.fatStart_lt
  exact u32_of_lt (by omega)

theorem u32_rootLba {L : Layout} (hL : L.WellFormed) {k : ℕ} (hk : k < rootSlots L) :
    u32 (L.rootDirStartLba + k / entriesPerSector) = rootLba L k := by
  have hsec := hL.rootDirSectors_eq
  have hcount := hL.rootEntryCount_lt
  refine u32_rootDirStart_add hL ?_
  simp only [rootSlots, entriesPerSector] at hk ⊢
  omega

/-- The directory scan visits the slots one after the other. -/
theorem rootScan_eq {ρ : Type} {L : Layout} (hL : L.WellFormed) (d : Disk)
    (visit : ℕ → ℕ → DirEntry → Option ρ) :
    rootScan L d visit = (List.range (rootSlots L)).findSome? fun k =>
      visit (k / entriesPerSector) (k % entriesPerSector) (rootEntry L d k) := by
  have hsec := hL.rootDirSectors_eq
  have hcount := hL.rootEntryCount_lt
  refine Eq.trans ?_ (Loop.findSome?_range_nested L.rootDirSectors fun s i =>
    visit s i (sectorEntry (d (L.rootDirStartLba + s)) i))
  apply Loop.findSome?_congr
  intro s hs
  rw [List.mem_range] at hs
  simp only [ataReadSector]
  rw [u32_rootDirStart_add hL (by omega)]

theorem sectorEntry_setSectorEntry (s : Sector) {i j : ℕ} (hi : i < entriesPerSector)
    (e : DirEntry) :
    sectorEntry (setSectorEntry s i e) j = if j = i then e else sectorEntry s j := by
  unfold entriesPerSector at hi
  split
  · next h =>
      subst h
      exact Buf.slice_splice_self (by omega)
  · exact Buf.slice_splice_of_disjoint (by omega)

/-- Replacing a slot changes that slot only. -/
theorem rootEntry_setRootEntry (L : Layout) (d : Disk) (k j : ℕ) (e : DirEntry) :
    rootEntry L (setRootEntry L d k e) j = if j = k then e else rootEntry L d j := by
  have hmod : k % entriesPerSector < entriesPerSector := Nat.mod_lt _ (by decide)
  simp only [rootEntry, setRootEntry]
  by_cases hlba : rootLba L j = rootLba L k
  · rw [hlba, Function.update_self, sectorEntry_setSectorEntry _ hmod]
    refine if_congr ?_ rfl rfl
    simp only [rootLba, entriesPerSector] at hlba ⊢
    omega
  · have hjk : j ≠ k := fun h => hlba (by rw [h])
    rw [Function.update_of_ne hlba, if_neg hjk]

theorem setRootEntry_of_ne {L : Layout} {d : Disk} {k lba : ℕ} {e : DirEntry}
    (h : lba ≠ rootLba L k) : setRootEntry L d k e lba = d lba :=
  Function.update_of_ne h _ _

theorem fatEntry_setRootEntry {L : Layout} (hL : L.WellFormed) (d : Disk) {f c k : ℕ}
    (hf : f < L.numFats) (hc : c < fatEntries L) (hk : k < rootSlots L) (e : DirEntry) :
    fatEntry L (setRootEntry L d k e) f c = fatEntry L d f c := by
  have hfat := fatLba_mem_region hL hf hc
  have hroot := rootLba_mem_region hL hk
  unfold fatEntry
  rw [setRootEntry_of_ne (by omega)]

/-! ## The data clusters -/

/-- Sector `s` of cluster `c`. -/
def dataLba (L : Layout) (c s : ℕ) : ℕ := L.dataStartLba + ((c - 2) * L.sectorsPerCluster + s)

theorem dataStart_lt {L : Layout} (hL : L.WellFormed) : L.dataStartLba < 33554432 := by
  have hmul := mul_lt_of_lt hL.numFats_lt hL.fatSize_lt
  have hstart := hL.fatStart_lt
  have hcount := hL.rootEntryCount_lt
  have hroot := hL.rootDirStart_eq
  have hsec := hL.rootDirSectors_eq
  have hdata := hL.dataStart_eq
  omega

theorem clusterToLba_add {L : Layout} (hL : L.WellFormed) {c s : ℕ} (hc : 2 ≤ c) (hc' : c < 65536)
    (hs : s < 256) : u32 (clusterToLba L c + s) = dataLba L c s := by
  have hdata := dataStart_lt hL
  have hsub : u32sub c 2 = c - 2 := u32sub_of_le hc (by omega)
  have hmul := mul_lt_of_lt (show c - 2 < 65536 by omega) hL.sectorsPerCluster_lt
  unfold clusterToLba dataLba
  rw [hsub, u32_of_lt (show (c - 2) * L.sectorsPerCluster < _ by omega),
    u32_of_lt (show L.dataStartLba + (c - 2) * L.sectorsPerCluster < _ by omega),
    u32_of_lt (by omega), Nat.add_assoc]

theorem clusterToLba_eq {L : Layout} (hL : L.WellFormed) {c : ℕ} (hc : 2 ≤ c) (hc' : c < 65536) :
    clusterToLba L c = dataLba L c 0 := by
  have h0 := clusterToLba_add hL hc hc' (s := 0) (by decide)
  rwa [Nat.add_zero, u32_of_lt (show clusterToLba L c < _ from u32_lt _)] at h0

/-- Different sectors of the data region have different LBAs. -/
theorem dataLba_inj {L : Layout} {c c' s s' : ℕ} (hc : 2 ≤ c) (hc' : 2 ≤ c')
    (hs : s < L.sectorsPerCluster) (hs' : s' < L.sectorsPerCluster)
    (h : dataLba L c s = dataLba L c' s') : c = c' ∧ s = s' := by
  unfold dataLba at h
  have hinj := row_col_inj hs hs' (Nat.add_left_cancel h)
  omega

theorem dataLba_ge (L : Layout) (c s : ℕ) : L.dataStartLba ≤ dataLba L c s := Nat.le_add_right _ _

theorem dataLba_outsideFat {L : Layout} (hL : L.WellFormed) (c s : ℕ) :
    OutsideFat L (dataLba L c s) := by
  have hge := dataLba_ge L c s
  have hdata := hL.dataStart_eq
  exact Or.inr (by omega)

theorem rootLba_outsideFat {L : Layout} (hL : L.WellFormed) {k : ℕ} (hk : k < rootSlots L) :
    OutsideFat L (rootLba L k) :=
  Or.inr (rootLba_mem_region hL hk).1

/-! ## Sectors from entries -/

/-- The copies of the FAT are their entries. -/
theorem fatSector_ext {L : Layout} (hL : L.WellFormed) {d d' : Disk}
    (h : ∀ f < L.numFats, ∀ c < fatEntries L, fatEntry L d' f c = fatEntry L d f c) {lba : ℕ}
    (hlo : L.fatStartLba ≤ lba) (hhi : lba < L.rootDirStartLba) : d' lba = d lba := by
  have hroot := hL.rootDirStart_eq
  have hpos : 0 < L.fatSizeSectors := by
    rcases Nat.eq_zero_or_pos L.fatSizeSectors with h0 | hpos
    · rw [h0, Nat.mul_zero] at hroot
      omega
    · exact hpos
  have hf : (lba - L.fatStartLba) / L.fatSizeSectors < L.numFats :=
    Nat.div_lt_of_lt_mul (by rw [Nat.mul_comm]; omega)
  have hr := Nat.mod_lt (lba - L.fatStartLba) hpos
  have hsplit := Nat.div_add_mod (lba - L.fatStartLba) L.fatSizeSectors
  generalize (lba - L.fatStartLba) / L.fatSizeSectors = f at hf hsplit
  generalize (lba - L.fatStartLba) % L.fatSizeSectors = r at hr hsplit
  rw [Nat.mul_comm] at hsplit
  apply Buf.ext_byte
  intro i hi
  -- byte `i` belongs to entry `i / 2` of the sector
  have hcol : (r * 256 + i / 2) % 256 * 2 = i / 2 * 2 := by omega
  have hlba : fatLba L f (r * 256 + i / 2) = lba := by
    unfold fatLba
    omega
  have hword := h f hf (r * 256 + i / 2) (by unfold fatEntries; omega)
  simp only [fatEntry, hlba, hcol, Buf.u16] at hword
  obtain ⟨hlow, hhigh⟩ := le16_inj hword
  rcases Nat.mod_two_eq_zero_or_one i with heven | hodd
  · rwa [show i / 2 * 2 = i by omega] at hlow
  · rwa [show i / 2 * 2 + 1 = i by omega] at hhigh

/-- The sectors of the root directory are its slots. -/
theorem rootSector_ext {L : Layout} (hL : L.WellFormed) {d d' : Disk}
    (h : ∀ k < rootSlots L, rootEntry L d' k = rootEntry L d k) {lba : ℕ}
    (hlo : L.rootDirStartLba ≤ lba) (hhi : lba < L.dataStartLba) : d' lba = d lba := by
  have hdata := hL.dataStart_eq
  apply Buf.ext_byte
  intro i hi
  -- byte `i` belongs to slot `i / 32` of the sector
  have hslot := h (16 * (lba - L.rootDirStartLba) + i / 32)
    (by unfold rootSlots entriesPerSector; omega)
  have hlba : rootLba L (16 * (lba - L.rootDirStartLba) + i / 32) = lba := by
    unfold rootLba entriesPerSector
    omega
  have hcol : (16 * (lba - L.rootDirStartLba) + i / 32) % entriesPerSector = i / 32 := by
    unfold entriesPerSector
    omega
  have hbyte := congrArg (fun e : DirEntry => e.byte (i % 32)) hslot
  simp only [rootEntry, sectorEntry, hlba, hcol] at hbyte
  rw [Buf.byte_slice (by omega), Buf.byte_slice (by omega), Nat.div_add_mod] at hbyte
  exact hbyte

end BlackHole
