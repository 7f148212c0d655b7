import BlackHole.Fat16.Formatting
import BlackHole.Fat16.Reading
import Mathlib.Data.Finset.Card
import Mathlib.Data.Finset.Filter
import Mathlib.Order.Interval.Finset.Nat

set_option autoImplicit false

/-! # Chains that need not end

The two loops along a cluster chain on a disk of any content. The one that frees a chain zeroes each
entry it reads, so it cannot go round a cycle; the one that reads a file is bounded by the file's size
only as long as the caller's buffer is large enough for it. -/

namespace BlackHole

open Bytes

/-! ## A chain that goes round -/

/-- The image of `build.ps1` with one file `A` of 65536 bytes whose only cluster links to itself. -/
def cyclicImage : Disk :=
  fatWriteEntry hddLayout (setRootEntry hddLayout hddImage 0 (newEntry [0x41] 2 65536)) 2 2

theorem fat16Init_cyclicImage : fat16Init {} cyclicImage
    = (0, hddLayout, .printf "> FAT16 initialized. Data starts at LBA %u.\n" [.word 49]) := by
  decide +kernel

theorem findEntry_cyclicImage : findEntry hddLayout cyclicImage [0x41] = some (0, 0) := by
  decide +kernel

/-- The entry of the file. -/
def cyclicEntry : DirEntry := sectorEntry (ataReadSector cyclicImage (u32 (17 + 0))) 0

theorem cyclicEntry_fields : cyclicEntry.firstClusterLo = 2 ∧ cyclicEntry.fileSize = 65536 := by
  decide +kernel

/-! ## Deleting -/

/-- The nonzero entries among those of the clusters `2..0xFFF7`, as `fat_read_entry` reads them. -/
def nonzeroEntries (L : Layout) (d : Disk) : ℕ :=
  ((Finset.Ico 2 0xFFF8).filter fun c => fatReadEntry L d c ≠ 0).card

/-- A store of zero at an even offset leaves the other words of the sector alone. -/
theorem u16_setU16_zero (b : Sector) {i j : ℕ} (hi : i + 2 ≤ 512) (h : i % 2 = 0) (h' : j % 2 = 0) :
    (b.setU16 i 0).u16 j = if j = i then 0 else b.u16 j := by
  split
  next heq => rw [heq, Buf.u16_setU16_self b hi]
  next hne => exact Buf.u16_setU16_of_disjoint b 0 (by omega)

/-- Freeing a cluster zeroes its entry in the copy that is read, and otherwise zeroes entries of that
    copy or leaves them alone: also where the other copies overlap the first. -/
theorem fatReadEntry_free {L : Layout} (hL : L.WellFormed) (hfats : 1 ≤ L.numFats) (d : Disk)
    {c x : ℕ} (hc : c < 65536) (hx : x < 65536) :
    (x = c → fatReadEntry L (fatWriteEntry L d c 0) x = 0)
      ∧ (fatReadEntry L (fatWriteEntry L d c 0) x = 0
        ∨ fatReadEntry L (fatWriteEntry L d c 0) x = fatReadEntry L d x) := by
  rw [fatReadEntry_eq hL _ hx, fatReadEntry_eq hL d hx]
  unfold fatEntry
  rw [fatWriteEntry_apply hL d hc]
  split
  next =>
    rw [u16_setU16_zero _ (by omega) (by omega) (by omega)]
    refine ⟨fun h => if_pos (by rw [h]), ?_⟩
    split
    · exact Or.inl rfl
    · exact Or.inr rfl
  next hnot => exact ⟨fun h => absurd ⟨0, hfats, by rw [h]⟩ hnot, Or.inr rfl⟩

/-- The entry that was zeroed no longer counts, and no other begins to. -/
theorem nonzeroEntries_free {L : Layout} (hL : L.WellFormed) (hfats : 1 ≤ L.numFats) (d : Disk)
    {c : ℕ} (hc : 2 ≤ c ∧ c < 0xFFF8) (hne : fatReadEntry L d c ≠ 0) :
    nonzeroEntries L (fatWriteEntry L d c 0) < nonzeroEntries L d := by
  apply Finset.card_lt_card
  rw [Finset.ssubset_iff_of_subset]
  · refine ⟨c, ?_, ?_⟩
    · simpa [hne] using hc
    · have hzero := (fatReadEntry_free hL hfats d (x := c) (by omega) (by omega)).1 rfl
      simp [hzero]
  · intro x hx
    rw [Finset.mem_filter, Finset.mem_Ico] at hx ⊢
    refine ⟨hx.1, fun h0 => hx.2 ?_⟩
    rcases (fatReadEntry_free hL hfats d (c := c) (x := x) (by omega) (by omega)).2 with h | h
    · exact h
    · rw [h, h0]

/-- A bound on the passes of the chain-freeing loop: one for each nonzero entry, and a last one for a
    cluster whose link is zero. -/
def freePasses (L : Layout) (st : ℕ × Disk) : ℕ :=
  if 2 ≤ st.1 ∧ st.1 < 0xFFF8 then nonzeroEntries L st.2 + 1 else 0

theorem freeCluster_passes {L : Layout} (hL : L.WellFormed) (hfats : 1 ≤ L.numFats)
    {st st' : ℕ × Disk} (hbody : freeCluster L st = .inr st') :
    freePasses L st' < freePasses L st := by
  obtain ⟨c, d⟩ := st
  unfold freeCluster at hbody
  split at hbody
  next hc =>
    cases hbody
    simp only [freePasses]
    rw [if_pos hc]
    simp only at hc
    by_cases hlink : fatReadEntry L d c = 0
    · rw [hlink, if_neg (by omega)]
      omega
    · have hlt := nonzeroEntries_free hL hfats d hc hlink
      split <;> omega
  next => cases hbody

/-- The chain-freeing loop goes on at most once more than there are nonzero entries. -/
theorem freeCluster_leavesWithin {L : Layout} (hL : L.WellFormed) (hfats : 1 ≤ L.numFats) (c : ℕ)
    (d : Disk) : Loop.LeavesWithin (freeCluster L) (c, d) (nonzeroEntries L d + 1) := by
  obtain ⟨r, hr⟩ := Loop.leavesWithin_of_measure (fun _ => True) (freePasses L)
    (fun _ _ _ hbody => ⟨trivial, freeCluster_passes hL hfats hbody⟩) (c, d) trivial
  refine ⟨r, fun fuel hfuel => hr fuel ?_⟩
  unfold freePasses
  split <;> omega

/-- `fat16_delete_file` returns on every disk content, and its loop along the chain goes on at most
    once more than there are nonzero entries. -/
theorem fat16DeleteFile_terminates {L₀ L : Layout} {d : Disk} {out : Output}
    (hinit : fat16Init L₀ d = (0, L, out)) (hfats : 1 ≤ L.numFats) (name : List UInt8) :
    (∃ r, ∀ fuel, nonzeroEntries L d + 1 < fuel → fat16DeleteFile fuel L d name = some r)
      ∧ ∀ s i, findEntry L d name = some (s, i) →
        Loop.LeavesWithin (freeCluster L)
          ((sectorEntry (ataReadSector d (u32 (L.rootDirStartLba + s))) i).firstClusterLo, d)
          (nonzeroEntries L d + 1) := by
  have hL := fat16Init_wellFormed hinit
  refine ⟨?_, fun s i _ => freeCluster_leavesWithin hL hfats _ d⟩
  rcases hfind : findEntry L d name with _ | ⟨s, i⟩
  · exact ⟨(-1, d), fun fuel _ => by simp [fat16DeleteFile, hfind]⟩
  · obtain ⟨d', hloop⟩ := freeCluster_leavesWithin hL hfats
      (sectorEntry (ataReadSector d (u32 (L.rootDirStartLba + s))) i).firstClusterLo d
    refine ⟨(0, ataWriteSector d' (u32 (L.rootDirStartLba + s))
      (setSectorEntry (ataReadSector d (u32 (L.rootDirStartLba + s))) i
        ((sectorEntry (ataReadSector d (u32 (L.rootDirStartLba + s))) i).setByte 0 0xE5))),
      fun fuel hfuel => ?_⟩
    simp [fat16DeleteFile, hfind, hloop fuel hfuel]

theorem fat16DeleteFile_terminates_cyclicImage :
    (∃ r, ∀ fuel, nonzeroEntries hddLayout cyclicImage + 1 < fuel →
      fat16DeleteFile fuel hddLayout cyclicImage [0x41] = some r)
    ∧ Loop.LeavesWithin (freeCluster hddLayout) (cyclicEntry.firstClusterLo, cyclicImage)
        (nonzeroEntries hddLayout cyclicImage + 1) :=
  have h := fat16DeleteFile_terminates fat16Init_cyclicImage (by decide) [0x41]
  ⟨h.1, h.2 0 0 findEntry_cyclicImage⟩

/-! ## Reading -/

/-- The chain from `c` leaves the clusters: some value along it is free, reserved or an end mark. -/
def ChainEnds (L : Layout) (d : Disk) (c : ℕ) : Prop :=
  ∃ k, ¬ (2 ≤ (fatReadEntry L d)^[k] c ∧ (fatReadEntry L d)^[k] c < 0xFFF8)

/-- A file of the name either fits into the buffer or has a chain that ends. -/
def ReadEnds (L : Layout) (d : Disk) (name : List UInt8) (bufSize : ℕ) : Prop :=
  ∀ s i, findEntry L d name = some (s, i) →
    let e := sectorEntry (ataReadSector d (u32 (L.rootDirStartLba + s))) i
    e.fileSize ≤ bufSize ∨ ChainEnds L d e.firstClusterLo

theorem readSectors_bytesRead {d : Disk} {size bufSize lba : ℕ} {st : ReadState}
    (hsize : size < 4294967296) (h : st.bytesRead ≤ min size bufSize) (n : ℕ) :
    ((List.range n).foldl (readSector d size bufSize lba) st).bytesRead
      = min (st.bytesRead + 512 * n) (min size bufSize) := by
  induction n with
  | zero => simp only [List.range_zero, List.foldl_nil]; omega
  | succ n ih =>
      rw [List.range_succ, List.foldl_append, List.foldl_cons, List.foldl_nil,
        readSector_bytesRead hsize (by omega), ih]
      omega

/-- What a pass that goes on does to the two variables the loop tests. -/
theorem readCluster_again {L : Layout} {d : Disk} {size bufSize : ℕ} {st : ReadState}
    (hsize : size < 4294967296) (h : st.bytesRead ≤ min size bufSize)
    (hguard : 2 ≤ st.cluster ∧ st.cluster < 0xFFF8 ∧ st.bytesRead < size) :
    ∃ st', readCluster L d size bufSize st = .inr st'
      ∧ st'.cluster = fatReadEntry L d st.cluster
      ∧ st'.bytesRead = min (st.bytesRead + 512 * L.sectorsPerCluster) (min size bufSize) :=
  ⟨_, if_pos hguard, rfl, readSectors_bytesRead hsize h _⟩

/-- A file that fits is read to its end: every cluster brings it closer. -/
theorem readCluster_leaves_of_fits {L : Layout} (hspc : 1 ≤ L.sectorsPerCluster) (d : Disk)
    {size bufSize : ℕ} (hsize : size < 4294967296) (hfits : size ≤ bufSize) (c : ℕ)
    (buffer : ℕ → UInt8) : Loop.LeavesWithin (readCluster L d size bufSize) ⟨c, 0, buffer⟩ size := by
  refine Loop.leavesWithin_of_measure (fun st : ReadState => st.bytesRead ≤ min size bufSize)
    (fun st => size - st.bytesRead) ?_ ⟨c, 0, buffer⟩ (Nat.zero_le _)
  intro st st' hst hbody
  by_cases hguard : 2 ≤ st.cluster ∧ st.cluster < 0xFFF8 ∧ st.bytesRead < size
  · obtain ⟨st₁, hbody₁, -, hread⟩ := readCluster_again (L := L) (d := d) hsize hst hguard
    rw [hbody, Sum.inr.injEq] at hbody₁
    subst hbody₁
    omega
  · rw [readCluster, if_neg hguard] at hbody
    cases hbody

/-- With the buffer full before the end of the file and a chain that never ends, nothing stops the
    loop: each pass copies nothing and goes on to the next link. -/
theorem readCluster_runs_forever {L : Layout} {d : Disk} {size bufSize c : ℕ}
    (hsize : size < 4294967296) (hbig : bufSize < size) (hc : ¬ ChainEnds L d c)
    (buffer : ℕ → UInt8) (fuel : ℕ) :
    Loop.iterate (readCluster L d size bufSize) fuel ⟨c, 0, buffer⟩ = none := by
  apply Loop.iterate_eq_none fun st : ReadState =>
    st.bytesRead ≤ min size bufSize ∧ ¬ ChainEnds L d st.cluster
  · rintro st ⟨hread, hchain⟩
    have hlink : ∀ k, 2 ≤ (fatReadEntry L d)^[k] st.cluster
        ∧ (fatReadEntry L d)^[k] st.cluster < 0xFFF8 := fun k =>
      by_contra fun hk => hchain ⟨k, hk⟩
    obtain ⟨st', hbody, hcluster, hread'⟩ := readCluster_again (L := L) (d := d) hsize hread
      ⟨(hlink 0).1, (hlink 0).2, by omega⟩
    refine ⟨st', hbody, by omega, ?_⟩
    rintro ⟨k, hk⟩
    rw [hcluster, ← Function.iterate_succ_apply] at hk
    exact hk (hlink (k + 1))
  · exact ⟨Nat.zero_le _, hc⟩

/-- `fat16_read_file` returns exactly when the file it finds fits into the buffer or has a chain that
    ends: the loop's own bound, the size of the file, is out of reach behind a full buffer. -/
theorem fat16ReadFile_terminates_iff {L : Layout} (hspc : 1 ≤ L.sectorsPerCluster) (d : Disk)
    (name : List UInt8) (buffer : ℕ → UInt8) (bufSize : ℕ) :
    (∃ fuel r, fat16ReadFile fuel L d name buffer bufSize = some r)
      ↔ ReadEnds L d name bufSize := by
  unfold ReadEnds
  rcases hfind : findEntry L d name with _ | ⟨s, i⟩
  · refine ⟨fun _ _ _ h => by simp at h, fun _ => ⟨0, (-1, buffer), ?_⟩⟩
    simp only [fat16ReadFile, hfind]
  · have hsize : (sectorEntry (ataReadSector d (u32 (L.rootDirStartLba + s))) i).fileSize
        < 4294967296 := Buf.u32_lt ..
    simp only [fat16ReadFile, hfind, Option.map_eq_some_iff]
    constructor
    · rintro ⟨fuel, r, st, hrun, -⟩ s' i' heq
      cases heq
      by_contra hends
      rw [not_or, Nat.not_le] at hends
      rw [readCluster_runs_forever hsize hends.1 hends.2] at hrun
      cases hrun
    · intro hends
      rcases hends s i rfl with hfits | ⟨k, hk⟩
      · obtain ⟨st, hrun⟩ := readCluster_leaves_of_fits hspc d hsize hfits _ buffer
        exact ⟨_, _, st, hrun _ (Nat.lt_succ_self _), rfl⟩
      · obtain ⟨st, hrun⟩ := readCluster_leaves_of_chainEnds k ⟨_, 0, buffer⟩ hk
        exact ⟨_, _, st, hrun _ (Nat.lt_succ_self _), rfl⟩

/-- The file whose chain goes round is read with a buffer that takes all of it. -/
theorem fat16ReadFile_terminates_cyclicImage :
    ∃ fuel r, fat16ReadFile fuel hddLayout cyclicImage [0x41] (fun _ => 0) 65536 = some r := by
  refine (fat16ReadFile_terminates_iff (by decide) cyclicImage [0x41] (fun _ => 0) 65536).2 ?_
  intro s i h
  rw [findEntry_cyclicImage] at h
  cases h
  exact Or.inl (le_of_eq cyclicEntry_fields.2)

/-- Read into the buffer of `cmd_cat`, which takes 2047 bytes, it keeps the loop running. -/
theorem fat16ReadFile_cyclicImage_runs_forever :
    fat16Init {} cyclicImage = (0, hddLayout, .printf "> FAT16 initialized. Data starts at LBA %u.\n" [.word 49]) ∧
    1 ≤ hddLayout.sectorsPerCluster ∧
    ∀ fuel, fat16ReadFile fuel hddLayout cyclicImage [0x41] (fun _ => 0) 2047 = none := by
  refine ⟨fat16Init_cyclicImage, by decide, fun fuel => ?_⟩
  have hloop : fatReadEntry hddLayout cyclicImage 2 = 2 := by decide +kernel
  have hcycle : ¬ ChainEnds hddLayout cyclicImage cyclicEntry.firstClusterLo := by
    rintro ⟨k, hk⟩
    rw [cyclicEntry_fields.1, Function.iterate_fixed hloop] at hk
    exact hk (by decide)
  have hforever := readCluster_runs_forever (L := hddLayout) (d := cyclicImage)
    (Buf.u32_lt cyclicEntry 28) (show 2047 < cyclicEntry.fileSize by rw [cyclicEntry_fields.2]; decide)
    hcycle (fun _ => 0) fuel
  simp only [fat16ReadFile, findEntry_cyclicImage]
  exact Option.map_eq_none_iff.2 hforever

end BlackHole
