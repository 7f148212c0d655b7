import BlackHole.Fat16.RoundTrip

set_option autoImplicit false

/-! # Clusters outside the volume

`fat_alloc_cluster` scans the clusters `2..2047`, whatever the geometry of the volume is. The
cluster it returns lies inside the volume exactly if some free cluster of that range does. -/

namespace BlackHole

open Bytes

/-- The cluster lies inside a volume of `total` sectors: its entry inside the FAT, and its sectors
    below the end. -/
def InVolume (L : Layout) (total c : ℕ) : Prop :=
  c * 2 / 512 < L.fatSizeSectors ∧ ∀ s < L.sectorsPerCluster, clusterToLba L c + s < total

/-- The clusters below one inside the volume are inside it. -/
theorem InVolume.of_le {L : Layout} (hL : L.WellFormed) {total c c' : ℕ} (h2 : 2 ≤ c) (hle : c ≤ c')
    (hc' : c' < 65536) (h : InVolume L total c') : InVolume L total c := by
  refine ⟨lt_of_le_of_lt (Nat.div_le_div_right (Nat.mul_le_mul_right 2 hle)) h.1, fun s hs => ?_⟩
  have hmono : (c - 2) * L.sectorsPerCluster ≤ (c' - 2) * L.sectorsPerCluster :=
    Nat.mul_le_mul_right _ (by omega)
  have hlast := h.2 s hs
  rw [clusterToLba_eq hL h2 (by omega)]
  rw [clusterToLba_eq hL (by omega) hc'] at hlast
  unfold dataLba at hlast ⊢
  omega

/-- Whatever the FAT contains: the allocated cluster lies inside the volume exactly if some free
    cluster among `2..2047` does, or none of them is free. -/
theorem fatAllocCluster_inVolume_iff {L₀ L : Layout} {d₀ : Disk} {out : Output}
    (hinit : fat16Init L₀ d₀ = (0, L, out)) (d : Disk) :
    (∀ c, fatAllocCluster L d = c → c ≠ 0 →
      InVolume L (Bpb.ofSector (ataReadSector d₀ 0)).totalSectors16 c) ↔
    (∃ c, (2 ≤ c ∧ c < 2048) ∧ fatReadEntry L d c = 0 ∧
      InVolume L (Bpb.ofSector (ataReadSector d₀ 0)).totalSectors16 c) ∨
    ∀ c, 2 ≤ c → c < 2048 → fatReadEntry L d c ≠ 0 := by
  have hL := fat16Init_wellFormed hinit
  have hread : ∀ c, 2 ≤ c ∧ c < 2048 → (fatReadEntry L d c = 0 ↔ c ∈ freeClusters L d) := by
    intro c hc
    rw [mem_freeClusters, fatReadEntry_eq hL d (by omega), and_iff_right hc]
  rw [fatAllocCluster_eq hL]
  rcases hfree : freeClusters L d with _ | ⟨x, xs⟩
  · refine iff_of_true (fun c hc hne => absurd hc.symm hne) (Or.inr fun c h2 hlt h0 => ?_)
    rw [hread c ⟨h2, hlt⟩, hfree] at h0
    simp at h0
  · have hx : x ∈ freeClusters L d := by rw [hfree]; exact List.mem_cons_self ..
    have hrange := (mem_freeClusters.1 hx).1
    simp only [List.head?_cons, Option.getD_some]
    constructor
    · intro h
      exact Or.inl ⟨x, hrange, (hread x hrange).2 hx, h x rfl (by omega)⟩
    · rintro (⟨c, hc, h0, hin⟩ | hnone) y rfl -
      · -- the first free cluster is the lowest one
        have hsorted : (freeClusters L d).Pairwise (· < ·) :=
          (List.pairwise_lt_range' ..).filter _
        rw [hread c hc, hfree, List.mem_cons] at h0
        rw [hfree, List.pairwise_cons] at hsorted
        refine hin.of_le hL hrange.1 ?_ (by omega)
        rcases h0 with rfl | hmem
        · exact le_rfl
        · exact (hsorted.1 c hmem).le
      · exact absurd ((hread x hrange).2 hx) (hnone x hrange.1 hrange.2)

/-- On the fresh image of `build.ps1` the first cluster allocated is `2`, inside the volume. -/
theorem fatAllocCluster_inVolume_hddImage :
    fatAllocCluster hddLayout hddImage = 2 ∧
      InVolume hddLayout (Bpb.ofSector (ataReadSector hddImage 0)).totalSectors16 2 := by
  have hfirst : fatAllocCluster hddLayout hddImage = 2 := by
    rw [fatAllocCluster_eq hddImage_formatted.usable.toWellFormed, hddImage_formatted.freeClusters_eq]
    rfl
  refine ⟨hfirst, (fatAllocCluster_inVolume_iff fat16Init_hddImage hddImage).2
    (Or.inl ⟨2, by decide, ?_, ?_⟩) 2 hfirst (by decide)⟩
  · decide +kernel
  · exact ⟨by decide, by decide +kernel⟩

/-- With a file of 1999 clusters on the image of `build.ps1` the next cluster allocated begins at
    sector 2048, behind the end of the image. -/
theorem fatAllocCluster_outside_hddImage :
    fat16Init {} hddImage = (0, hddLayout, .printf "> FAT16 initialized. Data starts at LBA %u.\n" [.word 49]) ∧
    (Bpb.ofSector (ataReadSector hddImage 0)).totalSectors16 = 2048 ∧
    ∃ d, Step hddLayout hddImage (.write [0x61] (fun _ => 0) (1999 * 512)) 0 d ∧
      fatAllocCluster hddLayout d = 2001 ∧ ¬ InVolume hddLayout 2048 2001 := by
  have h₀ := hddImage_formatted
  refine ⟨fat16Init_hddImage, by decide +kernel, ?_⟩
  obtain ⟨d, hs⟩ := hddImage_write [0x61] (fun _ => 0) (by decide : 1999 * 512 ≤ 2046 * 512)
  refine ⟨d, hs, ?_, fun hin => absurd (hin.2 0 (by decide)) (by decide)⟩
  obtain ⟨d₁, own₁, n, out, ha, hn, -, hwrote⟩ := hs.write_inv h₀.usable h₀.volumeInv
  obtain rfl : 1999 = n := Option.some.inj ((show _ = some 1999 by decide).symm.trans hn)
  obtain ⟨rfl, -⟩ : d₁ = hddImage ∧ _ := by
    rcases ha.effect with hsame | ⟨k, hk, -⟩
    · exact hsame
    · exact absurd ⟨hk.slot, hk.live⟩ h₀.not_live
  rw [fatAllocCluster_eq h₀.usable.toWellFormed, hwrote.freeClusters_drop h₀.usable rfl,
    h₀.freeClusters_eq]
  decide +kernel

end BlackHole
