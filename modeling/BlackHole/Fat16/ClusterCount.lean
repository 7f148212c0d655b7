import BlackHole.Fat16.RoundTrip
import BlackHole.Fat16.Termination

set_option autoImplicit false

/-! # The number of clusters a write allocates

`clusters_needed` divides by a cluster size that comes from sector 0, or is the initial zero of a
static when `fat16_init` has rejected sector 0 (`kernel_main` goes on all the same), and rounds up
in 32 bits. `fat16WriteFile_allocatesEnough_iff` says for which sector 0 and which size that does
what it is for. -/

namespace BlackHole

open Bytes

/-! ## The rounding -/

/-- The rounding of `clusters_needed` covers the size exactly if the addition does not wrap. -/
theorem clustersNeeded_covers_iff {L : Layout} {size n : ℕ} (hspc : L.sectorsPerCluster < 256)
    (hsize : size < 4294967296) (hn : clustersNeeded L size = some n) :
    size ≤ n * (L.sectorsPerCluster * 512)
      ↔ size + L.sectorsPerCluster * 512 ≤ 4294967296 := by
  simp only [clustersNeeded] at hn
  split at hn
  · cases hn
  next hcb =>
    have hcb' : L.sectorsPerCluster * 512 < 131072 := by omega
    rw [Option.some.injEq] at hn
    generalize L.sectorsPerCluster * 512 = cb at hcb hcb' hn ⊢
    rcases Nat.lt_or_ge 4294967296 (size + cb) with hwrap | hfits
    · -- the sum wraps to less than a cluster, and one cluster is all there is
      have hzero : u32sub (u32 (size + cb)) 1 / cb = 0 := by
        apply Nat.div_eq_of_lt
        unfold u32sub u32
        omega
      rw [hzero, if_pos rfl] at hn
      subst hn
      omega
    · have hsum : u32sub (u32 (size + cb)) 1 = size + cb - 1 := by
        unfold u32sub u32
        omega
      have hlt := Nat.lt_div_mul_add (a := size + cb - 1) (b := cb) (by omega)
      rw [hsum] at hn
      refine iff_of_true ?_ hfits
      generalize (size + cb - 1) / cb = q at hn hlt
      split at hn
      next hq =>
        subst hq hn
        omega
      next =>
        subst hn
        omega

theorem clustersNeeded_eq_none_iff {L : Layout} {size : ℕ} :
    clustersNeeded L size = none ↔ L.sectorsPerCluster = 0 := by
  simp only [clustersNeeded]
  split <;> simp only [reduceCtorEq, true_iff, false_iff] <;> omega

/-! ## When the delete returns -/

/-- With no copy of the FAT the delete would zero nothing, and may follow a chain for ever. -/
def DeleteStuck (L : Layout) (d : Disk) (name : List UInt8) : Prop :=
  L.numFats = 0 ∧ ∃ s i, findEntry L d name = some (s, i) ∧
    ¬ ChainEnds L d (sectorEntry (ataReadSector d (u32 (L.rootDirStartLba + s))) i).firstClusterLo

theorem fatWriteEntry_of_numFats_eq_zero {L : Layout} (h : L.numFats = 0) (d : Disk) (c v : ℕ) :
    fatWriteEntry L d c v = d := by
  simp only [fatWriteEntry, h, List.range_zero, List.foldl_nil]

theorem freeCluster_runs_forever {L : Layout} (h : L.numFats = 0) {d : Disk} {c : ℕ}
    (hc : ¬ ChainEnds L d c) (fuel : ℕ) : Loop.iterate (freeCluster L) fuel (c, d) = none := by
  apply Loop.iterate_eq_none fun st : ℕ × Disk => st.2 = d ∧ ¬ ChainEnds L d st.1
  · rintro ⟨x, d'⟩ ⟨rfl, hx⟩
    have hlink : 2 ≤ x ∧ x < 0xFFF8 := by_contra fun hk => hx ⟨0, hk⟩
    refine ⟨(fatReadEntry L d' x, fatWriteEntry L d' x 0), if_pos hlink,
      fatWriteEntry_of_numFats_eq_zero h d' x 0, ?_⟩
    rintro ⟨k, hk⟩
    exact hx ⟨k + 1, by rwa [Function.iterate_succ_apply]⟩
  · exact ⟨rfl, hc⟩

theorem freeCluster_leaves_of_chainEnds {L : Layout} (h : L.numFats = 0) {d : Disk} :
    ∀ (k c : ℕ), ¬ (2 ≤ (fatReadEntry L d)^[k] c ∧ (fatReadEntry L d)^[k] c < 0xFFF8) →
      Loop.LeavesWithin (freeCluster L) (c, d) k := by
  intro k
  induction k with
  | zero => exact fun c hend => ⟨d, Loop.iterate_exit_of_lt 0 (if_neg hend)⟩
  | succ k ih =>
      intro c hend
      by_cases hguard : 2 ≤ c ∧ c < 0xFFF8
      · rw [Function.iterate_succ_apply] at hend
        obtain ⟨r, hr⟩ := ih (fatReadEntry L d c) hend
        have hbody : freeCluster L (c, d) = .inr (fatReadEntry L d c, d) := by
          simp only [freeCluster]
          rw [if_pos hguard, fatWriteEntry_of_numFats_eq_zero h]
        exact ⟨r, Loop.iterate_again_of_lt hbody hr⟩
      · have hbody : freeCluster L (c, d) = .inl d := if_neg hguard
        exact ⟨d, fun fuel hfuel => Loop.iterate_exit_of_lt 0 hbody fuel (by omega)⟩

/-- The delete returns unless it is stuck. -/
theorem fat16DeleteFile_returns_iff {L : Layout} (hL : L.WellFormed) (d : Disk)
    (name : List UInt8) :
    (∃ fuel r, fat16DeleteFile fuel L d name = some r) ↔ ¬ DeleteStuck L d name := by
  unfold DeleteStuck
  rcases hfind : findEntry L d name with _ | ⟨s, i⟩
  · refine iff_of_true ⟨0, (-1, d), by simp only [fat16DeleteFile, hfind]⟩ ?_
    rintro ⟨-, s, i, h, -⟩
    cases h
  · simp only [fat16DeleteFile, hfind, Option.map_eq_some_iff]
    constructor
    · rintro ⟨fuel, r, d', hrun, -⟩ ⟨hfats, s', i', heq, hends⟩
      cases heq
      rw [freeCluster_runs_forever hfats hends] at hrun
      cases hrun
    · intro hnot
      have hleaves : ∃ k, Loop.LeavesWithin (freeCluster L)
          ((sectorEntry (ataReadSector d (u32 (L.rootDirStartLba + s))) i).firstClusterLo, d) k := by
        rcases Nat.eq_zero_or_pos L.numFats with hfats | hfats
        · obtain ⟨k, hk⟩ := by_contra fun hends => hnot ⟨hfats, s, i, rfl, hends⟩
          exact ⟨k, freeCluster_leaves_of_chainEnds hfats k _ hk⟩
        · exact ⟨_, freeCluster_leavesWithin hL hfats _ d⟩
      obtain ⟨k, d', hrun⟩ := hleaves
      exact ⟨_, _, d', hrun _ (Nat.lt_succ_self k), rfl⟩

/-! ## The write -/

/-- What is expected of a write: however it ends, it has not divided by zero, and the clusters it
    has decided to allocate hold the data. -/
def AllocatesEnough (L : Layout) (d : Disk) (name : List UInt8) (data : ℕ → UInt8) (size : ℕ) :
    Prop :=
  ∀ fuel outcome, fat16WriteFile fuel L d name data size = some outcome →
    (∀ d', outcome ≠ .divideError d') ∧
    ∀ n, clustersNeeded L size = some n → size ≤ n * (L.sectorsPerCluster * 512)

theorem writeNewFile_divideError {L : Layout} {d d' : Disk} {name : List UInt8}
    {data : ℕ → UInt8} {size n : ℕ} (hn : clustersNeeded L size = some n) :
    writeNewFile L d name data size ≠ .divideError d' := by
  intro h
  simp only [writeNewFile, hn] at h
  split at h
  · cases h
  · split at h <;> cases h

/-- What `fat16_init` makes of sector 0, whether it accepts it or not. -/
theorem fat16Init_boot {d₀ : Disk} {ret : ℤ} {L : Layout} {out : Output}
    (h : fat16Init {} d₀ = (ret, L, out)) :
    L.WellFormed ∧ L.sectorsPerCluster
      = if (Bpb.ofSector (d₀ 0)).bytesPerSector = 512 then (Bpb.ofSector (d₀ 0)).sectorsPerCluster
        else 0 := by
  by_cases haccept : (Bpb.ofSector (d₀ 0)).bytesPerSector = 512
  · have h' := h
    simp only [fat16Init, ataReadSector, haccept, ne_eq, not_true_eq_false, if_false,
      Prod.mk.injEq] at h
    obtain ⟨rfl, rfl, rfl⟩ := h
    exact ⟨fat16Init_wellFormed h', (if_pos haccept).symm⟩
  · simp only [fat16Init, ataReadSector, ne_eq, haccept, not_false_eq_true, if_true,
      Prod.mk.injEq] at h
    obtain ⟨-, rfl, -⟩ := h
    rw [if_neg haccept]
    exact ⟨⟨by decide, by decide, by decide, by decide, by decide, rfl, rfl, rfl⟩, rfl⟩

/-- `fat16_write_file` divides by a cluster size that is not zero and allocates enough clusters
    exactly if sector 0 was accepted, gives at least one sector to a cluster, and the size and one
    cluster together are at most `2 ^ 32`. (With no copies of the FAT and an old version whose chain
    goes round, the write never gets that far.) -/
theorem fat16WriteFile_allocatesEnough_iff {d₀ : Disk} {ret : ℤ} {L : Layout} {out : Output}
    (hinit : fat16Init {} d₀ = (ret, L, out)) (d : Disk) (name : List UInt8) (data : ℕ → UInt8)
    {size : ℕ} (hsize : size < 4294967296) :
    AllocatesEnough L d name data size ↔
      ((Bpb.ofSector (d₀ 0)).bytesPerSector = 512 ∧ 1 ≤ (Bpb.ofSector (d₀ 0)).sectorsPerCluster ∧
        size + (Bpb.ofSector (d₀ 0)).sectorsPerCluster * 512 ≤ 4294967296) ∨
      DeleteStuck L d name := by
  obtain ⟨hL, hspc⟩ := fat16Init_boot hinit
  have hcond : ((Bpb.ofSector (d₀ 0)).bytesPerSector = 512 ∧
      1 ≤ (Bpb.ofSector (d₀ 0)).sectorsPerCluster ∧
      size + (Bpb.ofSector (d₀ 0)).sectorsPerCluster * 512 ≤ 4294967296) ↔
      1 ≤ L.sectorsPerCluster ∧ size + L.sectorsPerCluster * 512 ≤ 4294967296 := by
    rw [hspc]
    split
    next haccept => simp only [haccept, true_and]
    next hreject => exact iff_of_false (fun h => hreject h.1) fun h => absurd h.1 (by decide)
  rw [hcond]
  constructor
  · intro h
    by_cases hstuck : DeleteStuck L d name
    · exact Or.inr hstuck
    · obtain ⟨fuel, r, hrun⟩ := (fat16DeleteFile_returns_iff hL d name).2 hstuck
      obtain ⟨hdiv, henough⟩ := h fuel (writeNewFile L r.2 name data size)
        (by simp only [fat16WriteFile, hrun, Option.map_some])
      rcases hn : clustersNeeded L size with _ | n
      · exact absurd (show writeNewFile L r.2 name data size = .divideError r.2 by
          simp only [writeNewFile, hn]) (hdiv r.2)
      · refine Or.inl ⟨?_, (clustersNeeded_covers_iff hL.sectorsPerCluster_lt hsize hn).1
          (henough n hn)⟩
        by_contra hzero
        rw [clustersNeeded_eq_none_iff.2 (by omega)] at hn
        cases hn
  · rintro (⟨hpos, hfits⟩ | hstuck) fuel outcome hrun
    · obtain ⟨r, -, rfl⟩ := Option.map_eq_some_iff.1 hrun
      rcases hn : clustersNeeded L size with _ | n
      · rw [clustersNeeded_eq_none_iff] at hn
        omega
      · refine ⟨fun d' => writeNewFile_divideError hn, fun m hm => ?_⟩
        obtain rfl := Option.some.inj hm
        exact (clustersNeeded_covers_iff hL.sectorsPerCluster_lt hsize hn).2 hfits
    · obtain ⟨r, hr, -⟩ := Option.map_eq_some_iff.1 hrun
      exact absurd hstuck ((fat16DeleteFile_returns_iff hL d name).1 ⟨fuel, r, hr⟩)

/-- On the image of `build.ps1`: the largest size for which the rounding does not wrap. -/
theorem fat16WriteFile_allocatesEnough_hddImage :
    AllocatesEnough hddLayout hddImage [0x61] (fun _ => 0) 4294966784 :=
  (fat16WriteFile_allocatesEnough_iff fat16Init_hddImage hddImage [0x61] (fun _ => 0)
    (by decide)).2 (Or.inl (by decide +kernel))

/-- A disk without a boot sector. -/
def blankDisk : Disk := fun _ => Buf.ofFn fun _ => 0

/-- Without a boot sector a write divides by zero; with that of `build.ps1` one of `2 ^ 32 - 1` bytes
    returns `0` with a single cluster of 512 bytes. -/
theorem fat16WriteFile_not_allocatesEnough :
    (¬ AllocatesEnough {} blankDisk [0x61] (fun _ => 0) 1 ∧
      fat16WriteFile 0 {} blankDisk [0x61] (fun _ => 0) 1 = some (.divideError blankDisk)) ∧
    ¬ AllocatesEnough hddLayout hddImage [0x61] (fun _ => 0) 4294967295 ∧
      clustersNeeded hddLayout 4294967295 = some 1 ∧
      ∃ d', Step hddLayout hddImage (.write [0x61] (fun _ => 0) 4294967295) 0 d' := by
  have hblank : fat16WriteFile 0 {} blankDisk [0x61] (fun _ => 0) 1
      = some (.divideError blankDisk) := rfl
  have h₀ := hddImage_formatted
  have hn : clustersNeeded hddLayout 4294967295 = some 1 := by decide
  obtain ⟨ret, d', hs⟩ := Step.exists h₀.usable h₀.volumeInv
    (.write [0x61] (fun _ => 0) 4294967295)
  have hret := (hs.write_ret h₀.usable h₀.volumeInv hn).1.2
    (h₀.room (by decide) [0x61] (by decide))
  refine ⟨⟨fun h => (h 0 _ hblank).1 blankDisk rfl, hblank⟩, fun h => ?_, hn, d', hret ▸ hs⟩
  cases hs with
  | write hrun => exact absurd ((h _ _ hrun).2 1 hn) (by decide)

end BlackHole
