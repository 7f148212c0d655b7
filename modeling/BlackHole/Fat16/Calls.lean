import BlackHole.Fat16.Volume

set_option autoImplicit false

/-! # What a call does to a volume

One inversion lemma for `fat16_delete_file` (`AfterDelete`) and one for the second half of
`fat16_write_file` (`Wrote`) say everything a call can do to a volume in order. From them follow
what a call keeps (`Kept`: the files of other names, the sectors below the FAT, the entries of the
clusters `0` and `1`) and how it moves the invariant. -/

namespace BlackHole

open Bytes

/-! ## What a call can do -/

theorem clustersNeeded_eq {L : Layout} (hL : L.Usable) (size : ℕ) :
    ∃ n, clustersNeeded L size = some n ∧ 1 ≤ n := by
  have hpos := hL.sectorsPerCluster_pos
  simp only [clustersNeeded]
  rw [if_neg (by omega)]
  refine ⟨_, rfl, ?_⟩
  split
  · exact le_rfl
  · next h => exact Nat.pos_of_ne_zero h

/-- While the rounding does not wrap, `clusters_needed` is the size in clusters, rounded up. -/
theorem clustersNeeded_of_lt {L : Layout} (hL : L.Usable) {size : ℕ}
    (hsize : size + L.sectorsPerCluster * 512 < 4294967296) :
    clustersNeeded L size
      = some (max 1 ((size + L.sectorsPerCluster * 512 - 1) / (L.sectorsPerCluster * 512))) := by
  have hpos := hL.sectorsPerCluster_pos
  simp only [clustersNeeded]
  rw [if_neg (by omega), u32_of_lt hsize, u32sub_of_le (by omega) hsize]
  generalize (size + L.sectorsPerCluster * 512 - 1) / (L.sectorsPerCluster * 512) = n
  congr 1
  split <;> omega

/-- What a call has made of the volume when the old version is gone. -/
structure AfterDelete (L : Layout) (d : Disk) (own : ℕ → List ℕ) (name : List UInt8) (d₁ : Disk)
    (own₁ : ℕ → List ℕ) : Prop where
  inv : VolumeInv L d₁ own₁
  gone : ∀ k, ¬ ResolvesTo L d₁ name k
  effect : (d₁ = d ∧ own₁ = own ∧ ∀ k, ¬ ResolvesTo L d name k) ∨
    ∃ k, ResolvesTo L d name k ∧ Deleted L d d₁ k (own k) ∧ own₁ = Function.update own k []

/-- `fat16_delete_file` returns in every volume in order, and leaves one in order. -/
theorem fat16DeleteFile_spec {L : Layout} (hL : L.Usable) {d : Disk} {own : ℕ → List ℕ}
    (h : VolumeInv L d own) (name : List UInt8) :
    ∃ ret d₁ own₁, AfterDelete L d own name d₁ own₁ ∧
      ((∃ k, ResolvesTo L d name k) ↔ ret = 0) ∧ (ret = 0 ∨ ret = -1) ∧
      ∀ fuel, 2046 < fuel → fat16DeleteFile fuel L d name = some (ret, d₁) := by
  by_cases hex : ∃ k, ResolvesTo L d name k
  · obtain ⟨k, hk⟩ := hex
    obtain ⟨d₁, hdel, hrun⟩ := fat16DeleteFile_found hL h hk
    have hinv := h.delete hL hk.slot hdel
    refine ⟨0, d₁, _, ⟨hinv, fun j hj => ?_, Or.inr ⟨k, hk, hdel, rfl⟩⟩,
      iff_of_true ⟨k, hk⟩ rfl, Or.inl rfl, hrun⟩
    -- a second live entry of the name would have been the same slot
    have hlive := (hdel.liveSlot_iff hL.toWellFormed).1 ⟨hj.slot, hj.live⟩
    have hname := hj.name_eq
    rw [hdel.rootEntry_eq hL.toWellFormed hj.slot, if_neg hlive.2, ← hk.name_eq] at hname
    exact hlive.2 (h.names j k hlive.1 ⟨hk.slot, hk.live⟩ hname)
  · have hnone : ∀ k, ¬ ResolvesTo L d name k := fun k hk => hex ⟨k, hk⟩
    exact ⟨-1, d, own, ⟨h, hnone, Or.inl ⟨rfl, rfl, hnone⟩⟩, iff_of_false hex (by decide),
      Or.inr rfl, fun fuel _ => fat16DeleteFile_notFound hL.toWellFormed hnone fuel⟩

theorem Written.firstFree_iff {L : Layout} (hL : L.WellFormed) {data : ℕ → UInt8} {size : ℕ}
    {d d' : Disk} {cs : List ℕ} (h : Written L data size d d' cs) {k : ℕ} :
    FirstFree L d' k ↔ FirstFree L d k := by
  constructor <;> rintro ⟨h1, h2, h3⟩
  · refine ⟨h1, h.rootEntry_eq hL h1 ▸ h2, fun j hj => ?_⟩
    rw [← h.rootEntry_eq hL (lt_trans hj h1)]
    exact h3 j hj
  · refine ⟨h1, (h.rootEntry_eq hL h1).symm ▸ h2, fun j hj => ?_⟩
    rw [h.rootEntry_eq hL (lt_trans hj h1)]
    exact h3 j hj

/-- The three ways in which the second half of `fat16_write_file` ends on the disk `d`: the clusters
    run out, the directory is full, or the file is entered into the first free slot. -/
inductive Wrote (L : Layout) (d : Disk) (name : List UInt8) (data : ℕ → UInt8) (size n : ℕ) :
    ℤ → Disk → String → Prop where
  | diskFull {d' : Disk} (hlt : (freeClusters L d).length < n)
      (hw : Written L data size d d' (freeClusters L d)) :
      Wrote L d name data size n (-1) d' "[FAT16] ERROR: Disk full!\n"
  | rootFull {d' : Disk} (hge : n ≤ (freeClusters L d).length)
      (hw : Written L data size d d' ((freeClusters L d).take n))
      (hfull : ∀ k < rootSlots L, (rootEntry L d k).Live) :
      Wrote L d name data size n (-1) d' "[FAT16] ERROR: Root directory full!\n"
  | entered {d' : Disk} {k c : ℕ} (hge : n ≤ (freeClusters L d).length)
      (hw : Written L data size d d' ((freeClusters L d).take n)) (hk : FirstFree L d k)
      (hc : ((freeClusters L d).take n).head? = some c) :
      Wrote L d name data size n 0 (setRootEntry L d' k (newEntry name c size)) ""

theorem writeNewFile_wrote {L : Layout} (hL : L.Usable) (d : Disk) (name : List UInt8)
    (data : ℕ → UInt8) (size : ℕ) :
    ∃ n ret d' out, clustersNeeded L size = some n ∧ 1 ≤ n ∧ Wrote L d name data size n ret d' out ∧
      writeNewFile L d name data size = .returned ret d' out := by
  have hL' := hL.toWellFormed
  obtain ⟨n, hn, hpos⟩ := clustersNeeded_eq hL size
  rcases Nat.lt_or_ge (freeClusters L d).length n with hlt | hge
  · obtain ⟨d', hrun, hw⟩ := writeCluster_foldlM_full hL data size d hlt
    exact ⟨n, _, _, _, hn, hpos, .diskFull hlt hw, by simp only [writeNewFile, hn, hrun]⟩
  · obtain ⟨st, hrun, hfirst, -, hw⟩ := writeCluster_foldlM hL data size d n hge
    rcases hscan : rootScan L st.disk freeVisit with _ | ⟨s, i⟩
    · refine ⟨n, _, _, _, hn, hpos, .rootFull hge hw fun k hk => ?_,
        by simp only [writeNewFile, hn, hrun, hscan]⟩
      rw [← hw.rootEntry_eq hL' hk]
      exact (rootScan_freeVisit_eq_none hL').1 hscan k hk
    · obtain ⟨k, hk, rfl, rfl⟩ := (rootScan_freeVisit_eq_some hL').1 hscan
      obtain ⟨c, hc⟩ : ∃ c, ((freeClusters L d).take n).head? = some c := by
        have hlen : ((freeClusters L d).take n).length = n := List.length_take_of_le hge
        rcases htake : (freeClusters L d).take n with _ | ⟨c, cs⟩
        · rw [htake] at hlen
          simp at hlen
          omega
        · exact ⟨c, rfl⟩
      refine ⟨n, _, _, _, hn, hpos, .entered hge hw ((hw.firstFree_iff hL').1 hk) hc, ?_⟩
      simp only [writeNewFile, hn, hrun, hscan, u32_rootLba hL' hk.slot, hfirst, hc]
      rfl

/-- `fat16_write_file` returns in every volume in order: it deletes the old version and writes the
    new one. -/
theorem fat16WriteFile_spec {L : Layout} (hL : L.Usable) {d : Disk} {own : ℕ → List ℕ}
    (h : VolumeInv L d own) (name : List UInt8) (data : ℕ → UInt8) (size : ℕ) :
    ∃ d₁ own₁ n ret d' out, AfterDelete L d own name d₁ own₁ ∧ clustersNeeded L size = some n ∧
      1 ≤ n ∧ Wrote L d₁ name data size n ret d' out ∧
      ∀ fuel, 2046 < fuel →
        fat16WriteFile fuel L d name data size = some (.returned ret d' out) := by
  obtain ⟨r, d₁, own₁, hafter, -, -, hrun⟩ := fat16DeleteFile_spec hL h name
  obtain ⟨n, ret, d', out, hn, hpos, hwrote, hnew⟩ := writeNewFile_wrote hL d₁ name data size
  refine ⟨d₁, own₁, n, ret, d', out, hafter, hn, hpos, hwrote, fun fuel hfuel => ?_⟩
  simp only [fat16WriteFile, hrun fuel hfuel, Option.map_some, hnew]

/-! ## When a write succeeds -/

theorem freeClusters_length_le (L : Layout) (d : Disk) : (freeClusters L d).length ≤ 2046 := by
  have h := List.length_filter_le (fun c => fatEntry L d 0 c == 0) (List.range' 2 2046)
  rwa [List.length_range'] at h

/-- Deleting a file gives its clusters back. -/
theorem Deleted.freeClusters_length {L : Layout} (hL : L.Usable) {d d' : Disk} {k : ℕ}
    {cs : List ℕ} (hd : Deleted L d d' k cs) (hk : k < rootSlots L) {c : ℕ}
    (hc : FatChain L d c cs) :
    (freeClusters L d').length = (freeClusters L d).length + cs.length := by
  have hdisj : List.Disjoint (freeClusters L d) cs := fun x hx hxc =>
    hc.entry_ne_zero x hxc (mem_freeClusters.1 hx).2
  have hnd : (freeClusters L d ++ cs).Nodup :=
    (freeClusters_nodup L d).append hc.follows.nodup hdisj
  have hperm : (freeClusters L d').Perm (freeClusters L d ++ cs) := by
    rw [List.perm_ext_iff_of_nodup (freeClusters_nodup L d') hnd]
    intro x
    rw [List.mem_append, mem_freeClusters, mem_freeClusters]
    by_cases hx : 2 ≤ x ∧ x < 2048
    · rw [hd.fatEntry_eq hL.toWellFormed hk hL.numFats_pos (lt_fatEntries hL hx.2)]
      split
      · next hmem => simp [hx, hmem]
      · next hmem => simp [hmem]
    · exact iff_of_false (fun h => hx h.1) fun h => hx (h.elim And.left (hc.range x))
  rw [hperm.length_eq, List.length_append]

/-- There is room for `n` clusters under `name`: in place of the old version and with what is free,
    or, for a new name, in the free clusters and a free slot. -/
def Room (L : Layout) (d : Disk) (name : List UInt8) (n : ℕ) : Prop :=
  (∃ k cs, ResolvesTo L d name k ∧ FatChain L d (rootEntry L d k).firstClusterLo cs ∧
    n ≤ (freeClusters L d).length + cs.length) ∨
  ((∀ k, ¬ ResolvesTo L d name k) ∧ n ≤ (freeClusters L d).length ∧
    ∃ k < rootSlots L, ¬ (rootEntry L d k).Live)

/-- Room before the call is room once the old version is gone. -/
theorem AfterDelete.room_iff {L : Layout} (hL : L.Usable) {d d₁ : Disk} {own own₁ : ℕ → List ℕ}
    {name : List UInt8} (h : VolumeInv L d own) (ha : AfterDelete L d own name d₁ own₁) {n : ℕ} :
    Room L d name n ↔
      n ≤ (freeClusters L d₁).length ∧ ∃ k < rootSlots L, ¬ (rootEntry L d₁ k).Live := by
  rcases ha.effect with ⟨rfl, -, hnone⟩ | ⟨k, hk, hd, -⟩
  · constructor
    · rintro (⟨k, cs, hk, -⟩ | ⟨-, hroom⟩)
      · exact absurd hk (hnone k)
      · exact hroom
    · exact fun hroom => Or.inr ⟨hnone, hroom⟩
  · have hchain := h.chain k ⟨hk.slot, hk.live⟩
    have hlen := hd.freeClusters_length hL hk.slot hchain
    constructor
    · rintro (⟨j, cs, hj, hcs, hle⟩ | ⟨hnone, -⟩)
      · obtain rfl := hj.unique hk
        rw [hcs.follows.unique hchain.follows] at hle
        refine ⟨by omega, j, hk.slot, fun hlive => ?_⟩
        exact ((hd.liveSlot_iff hL.toWellFormed).1 ⟨hk.slot, hlive⟩).2 rfl
      · exact absurd hk (hnone k)
    · rintro ⟨hle, -⟩
      exact Or.inl ⟨k, own k, hk, hchain, by omega⟩

theorem Room.le {L : Layout} (hL : L.Usable) {d : Disk} {own : ℕ → List ℕ}
    (h : VolumeInv L d own) {name : List UInt8} {n : ℕ} (hroom : Room L d name n) : n ≤ 2046 := by
  obtain ⟨-, d₁, own₁, ha, -⟩ := fat16DeleteFile_spec hL h name
  exact ((ha.room_iff hL h).1 hroom).1.trans (freeClusters_length_le L d₁)

/-- The second half of a write succeeds exactly if there is room. -/
theorem Wrote.ret_eq_zero_iff {L : Layout} {d d' : Disk} {name : List UInt8} {data : ℕ → UInt8}
    {size n : ℕ} {ret : ℤ} {out : String} (hw : Wrote L d name data size n ret d' out) :
    ret = 0 ↔
      n ≤ (freeClusters L d).length ∧ ∃ k < rootSlots L, ¬ (rootEntry L d k).Live := by
  cases hw with
  | diskFull hlt hw => exact iff_of_false (by decide) fun h => by omega
  | rootFull hge hw hfull =>
      exact iff_of_false (by decide) fun ⟨_, k, hk, hdead⟩ => hdead (hfull k hk)
  | entered hge hw hk hc => exact iff_of_true rfl ⟨hge, _, hk.slot, hk.free⟩

theorem Wrote.ret_cases {L : Layout} {d d' : Disk} {name : List UInt8} {data : ℕ → UInt8}
    {size n : ℕ} {ret : ℤ} {out : String} (hw : Wrote L d name data size n ret d' out) :
    ret = 0 ∨ ret = -1 := by
  cases hw with
  | diskFull hlt hw => exact Or.inr rfl
  | rootFull hge hw hfull => exact Or.inr rfl
  | entered hge hw hk hc => exact Or.inl rfl

theorem freeClusters_setRootEntry {L : Layout} (hL : L.Usable) (d : Disk) {k : ℕ} (e : DirEntry)
    (hk : k < rootSlots L) : freeClusters L (setRootEntry L d k e) = freeClusters L d := by
  unfold freeClusters
  apply List.filter_congr
  intro c hc
  rw [List.mem_range'_1] at hc
  rw [fatEntry_setRootEntry hL.toWellFormed d hL.numFats_pos (lt_fatEntries hL (by omega)) hk]

/-- A successful write has taken the lowest free clusters. -/
theorem Wrote.freeClusters_drop {L : Layout} (hL : L.Usable) {d d' : Disk} {name : List UInt8}
    {data : ℕ → UInt8} {size n : ℕ} {ret : ℤ} {out : String}
    (hw : Wrote L d name data size n ret d' out) (hret : ret = 0) :
    freeClusters L d' = (freeClusters L d).drop n := by
  cases hw with
  | diskFull hlt hw => exact absurd hret (by decide)
  | rootFull hge hw hfull => exact absurd hret (by decide)
  | entered hge hw hk hc =>
      rw [freeClusters_setRootEntry hL _ _ hk.slot, hw.freeClusters_drop hL]

/-! ## What a call keeps -/

/-- The file of slot `k` is as it was: its entry, its chain in the FAT and its data. -/
structure Kept (L : Layout) (d d' : Disk) (k : ℕ) (cs : List ℕ) : Prop where
  entry : rootEntry L d' k = rootEntry L d k
  fat : ∀ c ∈ cs, fatEntry L d' 0 c = fatEntry L d 0 c
  data : ∀ c ∈ cs, ∀ s < L.sectorsPerCluster, d' (dataLba L c s) = d (dataLba L c s)

theorem Kept.refl (L : Layout) (d : Disk) (k : ℕ) (cs : List ℕ) : Kept L d d k cs :=
  ⟨rfl, fun _ _ => rfl, fun _ _ _ _ => rfl⟩

theorem Kept.trans {L : Layout} {d d₁ d₂ : Disk} {k : ℕ} {cs : List ℕ} (h : Kept L d d₁ k cs)
    (h' : Kept L d₁ d₂ k cs) : Kept L d d₂ k cs :=
  ⟨h'.entry.trans h.entry, fun c hc => (h'.fat c hc).trans (h.fat c hc),
    fun c hc s hs => (h'.data c hc s hs).trans (h.data c hc s hs)⟩

/-- Deleting a file keeps all others. -/
theorem Deleted.kept {L : Layout} (hL : L.Usable) {d d' : Disk} {own : ℕ → List ℕ}
    (h : VolumeInv L d own) {j k : ℕ} (hd : Deleted L d d' k (own k)) (hk : k < rootSlots L)
    (hj : j < rootSlots L) (hjk : j ≠ k) : Kept L d d' j (own j) := by
  have hL' := hL.toWellFormed
  refine ⟨by rw [hd.rootEntry_eq hL' hj, if_neg hjk], fun c hc => ?_, fun c hc s hs => ?_⟩
  · rw [hd.fatEntry_eq hL' hk hL.numFats_pos (lt_fatEntries hL (h.owned hc).1.2),
      if_neg (h.disjoint j k hjk hc)]
  · refine hd.other (dataLba_outsideFat hL' c s) fun he => ?_
    have hroot := rootLba_mem_region hL' hk
    have hge := dataLba_ge L c s
    omega

/-- Threading free clusters keeps all files. -/
theorem Written.kept {L : Layout} (hL : L.Usable) {d d' : Disk} {own : ℕ → List ℕ}
    (h : VolumeInv L d own) {data : ℕ → UInt8} {size n j : ℕ}
    (hw : Written L data size d d' ((freeClusters L d).take n)) (hj : j < rootSlots L) :
    Kept L d d' j (own j) := by
  have hL' := hL.toWellFormed
  have hfree : ∀ c ∈ own j, c ∉ (freeClusters L d).take n := fun c hc hmem =>
    (h.owned hc).2 (mem_freeClusters.1 (List.mem_of_mem_take hmem)).2
  refine ⟨hw.rootEntry_eq hL' hj, fun c hc => ?_, fun c hc s hs => ?_⟩
  · rw [hw.entry 0 hL.numFats_pos c (lt_fatEntries hL (h.owned hc).1.2),
      Chain.link_of_not_mem _ (hfree c hc)]
  · refine hw.other _ (dataLba_outsideFat hL' c s) fun c' hc' s' hs' he => ?_
    have hcc := (dataLba_inj (h.owned hc).1.1 (freeClusters_take_range c' hc').1 hs hs' he).1
    exact hfree c hc (hcc ▸ hc')

theorem Kept.setRootEntry {L : Layout} (hL : L.Usable) {d d' : Disk} {own : ℕ → List ℕ}
    (h : VolumeInv L d own) {j k : ℕ} {e : DirEntry} (hk : k < rootSlots L) (hjk : j ≠ k)
    (hkept : Kept L d d' j (own j)) : Kept L d (setRootEntry L d' k e) j (own j) := by
  have hL' := hL.toWellFormed
  refine hkept.trans ⟨by rw [rootEntry_setRootEntry, if_neg hjk], fun c hc => ?_,
    fun c hc s _ => ?_⟩
  · exact fatEntry_setRootEntry hL' d' hL.numFats_pos (lt_fatEntries hL (h.owned hc).1.2) hk e
  · refine setRootEntry_of_ne fun he => ?_
    have hroot := rootLba_mem_region hL' hk
    have hge := dataLba_ge L c s
    omega

/-- The second half of a write keeps every file, whether it succeeds or not. -/
theorem Wrote.kept {L : Layout} (hL : L.Usable) {d d' : Disk} {own : ℕ → List ℕ}
    (h : VolumeInv L d own) {name : List UInt8} {data : ℕ → UInt8} {size n : ℕ} {ret : ℤ}
    {out : String} (hw : Wrote L d name data size n ret d' out) {j : ℕ} (hj : LiveSlot L d j) :
    Kept L d d' j (own j) := by
  cases hw with
  | diskFull hlt hw =>
      rw [← List.take_length (l := freeClusters L d)] at hw
      exact hw.kept hL h hj.1
  | rootFull hge hw hfull => exact hw.kept hL h hj.1
  | entered hge hw hk hc =>
      refine (hw.kept hL h hj.1).setRootEntry hL h hk.slot ?_
      rintro rfl
      exact hk.free hj.2

/-- The sectors below the FAT are never written. -/
theorem Wrote.below {L : Layout} (hL : L.WellFormed) {d d' : Disk} {name : List UInt8}
    {data : ℕ → UInt8} {size n : ℕ} {ret : ℤ} {out : String}
    (hw : Wrote L d name data size n ret d' out) {lba : ℕ} (hlba : lba < L.fatStartLba) :
    d' lba = d lba := by
  have hroot := hL.rootDirStart_eq
  have hdata := hL.dataStart_eq
  have hwritten : ∀ {d' : Disk} {cs : List ℕ}, Written L data size d d' cs → d' lba = d lba := by
    intro d' cs hw
    refine hw.other lba (Or.inl hlba) fun c _ s _ he => ?_
    have hge := dataLba_ge L c s
    omega
  cases hw with
  | diskFull hlt hw => exact hwritten hw
  | rootFull hge hw hfull => exact hwritten hw
  | entered hge hw hk hc =>
      have hreg := rootLba_mem_region hL hk.slot
      rw [setRootEntry_of_ne (by omega)]
      exact hwritten hw

theorem AfterDelete.below {L : Layout} (hL : L.WellFormed) {d d₁ : Disk} {own own₁ : ℕ → List ℕ}
    {name : List UInt8} (h : AfterDelete L d own name d₁ own₁) {lba : ℕ}
    (hlba : lba < L.fatStartLba) : d₁ lba = d lba := by
  rcases h.effect with ⟨rfl, -, -⟩ | ⟨k, hk, hd, -⟩
  · rfl
  · have hreg := rootLba_mem_region hL hk.slot
    have hroot := hL.rootDirStart_eq
    exact hd.other (Or.inl hlba) (by omega)

/-- The entries of the clusters `0` and `1` are never written. -/
theorem Wrote.reserved {L : Layout} (hL : L.Usable) {d d' : Disk} {name : List UInt8}
    {data : ℕ → UInt8} {size n : ℕ} {ret : ℤ} {out : String}
    (hw : Wrote L d name data size n ret d' out) {f c : ℕ} (hf : f < L.numFats) (hc : c < 2) :
    fatEntry L d' f c = fatEntry L d f c := by
  have hlt := lt_fatEntries hL (show c < 2048 by omega)
  have hwritten : ∀ {d' : Disk} {n : ℕ}, Written L data size d d' ((freeClusters L d).take n) →
      fatEntry L d' f c = fatEntry L d f c := by
    intro d' n hw
    rw [hw.entry f hf c hlt, Chain.link_of_not_mem]
    intro hmem
    have hrange := freeClusters_take_range c hmem
    omega
  cases hw with
  | diskFull hlt hw =>
      rw [← List.take_length (l := freeClusters L d)] at hw
      exact hwritten hw
  | rootFull hge hw hfull => exact hwritten hw
  | entered hge hw hk hc' =>
      rw [fatEntry_setRootEntry hL.toWellFormed _ hf hlt hk.slot]
      exact hwritten hw

theorem AfterDelete.reserved {L : Layout} (hL : L.Usable) {d d₁ : Disk} {own own₁ : ℕ → List ℕ}
    {name : List UInt8} (h : VolumeInv L d own) (ha : AfterDelete L d own name d₁ own₁) {f c : ℕ}
    (hf : f < L.numFats) (hc : c < 2) : fatEntry L d₁ f c = fatEntry L d f c := by
  rcases ha.effect with ⟨rfl, -, -⟩ | ⟨k, hk, hd, -⟩
  · rfl
  · rw [hd.fatEntry_eq hL.toWellFormed hk.slot hf (lt_fatEntries hL (by omega)), if_neg]
    intro hmem
    have hrange := (h.owned hmem).1
    omega

/-- What is still there after deleting by name was there before, and is kept. -/
theorem AfterDelete.live {L : Layout} (hL : L.Usable) {d d₁ : Disk} {own own₁ : ℕ → List ℕ}
    {name : List UInt8} (h : VolumeInv L d own) (ha : AfterDelete L d own name d₁ own₁) {j : ℕ}
    (hj : LiveSlot L d₁ j) : LiveSlot L d j ∧ own₁ j = own j ∧ Kept L d d₁ j (own j) := by
  rcases ha.effect with ⟨rfl, rfl, -⟩ | ⟨k, hk, hd, rfl⟩
  · exact ⟨hj, rfl, Kept.refl ..⟩
  · obtain ⟨hold, hjk⟩ := (hd.liveSlot_iff hL.toWellFormed).1 hj
    exact ⟨hold, Function.update_of_ne hjk _ _, hd.kept hL h hk.slot hj.1 hjk⟩

/-- Deleting by name keeps every file of another name. -/
theorem AfterDelete.kept {L : Layout} (hL : L.Usable) {d d₁ : Disk} {own own₁ : ℕ → List ℕ}
    {name : List UInt8} (h : VolumeInv L d own) (ha : AfterDelete L d own name d₁ own₁) {j : ℕ}
    (hj : LiveSlot L d j) (hname : (rootEntry L d j).name ≠ toFatName name) :
    LiveSlot L d₁ j ∧ own₁ j = own j ∧ Kept L d d₁ j (own j) := by
  have hj₁ : LiveSlot L d₁ j := by
    rcases ha.effect with ⟨rfl, -, -⟩ | ⟨k, hk, hd, -⟩
    · exact hj
    · refine (hd.liveSlot_iff hL.toWellFormed).2 ⟨hj, ?_⟩
      rintro rfl
      exact hname hk.name_eq
  exact ⟨hj₁, (ha.live hL h hj₁).2⟩

/-! ## The invariant after a write -/

/-- Who owns what after the second half of a write: as before when it fails or the entry looks
    deleted, else the new slot owns the clusters just taken. -/
theorem VolumeInv.wrote {L : Layout} (hL : L.Usable) {d d' : Disk} {own : ℕ → List ℕ}
    (h : VolumeInv L d own) {name : List UInt8} (hgone : ∀ k, ¬ ResolvesTo L d name k)
    {data : ℕ → UInt8} {size n : ℕ} {ret : ℤ} {out : String}
    (hw : Wrote L d name data size n ret d' out) :
    ∃ own', VolumeInv L d' own' ∧
      ((own' = own ∧ (ret = -1 ∨ (toFatName name).byte 0 = 0xE5)) ∨
        ∃ k c d₂, FirstFree L d k ∧ ret = 0 ∧ (toFatName name).byte 0 ≠ 0xE5 ∧ c < 65536 ∧
          n ≤ (freeClusters L d).length ∧ own' = Function.update own k ((freeClusters L d).take n) ∧
          Written L data size d d₂ ((freeClusters L d).take n) ∧
          d' = setRootEntry L d₂ k (newEntry name c size)) := by
  have hL' := hL.toWellFormed
  cases hw with
  | diskFull hlt hw =>
      rw [← List.take_length (l := freeClusters L d)] at hw
      exact ⟨own, h.alloc hL hw, Or.inl ⟨rfl, Or.inl rfl⟩⟩
  | rootFull hge hw hfull => exact ⟨own, h.alloc hL hw, Or.inl ⟨rfl, Or.inl rfl⟩⟩
  | @entered d₂ k c hge hw hk hc =>
      have hinv := h.alloc hL hw
      have hk₂ := (hw.firstFree_iff hL').2 hk
      by_cases hE5 : (toFatName name).byte 0 = 0xE5
      · refine ⟨own, hinv.insert_dead hL hk₂ ?_, Or.inl ⟨rfl, Or.inr hE5⟩⟩
        rw [newEntry_firstByte, hE5]
      · have hc2 := freeClusters_take_range c (List.mem_of_head? hc)
        have hchain : FatChain L d₂ (newEntry name c size).firstClusterLo
            ((freeClusters L d).take n) := by
          rw [newEntry_firstClusterLo name size (by omega)]
          exact hw.fatChain hL hc (freeClusters_take_nodup L d n) freeClusters_take_range
        refine ⟨_, hinv.insert hL hk₂ (newEntry_live_iff.2 hE5) hchain ?_ (fun j c hcj hmem => ?_)
          (fun j hj hname => ?_), Or.inr ⟨k, c, d₂, hk, rfl, hE5, by omega, hge, rfl, hw, rfl⟩⟩
        · intro hnil
          rw [hnil] at hc
          simp at hc
        · exact (h.owned hcj).2 (mem_freeClusters.1 (List.mem_of_mem_take hmem)).2
        · rw [newEntry_name, hw.rootEntry_eq hL' hj.1] at hname
          refine hgone j (h.resolvesTo_iff.2 ⟨⟨hj.1, ?_⟩, hname⟩)
          rw [← hw.rootEntry_eq hL' hj.1]
          exact hj.2

end BlackHole
