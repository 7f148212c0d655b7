import BlackHole.Fat16.Clusters

set_option autoImplicit false

/-! # Volume states and their invariant

`VolumeInv L d own` is what the driver keeps true of the disk: every live root entry owns the chain
its first cluster starts (`own k` for slot `k`), chains of different entries are disjoint, live
names are unique, no live entry lies behind a never used slot, and the FAT copies agree. Freeing a
file, allocating clusters and entering a new file get one lemma each that says how they move it. -/

namespace BlackHole

open Bytes

/-! ## The invariant -/

/-- Slot `k` exists and holds a live entry. -/
def LiveSlot (L : Layout) (d : Disk) (k : ℕ) : Prop := k < rootSlots L ∧ (rootEntry L d k).Live

structure VolumeInv (L : Layout) (d : Disk) (own : ℕ → List ℕ) : Prop where
  agree : ∀ f < L.numFats, ∀ c < fatEntries L, 2 ≤ c → fatEntry L d f c = fatEntry L d 0 c
  chain : ∀ k, LiveSlot L d k → FatChain L d (rootEntry L d k).firstClusterLo (own k)
  nonempty : ∀ k, LiveSlot L d k → own k ≠ []
  dead : ∀ k, ¬ LiveSlot L d k → own k = []
  disjoint : ∀ j k, j ≠ k → List.Disjoint (own j) (own k)
  names : ∀ j k, LiveSlot L d j → LiveSlot L d k →
    (rootEntry L d j).name = (rootEntry L d k).name → j = k
  packed : ∀ k, LiveSlot L d k → ∀ j < k, (rootEntry L d j).firstByte ≠ 0x00

/-- A cluster owned by a slot has a nonzero entry, so it is never allocated again. -/
theorem VolumeInv.owned {L : Layout} {d : Disk} {own : ℕ → List ℕ} (h : VolumeInv L d own) {k c : ℕ}
    (hc : c ∈ own k) : (2 ≤ c ∧ c < 2048) ∧ fatEntry L d 0 c ≠ 0 := by
  by_cases hk : LiveSlot L d k
  · exact ⟨(h.chain k hk).range c hc, (h.chain k hk).entry_ne_zero c hc⟩
  · rw [h.dead k hk] at hc
    simp at hc

/-- The slots that own clusters are the live ones. -/
theorem VolumeInv.live_iff {L : Layout} {d : Disk} {own : ℕ → List ℕ} (h : VolumeInv L d own)
    {k : ℕ} : LiveSlot L d k ↔ own k ≠ [] :=
  ⟨h.nonempty k, fun hne => by_contra fun hk => hne (h.dead k hk)⟩

/-- With the invariant a name resolves to the only live slot of that name. -/
theorem VolumeInv.resolvesTo_iff {L : Layout} {d : Disk} {own : ℕ → List ℕ}
    (h : VolumeInv L d own) {name : List UInt8} {k : ℕ} :
    ResolvesTo L d name k ↔ LiveSlot L d k ∧ (rootEntry L d k).name = toFatName name := by
  constructor
  · exact fun hk => ⟨⟨hk.slot, hk.live⟩, hk.name_eq⟩
  · rintro ⟨hk, hname⟩
    refine ⟨hk.1, hk.2, hname, fun j hj => ⟨h.packed k hk j hj, fun hE5 hjname => ?_⟩⟩
    have hlive : LiveSlot L d j := ⟨by have := hk.1; omega, h.packed k hk j hj, hE5⟩
    have := h.names j k hlive hk (hjname.trans hname.symm)
    omega

/-- Slots, entries and owners are all the invariant looks at. -/
theorem VolumeInv.congr {L : Layout} {d d' : Disk} {own : ℕ → List ℕ}
    (hroot : ∀ k < rootSlots L, rootEntry L d' k = rootEntry L d k)
    (hagree : ∀ f < L.numFats, ∀ c < fatEntries L, 2 ≤ c → fatEntry L d' f c = fatEntry L d' 0 c)
    (hown : ∀ k, ∀ c ∈ own k, fatEntry L d' 0 c = fatEntry L d 0 c)
    (h : VolumeInv L d own) : VolumeInv L d' own := by
  have hlive : ∀ k, LiveSlot L d' k ↔ LiveSlot L d k := fun k =>
    and_congr_right fun hk => by rw [hroot k hk]
  refine ⟨hagree, fun k hk => ?_, fun k hk => h.nonempty k ((hlive k).1 hk),
    fun k hk => h.dead k (mt (hlive k).2 hk), h.disjoint, fun j k hj hk heq => ?_,
    fun k hk j hj => ?_⟩
  · rw [hroot k hk.1]
    exact (h.chain k ((hlive k).1 hk)).congr (hown k)
  · rw [hroot j hj.1, hroot k hk.1] at heq
    exact h.names j k ((hlive j).1 hj) ((hlive k).1 hk) heq
  · rw [hroot j (by have := hk.1; omega)]
    exact h.packed k ((hlive k).1 hk) j hj

/-- Chains that are apart stay so when one is replaced by another that is apart from the rest. -/
theorem disjoint_update {own : ℕ → List ℕ} (h : ∀ i j, i ≠ j → List.Disjoint (own i) (own j))
    {k : ℕ} {cs : List ℕ} (hcs : ∀ j, j ≠ k → List.Disjoint (own j) cs) (i j : ℕ) (hij : i ≠ j) :
    List.Disjoint (Function.update own k cs i) (Function.update own k cs j) := by
  by_cases hik : i = k
  · subst hik
    rw [Function.update_self, Function.update_of_ne (Ne.symm hij)]
    exact (hcs j (Ne.symm hij)).symm
  · rw [Function.update_of_ne hik]
    by_cases hjk : j = k
    · rw [hjk, Function.update_self]
      exact hcs i hik
    · rw [Function.update_of_ne hjk]
      exact h i j hij

/-! ## Deleting -/

/-- `d'` is `d` with the chain `cs` freed and slot `k` marked as deleted. -/
def Deleted (L : Layout) (d d' : Disk) (k : ℕ) (cs : List ℕ) : Prop :=
  ∃ d₁, Freed L d d₁ cs ∧ d' = setRootEntry L d₁ k ((rootEntry L d k).setByte 0 0xE5)

theorem Deleted.fatEntry_eq {L : Layout} (hL : L.WellFormed) {d d' : Disk} {k : ℕ} {cs : List ℕ}
    (h : Deleted L d d' k cs) (hk : k < rootSlots L) {f c : ℕ} (hf : f < L.numFats)
    (hc : c < fatEntries L) : fatEntry L d' f c = if c ∈ cs then 0 else fatEntry L d f c := by
  obtain ⟨d₁, hfreed, rfl⟩ := h
  rw [fatEntry_setRootEntry hL d₁ hf hc hk, hfreed.entry f hf c hc]

theorem Deleted.rootEntry_eq {L : Layout} (hL : L.WellFormed) {d d' : Disk} {k : ℕ} {cs : List ℕ}
    (h : Deleted L d d' k cs) {j : ℕ} (hj : j < rootSlots L) :
    rootEntry L d' j = if j = k then (rootEntry L d k).setByte 0 0xE5 else rootEntry L d j := by
  obtain ⟨d₁, hfreed, rfl⟩ := h
  rw [rootEntry_setRootEntry, hfreed.rootEntry_eq hL hj]

theorem Deleted.other {L : Layout} {d d' : Disk} {k : ℕ} {cs : List ℕ}
    (h : Deleted L d d' k cs) {lba : ℕ} (hlba : OutsideFat L lba) (hk : lba ≠ rootLba L k) :
    d' lba = d lba := by
  obtain ⟨d₁, hfreed, rfl⟩ := h
  rw [setRootEntry_of_ne hk, hfreed.other lba hlba]

theorem Deleted.liveSlot_iff {L : Layout} (hL : L.WellFormed) {d d' : Disk} {k : ℕ} {cs : List ℕ}
    (h : Deleted L d d' k cs) {j : ℕ} : LiveSlot L d' j ↔ LiveSlot L d j ∧ j ≠ k := by
  by_cases hj : j < rootSlots L
  · have hentry := h.rootEntry_eq hL hj
    by_cases hjk : j = k
    · rw [if_pos hjk] at hentry
      simp only [LiveSlot, DirEntry.Live, hentry, deletedEntry_firstByte]
      simp [hjk]
    · rw [if_neg hjk] at hentry
      simp only [LiveSlot, hentry]
      tauto
  · simp [LiveSlot, hj]

/-- Deleting the file of slot `k` frees its chain and leaves the rest of the volume in order. -/
theorem VolumeInv.delete {L : Layout} (hL : L.Usable) {d d' : Disk} {own : ℕ → List ℕ}
    (h : VolumeInv L d own) {k : ℕ} (hk : k < rootSlots L) (hd : Deleted L d d' k (own k)) :
    VolumeInv L d' (Function.update own k []) := by
  have hL' := hL.toWellFormed
  have hentry := fun f hf c hc => hd.fatEntry_eq hL' hk (f := f) (c := c) hf hc
  have hkeep : ∀ j, LiveSlot L d' j → LiveSlot L d j ∧ j ≠ k := fun j => (hd.liveSlot_iff hL').1
  have hroot : ∀ j, LiveSlot L d' j → rootEntry L d' j = rootEntry L d j := by
    intro j hj
    rw [hd.rootEntry_eq hL' hj.1, if_neg (hkeep j hj).2]
  refine ⟨fun f hf c hc h2 => ?_, fun j hj => ?_, fun j hj => ?_, fun j hj => ?_,
    fun i j hij => ?_, fun i j hi hj heq => ?_, fun j hj i hi => ?_⟩
  · rw [hentry f hf c hc, hentry 0 hL.numFats_pos c hc, h.agree f hf c hc h2]
  · obtain ⟨hold, hjk⟩ := hkeep j hj
    rw [hroot j hj, Function.update_of_ne hjk]
    refine (h.chain j hold).congr fun c hc => ?_
    have hcr := (h.owned hc).1
    rw [hentry 0 hL.numFats_pos c (lt_fatEntries hL hcr.2), if_neg (h.disjoint j k hjk hc)]
  · obtain ⟨hold, hjk⟩ := hkeep j hj
    rw [Function.update_of_ne hjk]
    exact h.nonempty j hold
  · by_cases hjk : j = k
    · rw [hjk, Function.update_self]
    · rw [Function.update_of_ne hjk]
      exact h.dead j fun hold => hj ((hd.liveSlot_iff hL').2 ⟨hold, hjk⟩)
  · exact disjoint_update h.disjoint (fun j _ => List.disjoint_nil_right _) i j hij
  · rw [hroot i hi, hroot j hj] at heq
    exact h.names i j (hkeep i hi).1 (hkeep j hj).1 heq
  · have hir : i < rootSlots L := lt_trans hi hj.1
    rw [hd.rootEntry_eq hL' hir]
    split
    · rw [deletedEntry_firstByte]
      decide
    · exact h.packed j (hkeep j hj).1 i hi

/-- `fat16_delete_file` on a name that resolves to slot `k`: it returns `0` and frees the file. -/
theorem fat16DeleteFile_found {L : Layout} (hL : L.Usable) {d : Disk} {own : ℕ → List ℕ}
    (h : VolumeInv L d own) {name : List UInt8} {k : ℕ} (hk : ResolvesTo L d name k) :
    ∃ d', Deleted L d d' k (own k) ∧
      ∀ fuel, 2046 < fuel → fat16DeleteFile fuel L d name = some (0, d') := by
  have hL' := hL.toWellFormed
  have hchain := h.chain k ⟨hk.slot, hk.live⟩
  obtain ⟨d₁, hfreed, hrun⟩ := freeCluster_iterate hL hchain
  refine ⟨_, ⟨d₁, hfreed, rfl⟩, fun fuel hfuel => ?_⟩
  have hlen := hchain.length_le
  have hsame : d₁ (rootLba L k) = d (rootLba L k) :=
    hfreed.other _ (rootLba_outsideFat hL' hk.slot)
  simp only [fat16DeleteFile, hk.findEntry_eq hL', ataReadSector, u32_rootLba hL' hk.slot]
  have hrun' := hrun fuel (by omega)
  simp only [rootEntry] at hrun'
  rw [hrun']
  simp only [Option.map_some, ataWriteSector, setRootEntry, rootEntry, hsame]

/-- `fat16_delete_file` on a name that resolves to nothing returns `-1` and changes nothing. -/
theorem fat16DeleteFile_notFound {L : Layout} (hL : L.WellFormed) {d : Disk} {name : List UInt8}
    (h : ∀ k, ¬ ResolvesTo L d name k) (fuel : ℕ) :
    fat16DeleteFile fuel L d name = some (-1, d) := by
  simp only [fat16DeleteFile, (findEntry_eq_none_iff hL).2 h]

/-! ## Writing -/

/-- Allocating clusters and filling them leaves the volume in order: they were free, so nobody owns
    them, and they are threaded into every copy of the FAT alike. -/
theorem VolumeInv.alloc {L : Layout} (hL : L.Usable) {d d' : Disk} {own : ℕ → List ℕ}
    (h : VolumeInv L d own) {data : ℕ → UInt8} {size n : ℕ}
    (hw : Written L data size d d' ((freeClusters L d).take n)) : VolumeInv L d' own := by
  refine h.congr (fun k hk => hw.rootEntry_eq hL.toWellFormed hk) (fun f hf c hc h2 => ?_)
    fun k c hc => ?_
  · rw [hw.entry f hf c hc, hw.entry 0 hL.numFats_pos c hc]
    exact Chain.link_congr _ (h.agree f hf c hc h2)
  · obtain ⟨hrange, hne⟩ := h.owned hc
    have hfree : c ∉ (freeClusters L d).take n :=
      fun hmem => hne (mem_freeClusters.1 (List.mem_of_mem_take hmem)).2
    rw [hw.entry 0 hL.numFats_pos c (lt_fatEntries hL hrange.2), Chain.link_of_not_mem _ hfree]

theorem liveSlot_setRootEntry {L : Layout} {d : Disk} {k j : ℕ} {e : DirEntry}
    (hk : k < rootSlots L) :
    LiveSlot L (setRootEntry L d k e) j ↔ if j = k then e.Live else LiveSlot L d j := by
  rw [LiveSlot, rootEntry_setRootEntry]
  split
  · next h => simp [h, hk]
  · rfl

/-- An entry of the root directory changes no chain. -/
theorem FatChain.setRootEntry {L : Layout} (hL : L.Usable) {d : Disk} {c : ℕ} {cs : List ℕ}
    (h : FatChain L d c cs) {k : ℕ} (hk : k < rootSlots L) (e : DirEntry) :
    FatChain L (setRootEntry L d k e) c cs :=
  h.congr fun x hx => fatEntry_setRootEntry hL.toWellFormed d hL.numFats_pos
    (lt_fatEntries hL (h.range x hx).2) hk e

/-- Entering a new file into the first free slot. -/
theorem VolumeInv.insert {L : Layout} (hL : L.Usable) {d : Disk} {own : ℕ → List ℕ}
    (h : VolumeInv L d own) {k : ℕ} {e : DirEntry} {cs : List ℕ} (hk : FirstFree L d k)
    (hlive : e.Live) (hchain : FatChain L d e.firstClusterLo cs) (hne : cs ≠ [])
    (hdisj : ∀ j, List.Disjoint (own j) cs)
    (hname : ∀ j, LiveSlot L d j → (rootEntry L d j).name ≠ e.name) :
    VolumeInv L (setRootEntry L d k e) (Function.update own k cs) := by
  have hL' := hL.toWellFormed
  have hls := fun j => liveSlot_setRootEntry (d := d) (e := e) (j := j) hk.slot
  have hfat := fun f hf c hc => fatEntry_setRootEntry hL' d (f := f) (c := c) hf hc hk.slot e
  have hkeep : ∀ j, j ≠ k → (LiveSlot L (setRootEntry L d k e) j ↔ LiveSlot L d j) := by
    intro j hj
    rw [hls, if_neg hj]
  refine ⟨fun f hf c hc h2 => ?_, fun j hj => ?_, fun j hj => ?_, fun j hj => ?_,
    fun i j hij => ?_, fun i j hi hj heq => ?_, fun j hj i hi => ?_⟩
  · rw [hfat f hf c hc, hfat 0 hL.numFats_pos c hc, h.agree f hf c hc h2]
  · rw [rootEntry_setRootEntry]
    by_cases hjk : j = k
    · rw [if_pos hjk, hjk, Function.update_self]
      exact hchain.setRootEntry hL hk.slot e
    · rw [if_neg hjk, Function.update_of_ne hjk]
      exact (h.chain j ((hkeep j hjk).1 hj)).setRootEntry hL hk.slot e
  · by_cases hjk : j = k
    · rwa [hjk, Function.update_self]
    · rw [Function.update_of_ne hjk]
      exact h.nonempty j ((hkeep j hjk).1 hj)
  · by_cases hjk : j = k
    · rw [hls, if_pos hjk] at hj
      exact absurd hlive hj
    · rw [Function.update_of_ne hjk]
      exact h.dead j (mt (hkeep j hjk).2 hj)
  · exact disjoint_update h.disjoint (fun j _ => hdisj j) i j hij
  · rw [rootEntry_setRootEntry, rootEntry_setRootEntry] at heq
    by_cases hik : i = k
    · by_cases hjk : j = k
      · rw [hik, hjk]
      · rw [if_pos hik, if_neg hjk] at heq
        exact absurd heq.symm (hname j ((hkeep j hjk).1 hj))
    · by_cases hjk : j = k
      · rw [if_neg hik, if_pos hjk] at heq
        exact absurd heq (hname i ((hkeep i hik).1 hi))
      · rw [if_neg hik, if_neg hjk] at heq
        exact h.names i j ((hkeep i hik).1 hi) ((hkeep j hjk).1 hj) heq
  · rw [rootEntry_setRootEntry]
    split
    · exact hlive.1
    · by_cases hjk : j = k
      · exact (hk.before i (hjk ▸ hi)).1
      · exact h.packed j ((hkeep j hjk).1 hj) i hi

/-- Entering an entry that looks deleted leaves everything as it was. -/
theorem VolumeInv.insert_dead {L : Layout} (hL : L.Usable) {d : Disk} {own : ℕ → List ℕ}
    (h : VolumeInv L d own) {k : ℕ} {e : DirEntry} (hk : FirstFree L d k)
    (hE5 : e.firstByte = 0xE5) : VolumeInv L (setRootEntry L d k e) own := by
  have hL' := hL.toWellFormed
  have hfat := fun f hf c hc => fatEntry_setRootEntry hL' d (f := f) (c := c) hf hc hk.slot e
  have hkeep : ∀ j, LiveSlot L (setRootEntry L d k e) j ↔ LiveSlot L d j := by
    intro j
    rw [liveSlot_setRootEntry hk.slot]
    split
    · next hjk =>
        subst hjk
        exact iff_of_false (fun he => he.2 hE5) (fun hj => hk.free hj.2)
    · rfl
  have hroot : ∀ j, LiveSlot L d j → rootEntry L (setRootEntry L d k e) j = rootEntry L d j := by
    intro j hj
    rw [rootEntry_setRootEntry, if_neg]
    rintro rfl
    exact hk.free hj.2
  refine ⟨fun f hf c hc h2 => ?_, fun j hj => ?_, fun j hj => h.nonempty j ((hkeep j).1 hj),
    fun j hj => h.dead j (mt (hkeep j).2 hj), h.disjoint, fun i j hi hj heq => ?_,
    fun j hj i hi => ?_⟩
  · rw [hfat f hf c hc, hfat 0 hL.numFats_pos c hc, h.agree f hf c hc h2]
  · rw [hroot j ((hkeep j).1 hj)]
    exact (h.chain j ((hkeep j).1 hj)).setRootEntry hL hk.slot e
  · rw [hroot i ((hkeep i).1 hi), hroot j ((hkeep j).1 hj)] at heq
    exact h.names i j ((hkeep i).1 hi) ((hkeep j).1 hj) heq
  · rw [rootEntry_setRootEntry]
    split
    · rw [hE5]
      decide
    · exact h.packed j ((hkeep j).1 hj) i hi

end BlackHole
