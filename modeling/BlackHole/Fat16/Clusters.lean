import BlackHole.Lib.Chain
import BlackHole.Fat16.Directory

set_option autoImplicit false

/-! # Cluster chains

The two loops of the driver that change the FAT, as one statement each about the whole table:

* freeing a chain zeroes exactly its entries, in every copy (`freeCluster_iterate`);
* allocating `n` clusters takes the `n` lowest free ones, threads them into one chain in every copy
  and fills their sectors (`writeCluster_foldlM`), or, when fewer are free, takes all of them and
  reports a full disk (`writeCluster_foldlM_full`). -/

namespace BlackHole

open Bytes

/-! ## Chains in the FAT -/

/-- The values that end a cluster chain. -/
def EndOfChain (c : ℕ) : Prop := 0xFFF8 ≤ c

/-- The chain that starts at `c` is `cs`, and stays inside the clusters `2..2047`. -/
structure FatChain (L : Layout) (d : Disk) (c : ℕ) (cs : List ℕ) : Prop where
  follows : Chain.Follows (fatEntry L d 0) EndOfChain c cs
  range : ∀ x ∈ cs, 2 ≤ x ∧ x < 2048

theorem lt_fatEntries {L : Layout} (hL : L.Usable) {c : ℕ} (hc : c < 2048) : c < fatEntries L := by
  have hsize := hL.fatSize_ge
  unfold fatEntries
  omega

theorem FatChain.congr {L : Layout} {d d' : Disk} {c : ℕ} {cs : List ℕ}
    (h : ∀ x ∈ cs, fatEntry L d' 0 x = fatEntry L d 0 x) (hc : FatChain L d c cs) :
    FatChain L d' c cs :=
  ⟨hc.follows.congr h, hc.range⟩

/-- The entry of a cluster on a chain is never zero. -/
theorem FatChain.entry_ne_zero {L : Layout} {d : Disk} {c : ℕ} {cs : List ℕ}
    (hc : FatChain L d c cs) : ∀ x ∈ cs, fatEntry L d 0 x ≠ 0 := by
  intro x hx
  rcases hc.follows.next_mem_or_stop x hx with hmem | hend
  · have := hc.range _ hmem
    omega
  · unfold EndOfChain at hend
    omega

theorem FatChain.length_le {L : Layout} {d : Disk} {c : ℕ} {cs : List ℕ}
    (hc : FatChain L d c cs) : cs.length ≤ 2046 := by
  have hsub : cs ⊆ List.range' 2 2046 := by
    intro x hx
    have := hc.range x hx
    rw [List.mem_range'_1]
    omega
  have hle := (hc.follows.nodup.subperm hsub).length_le
  rwa [List.length_range'] at hle

/-! ## Freeing -/

/-- `d'` is `d` with the entries of `cs` zeroed in every copy of the FAT. -/
structure Freed (L : Layout) (d d' : Disk) (cs : List ℕ) : Prop where
  entry : ∀ f < L.numFats, ∀ c < fatEntries L,
    fatEntry L d' f c = if c ∈ cs then 0 else fatEntry L d f c
  other : ∀ lba, OutsideFat L lba → d' lba = d lba

theorem Freed.nil (L : Layout) (d : Disk) : Freed L d d [] :=
  ⟨fun _ _ _ _ => by simp, fun _ _ => rfl⟩

theorem Freed.cons {L : Layout} {d d₁ d' : Disk} {c : ℕ} {cs : List ℕ} (h : Freed L d d₁ [c])
    (h' : Freed L d₁ d' cs) : Freed L d d' (c :: cs) := by
  refine ⟨fun f hf y hy => ?_, fun lba hlba => by rw [h'.other lba hlba, h.other lba hlba]⟩
  rw [h'.entry f hf y hy, h.entry f hf y hy]
  by_cases hy' : y ∈ cs
  · rw [if_pos hy', if_pos (List.mem_cons_of_mem _ hy')]
  · simp only [List.mem_cons, hy', or_false, List.not_mem_nil, if_false]

theorem freed_fatWriteEntry {L : Layout} (hL : L.Usable) (d : Disk) {c : ℕ} (hc : c < 2048) :
    Freed L d (fatWriteEntry L d c 0) [c] := by
  have hcl := lt_fatEntries hL hc
  refine ⟨fun f hf y hy => ?_, fun lba => fatWriteEntry_outside hL.toWellFormed d 0 hcl (by omega)⟩
  rw [fatEntry_fatWriteEntry hL.toWellFormed d hf hcl (by omega) hy (by omega)]
  by_cases hyc : y = c
  · subst hyc
    simp
  · simp [hyc]

/-- An iteration reads the link before it zeroes it, and does not touch the clusters still to come,
    because a chain repeats none. -/
theorem FatChain.freeCluster_next {L : Layout} (hL : L.Usable) {d : Disk} {c : ℕ} {xs : List ℕ}
    (h : FatChain L d c (c :: xs)) :
    freeCluster L (c, d) = .inr (fatEntry L d 0 c, fatWriteEntry L d c 0) ∧
      FatChain L (fatWriteEntry L d c 0) (fatEntry L d 0 c) xs := by
  obtain ⟨-, -, hrest⟩ := h.follows
  have hx := h.range c (List.mem_cons_self ..)
  have hfreed := freed_fatWriteEntry hL d hx.2
  have hnot : c ∉ xs := (List.nodup_cons.1 h.follows.nodup).1
  refine ⟨?_, hrest.congr fun y hy => ?_, fun y hy => h.range y (List.mem_cons_of_mem _ hy)⟩
  · simp only [freeCluster]
    rw [if_pos (by omega), fatReadEntry_eq hL.toWellFormed d (by omega)]
  · have hy2 := h.range y (List.mem_cons_of_mem _ hy)
    have hyc : y ≠ c := fun he => hnot (he ▸ hy)
    rw [hfreed.entry 0 hL.numFats_pos y (lt_fatEntries hL hy2.2), if_neg (by simpa using hyc)]

/-- Freeing a chain terminates and zeroes exactly its entries. -/
theorem freeCluster_iterate {L : Layout} (hL : L.Usable) : ∀ {cs : List ℕ} {c : ℕ} {d : Disk},
    FatChain L d c cs →
    ∃ d', Freed L d d' cs ∧
      ∀ fuel, cs.length < fuel → Loop.iterate (freeCluster L) fuel (c, d) = some d' := by
  intro cs
  induction cs with
  | nil =>
      intro c d hc
      have hend : 0xFFF8 ≤ c := hc.follows
      have hbody : freeCluster L (c, d) = .inl d := if_neg (by omega)
      exact ⟨d, .nil L d, Loop.iterate_exit_of_lt 0 hbody⟩
  | cons x xs ih =>
      intro c d hc
      obtain rfl : c = x := hc.follows.1
      obtain ⟨hbody, htail⟩ := hc.freeCluster_next hL
      obtain ⟨d', hfreed, hrun⟩ := ih htail
      have hfirst := freed_fatWriteEntry hL d (hc.range c (List.mem_cons_self ..)).2
      exact ⟨d', hfirst.cons hfreed, Loop.iterate_again_of_lt hbody hrun⟩

theorem Freed.rootEntry_eq {L : Layout} (hL : L.WellFormed) {d d' : Disk} {cs : List ℕ}
    (h : Freed L d d' cs) {k : ℕ} (hk : k < rootSlots L) : rootEntry L d' k = rootEntry L d k := by
  simp only [rootEntry, h.other _ (rootLba_outsideFat hL hk)]

/-! ## Free clusters -/

/-- The free clusters among `2..2047`, in the order in which they are allocated. -/
def freeClusters (L : Layout) (d : Disk) : List ℕ :=
  (List.range' 2 2046).filter fun c => fatEntry L d 0 c == 0

theorem mem_freeClusters {L : Layout} {d : Disk} {c : ℕ} :
    c ∈ freeClusters L d ↔ (2 ≤ c ∧ c < 2048) ∧ fatEntry L d 0 c = 0 := by
  simp only [freeClusters, List.mem_filter, List.mem_range'_1, beq_iff_eq]

theorem freeClusters_nodup (L : Layout) (d : Disk) : (freeClusters L d).Nodup :=
  List.Nodup.filter _ (List.nodup_range' ..)

/-- `fat_alloc_cluster` takes the lowest free cluster. -/
theorem fatAllocCluster_eq {L : Layout} (hL : L.WellFormed) (d : Disk) :
    fatAllocCluster L d = (freeClusters L d).head?.getD 0 := by
  rw [freeClusters, fatAllocCluster, ← List.head?_filter]
  congr 2
  apply List.filter_congr
  intro c hc
  rw [List.mem_range'_1] at hc
  rw [fatReadEntry_eq hL d (by omega)]

/-! ## Writing the data of one cluster -/

/-- What sector `s` of the `i`-th cluster of a file receives. -/
def fileSector (L : Layout) (data : ℕ → UInt8) (size i s : ℕ) : Sector :=
  paddedSector data size (u32 (u32 (i * (L.sectorsPerCluster * 512)) + s * 512))

theorem writeClusterData_apply {L : Layout} (hL : L.WellFormed) (d : Disk) {c : ℕ} (hc : 2 ≤ c)
    (hc' : c < 65536) (data : ℕ → UInt8) (size i lba : ℕ) :
    (∀ s < L.sectorsPerCluster, lba = dataLba L c s →
      writeClusterData L d c data size i lba = fileSector L data size i s) ∧
    ((∀ s < L.sectorsPerCluster, lba ≠ dataLba L c s) →
      writeClusterData L d c data size i lba = d lba) := by
  have hspc := hL.sectorsPerCluster_lt
  simp only [writeClusterData, ataWriteSector]
  -- the sectors below `n` are written
  have key : ∀ n ≤ L.sectorsPerCluster,
      (∀ s < n, lba = dataLba L c s →
        (List.range n).foldl (fun d sec => Function.update d (u32 (clusterToLba L c + sec))
          (paddedSector data size (u32 (u32 (i * (L.sectorsPerCluster * 512)) + sec * 512)))) d lba
          = fileSector L data size i s) ∧
      ((∀ s < n, lba ≠ dataLba L c s) →
        (List.range n).foldl (fun d sec => Function.update d (u32 (clusterToLba L c + sec))
          (paddedSector data size (u32 (u32 (i * (L.sectorsPerCluster * 512)) + sec * 512)))) d lba
          = d lba) := by
    intro n
    induction n with
    | zero => intro _; simp
    | succ n ih =>
        intro hn
        obtain ⟨ihw, iho⟩ := ih (by omega)
        rw [List.range_succ, List.foldl_append, List.foldl_cons, List.foldl_nil,
          clusterToLba_add hL hc hc' (by omega)]
        refine ⟨fun s hs hlba => ?_, fun hlba => ?_⟩
        · by_cases hsn : s = n
          · subst hsn
            rw [hlba, Function.update_self]
            rfl
          · have hne : lba ≠ dataLba L c n := by
              rw [hlba]
              intro h
              exact hsn (dataLba_inj hc hc (by omega) (by omega) h).2
            rw [Function.update_of_ne hne]
            exact ihw s (by omega) hlba
        · rw [Function.update_of_ne (hlba n (by omega))]
          exact iho fun s hs => hlba s (by omega)
  exact key L.sectorsPerCluster le_rfl

/-! ## Allocating a chain -/

/-- `d'` is `d` with the clusters `cs` threaded into a chain in every copy of the FAT and with the
    data of a file in their sectors. -/
structure Written (L : Layout) (data : ℕ → UInt8) (size : ℕ) (d d' : Disk) (cs : List ℕ) :
    Prop where
  entry : ∀ f < L.numFats, ∀ c < fatEntries L,
    fatEntry L d' f c = Chain.link (fatEntry L d f) 0xFFFF cs c
  data : ∀ i c, cs[i]? = some c → ∀ s < L.sectorsPerCluster,
    d' (dataLba L c s) = fileSector L data size i s
  other : ∀ lba, OutsideFat L lba → (∀ c ∈ cs, ∀ s < L.sectorsPerCluster, lba ≠ dataLba L c s) →
    d' lba = d lba

theorem Written.nil (L : Layout) (data : ℕ → UInt8) (size : ℕ) (d : Disk) :
    Written L data size d d [] :=
  ⟨fun _ _ _ _ => rfl, fun _ _ h => by simp at h, fun _ _ _ => rfl⟩

theorem Written.rootEntry_eq {L : Layout} (hL : L.WellFormed) {data : ℕ → UInt8} {size : ℕ}
    {d d' : Disk} {cs : List ℕ} (h : Written L data size d d' cs) {k : ℕ} (hk : k < rootSlots L) :
    rootEntry L d' k = rootEntry L d k := by
  have hreg := rootLba_mem_region hL hk
  have hlba : d' (rootLba L k) = d (rootLba L k) := by
    refine h.other _ (rootLba_outsideFat hL hk) fun c _ s _ he => ?_
    have hge := dataLba_ge L c s
    omega
  simp only [rootEntry, hlba]

/-- Mark `x` as the end of a chain and link `prev` to it, if there is one. -/
def linkCluster (L : Layout) (d : Disk) (prev x : ℕ) : Disk :=
  let d := fatWriteEntry L d x 0xFFFF
  if prev ≠ 0 then fatWriteEntry L d prev x else d

/-- The two entry writes thread the new cluster into the table. -/
theorem linkCluster_entry {L : Layout} (hL : L.Usable) {d d' : Disk} {cs : List ℕ} {x f c : ℕ}
    (hf : f < L.numFats) (hc : c < fatEntries L)
    (h : ∀ y < fatEntries L, fatEntry L d' f y = Chain.link (fatEntry L d f) 0xFFFF cs y)
    (hnd : (cs ++ [x]).Nodup) (hrange : ∀ c ∈ cs ++ [x], 2 ≤ c ∧ c < 2048) :
    fatEntry L (linkCluster L d' (cs.getLast?.getD 0) x) f c
      = Chain.link (fatEntry L d f) 0xFFFF (cs ++ [x]) c := by
  have hL' := hL.toWellFormed
  have hx := hrange x (by simp)
  have hxe := lt_fatEntries hL hx.2
  have hmark : ∀ y < fatEntries L, fatEntry L (fatWriteEntry L d' x 0xFFFF) f y
      = Function.update (Chain.link (fatEntry L d f) 0xFFFF cs) x 0xFFFF y := by
    intro y hy
    rw [fatEntry_fatWriteEntry hL' d' hf hxe (by omega) hy (by omega)]
    by_cases hyx : y = x
    · subst hyx; simp
    · rw [Function.update_of_ne hyx, Function.update_of_ne hyx, h y hy]
  rcases hlast : cs.getLast? with _ | p
  · have hcs : cs = [] := List.getLast?_eq_none_iff.1 hlast
    subst hcs
    simp only [linkCluster, Option.getD_none, ne_eq, not_true_eq_false, if_false]
    rw [hmark c hc]
    rfl
  · have hp := hrange p (List.mem_append_left _ (List.mem_of_getLast? hlast))
    simp only [linkCluster, Option.getD_some]
    rw [if_pos (by omega), fatEntry_fatWriteEntry hL' _ hf (lt_fatEntries hL hp.2) (by omega) hc
      (by omega), Chain.link_concat _ _ hlast hnd]
    by_cases hcp : c = p
    · subst hcp; simp
    · rw [Function.update_of_ne hcp, Function.update_of_ne hcp, hmark c hc]

theorem linkCluster_outside {L : Layout} (hL : L.Usable) (d : Disk) {prev x lba : ℕ}
    (hprev : prev < 2048) (hx : x < 2048) (hlba : OutsideFat L lba) :
    linkCluster L d prev x lba = d lba := by
  have hL' := hL.toWellFormed
  have hmark := fatWriteEntry_outside hL' d 0xFFFF (lt_fatEntries hL hx) (by omega) hlba
  simp only [linkCluster]
  split
  · rw [fatWriteEntry_outside hL' _ _ (lt_fatEntries hL hprev) (by omega) hlba, hmark]
  · exact hmark

/-- Appending one cluster: mark it as the end, link the last one to it and fill its sectors. -/
theorem Written.concat {L : Layout} (hL : L.Usable) {data : ℕ → UInt8} {size : ℕ} {d d' : Disk}
    {cs : List ℕ} {x : ℕ} (h : Written L data size d d' cs) (hnd : (cs ++ [x]).Nodup)
    (hrange : ∀ c ∈ cs ++ [x], 2 ≤ c ∧ c < 2048) :
    Written L data size d
      (writeClusterData L (linkCluster L d' (cs.getLast?.getD 0) x) x data size cs.length)
      (cs ++ [x]) := by
  have hx := hrange x (by simp)
  have hL' := hL.toWellFormed
  set d₂ := linkCluster L d' (cs.getLast?.getD 0) x with hd₂
  have hlast : cs.getLast?.getD 0 < 2048 := by
    rcases hlast : cs.getLast? with _ | p
    · decide
    · exact (hrange p (List.mem_append_left _ (List.mem_of_getLast? hlast))).2
  have hother : ∀ lba, OutsideFat L lba → d₂ lba = d' lba :=
    fun lba hlba => linkCluster_outside hL d' hlast hx.2 hlba
  have hdata := fun lba => writeClusterData_apply hL' d₂ hx.1 (by omega) data size cs.length lba
  refine ⟨fun f hf c hc => ?_, fun i c hi s hs => ?_, fun lba hlba hnot => ?_⟩
  · rw [← linkCluster_entry hL hf hc (h.entry f hf) hnd hrange, ← hd₂, fatEntry, fatEntry,
      (hdata _).2]
    intro s _ he
    have hfatreg := fatLba_mem_region hL' hf hc
    have hge := dataLba_ge L x s
    have hde := hL'.dataStart_eq
    omega
  · rcases Nat.lt_or_ge i cs.length with hlt | hge
    · rw [List.getElem?_append_left hlt] at hi
      have hcmem : c ∈ cs := List.mem_of_getElem? hi
      have hc2 := hrange c (List.mem_append_left _ hcmem)
      have hne : ∀ s' < L.sectorsPerCluster, dataLba L c s ≠ dataLba L x s' := by
        intro s' hs' he
        have hcx := (dataLba_inj hc2.1 hx.1 hs hs' he).1
        rw [List.nodup_append] at hnd
        exact hnd.2.2 c hcmem x (by simp) hcx
      rw [(hdata _).2 hne, hother _ (dataLba_outsideFat hL' c s)]
      exact h.data i c hi s hs
    · have hix : i = cs.length ∧ x = c := by
        rw [List.getElem?_append_right hge] at hi
        rcases hk : i - cs.length with _ | k
        · rw [hk] at hi
          exact ⟨by omega, by simpa using hi⟩
        · rw [hk] at hi
          simp at hi
      obtain ⟨rfl, rfl⟩ := hix
      exact (hdata _).1 s hs rfl
  · rw [(hdata lba).2 fun s hs => hnot x (by simp) s hs, hother lba hlba]
    exact h.other lba hlba fun c hc => hnot c (List.mem_append_left _ hc)

/-- Clusters threaded in the first copy of the FAT form a chain. -/
theorem FatChain.of_link {L : Layout} {d : Disk} {next : ℕ → ℕ} {cs : List ℕ} {c : ℕ}
    (hc : cs.head? = some c) (hnd : cs.Nodup) (hrange : ∀ x ∈ cs, 2 ≤ x ∧ x < 2048)
    (h : ∀ x ∈ cs, fatEntry L d 0 x = Chain.link next 0xFFFF cs x) : FatChain L d c cs := by
  have hlink : Chain.Follows (Chain.link next 0xFFFF cs) EndOfChain c cs := by
    refine Chain.follows_link (by unfold EndOfChain; omega) hc hnd fun x hx => ?_
    have hx2 := hrange x hx
    unfold EndOfChain
    omega
  exact ⟨hlink.congr h, hrange⟩

/-- The written clusters form the chain of the new file. -/
theorem Written.fatChain {L : Layout} (hL : L.Usable) {data : ℕ → UInt8} {size : ℕ}
    {d d' : Disk} {cs : List ℕ} (h : Written L data size d d' cs) {c : ℕ} (hc : cs.head? = some c)
    (hnd : cs.Nodup) (hrange : ∀ x ∈ cs, 2 ≤ x ∧ x < 2048) : FatChain L d' c cs :=
  FatChain.of_link hc hnd hrange fun x hx =>
    h.entry 0 hL.numFats_pos x (lt_fatEntries hL (hrange x hx).2)

/-- Threaded clusters are no longer free; all others are as they were. -/
theorem Written.freeClusters_eq {L : Layout} (hL : L.Usable) {data : ℕ → UInt8} {size : ℕ}
    {d d' : Disk} {cs : List ℕ} (h : Written L data size d d' cs)
    (hnd : cs.Nodup) (hrange : ∀ c ∈ cs, 2 ≤ c ∧ c < 2048) :
    freeClusters L d' = (freeClusters L d).filter fun c => c ∉ cs := by
  rw [freeClusters, freeClusters, List.filter_filter]
  apply List.filter_congr
  intro c hc
  rw [List.mem_range'_1] at hc
  by_cases hmem : c ∈ cs
  · obtain ⟨x, hx⟩ : ∃ x, cs.head? = some x := by
      cases cs with
      | nil => simp at hmem
      | cons x xs => exact ⟨x, rfl⟩
    have hne := (h.fatChain hL hx hnd hrange).entry_ne_zero c hmem
    simp [hmem, hne]
  · rw [h.entry 0 hL.numFats_pos c (lt_fatEntries hL (by omega)), Chain.link_of_not_mem _ hmem]
    simp [hmem]

/-! ## The allocation loop -/

theorem freeClusters_take_range {L : Layout} {d : Disk} {n : ℕ} :
    ∀ c ∈ (freeClusters L d).take n, 2 ≤ c ∧ c < 2048 :=
  fun _ hc => (mem_freeClusters.1 (List.mem_of_mem_take hc)).1

theorem freeClusters_take_nodup (L : Layout) (d : Disk) (n : ℕ) :
    ((freeClusters L d).take n).Nodup :=
  (freeClusters_nodup L d).sublist (List.take_sublist n _)

/-- After taking the `n` lowest free clusters, the others are still free. -/
theorem Written.freeClusters_drop {L : Layout} (hL : L.Usable) {data : ℕ → UInt8} {size n : ℕ}
    {d d' : Disk} (h : Written L data size d d' ((freeClusters L d).take n)) :
    freeClusters L d' = (freeClusters L d).drop n := by
  rw [h.freeClusters_eq hL (freeClusters_take_nodup L d n) freeClusters_take_range]
  have hnd := freeClusters_nodup L d
  generalize freeClusters L d = fl at hnd
  rw [← List.take_append_drop n fl, List.nodup_append] at hnd
  conv_lhs => rw [← List.take_append_drop n fl]
  rw [List.filter_append, List.filter_eq_nil_iff.2, List.nil_append, List.filter_eq_self.2]
  · intro c hc
    simpa using fun hmem => hnd.2.2 c hmem c hc rfl
  · intro c hc
    simpa using hc

/-- The loop has taken the `n` lowest free clusters. -/
structure ClustersTaken (L : Layout) (data : ℕ → UInt8) (size : ℕ) (d : Disk) (n : ℕ)
    (st : AllocState) : Prop where
  first : st.firstCluster = ((freeClusters L d).take n).head?.getD 0
  prev : st.prevCluster = ((freeClusters L d).take n).getLast?.getD 0
  written : Written L data size d st.disk ((freeClusters L d).take n)

/-- One iteration takes the lowest cluster that is still free and links it to the one before. -/
theorem ClustersTaken.step {L : Layout} (hL : L.Usable) {data : ℕ → UInt8} {size : ℕ} {d : Disk}
    {n : ℕ} {st : AllocState} (h : ClustersTaken L data size d n st)
    (hn : n < (freeClusters L d).length) :
    ∃ st', writeCluster L data size st n = .ok st' ∧ ClustersTaken L data size d (n + 1) st' := by
  obtain ⟨hfirst, hprev, hwritten⟩ := h
  have hfree := hwritten.freeClusters_drop hL
  set fl := freeClusters L d with hfl
  have hcluster : fatAllocCluster L st.disk = fl[n] := by
    rw [fatAllocCluster_eq hL.toWellFormed, hfree, List.head?_drop, List.getElem?_eq_getElem hn,
      Option.getD_some]
  have htake : fl.take (n + 1) = fl.take n ++ [fl[n]] := List.take_succ_eq_append_getElem hn
  have hrange : ∀ c ∈ fl.take n ++ [fl[n]], 2 ≤ c ∧ c < 2048 := by
    rw [← htake]
    exact freeClusters_take_range
  have hnd : (fl.take n ++ [fl[n]]).Nodup := by
    rw [← htake]
    exact freeClusters_take_nodup L d _
  have hpos := hrange fl[n] (List.mem_append_right _ (List.mem_singleton.2 rfl))
  have hlen : (fl.take n).length = n := List.length_take_of_le (by omega)
  have hnext := hwritten.concat hL hnd hrange
  rw [hlen] at hnext
  let next : AllocState :=
    { firstCluster := if n = 0 then fl[n] else st.firstCluster
      prevCluster := fl[n]
      disk := writeClusterData L (linkCluster L st.disk ((fl.take n).getLast?.getD 0) fl[n])
        fl[n] data size n }
  refine ⟨next, ?_, ?_, ?_, ?_⟩
  · simp only [writeCluster, hcluster, hprev]
    rw [if_neg (by omega)]
    rfl
  · rw [← hfl, htake]
    by_cases hn0 : n = 0
    · subst hn0
      simp [next]
    · have hne : fl.take n ≠ [] := by
        intro hnil
        rw [hnil] at hlen
        exact hn0 hlen.symm
      simp only [next, if_neg hn0, hfirst]
      rw [List.head?_append_of_ne_nil _ hne]
  · rw [← hfl, htake, List.getLast?_concat]
    rfl
  · rw [← hfl, htake]
    exact hnext

/-- As long as clusters are free, the loop takes the lowest ones and threads them in order. -/
theorem writeCluster_foldlM {L : Layout} (hL : L.Usable) (data : ℕ → UInt8) (size : ℕ) (d : Disk) :
    ∀ n ≤ (freeClusters L d).length,
      ∃ st, (List.range n).foldlM (writeCluster L data size) ⟨0, 0, d⟩ = .ok st ∧
        ClustersTaken L data size d n st := by
  intro n
  induction n with
  | zero =>
      intro _
      exact ⟨⟨0, 0, d⟩, rfl, by simp, by simp, by simpa using Written.nil L data size d⟩
  | succ n ih =>
      intro hn
      obtain ⟨st, hrun, hst⟩ := ih (by omega)
      obtain ⟨st', hstep, hst'⟩ := hst.step hL hn
      refine ⟨st', ?_, hst'⟩
      rw [List.range_succ, List.foldlM_append, hrun]
      show writeCluster L data size st n >>= pure = .ok st'
      rw [hstep]
      rfl

/-- With too few free clusters the loop takes them all before it reports a full disk. -/
theorem writeCluster_foldlM_full {L : Layout} (hL : L.Usable) (data : ℕ → UInt8) (size : ℕ)
    (d : Disk) {n : ℕ} (hn : (freeClusters L d).length < n) :
    ∃ d', (List.range n).foldlM (writeCluster L data size) ⟨0, 0, d⟩ = .error d' ∧
      Written L data size d d' (freeClusters L d) := by
  obtain ⟨st, hrun, -, -, hwritten⟩ := writeCluster_foldlM hL data size d _ le_rfl
  have hfree := hwritten.freeClusters_drop hL
  rw [List.take_length] at hwritten
  rw [List.drop_length] at hfree
  obtain ⟨k, rfl⟩ : ∃ k, n = (freeClusters L d).length + (k + 1) :=
    ⟨n - (freeClusters L d).length - 1, by omega⟩
  have hstep : ∀ c, writeCluster L data size st c = .error st.disk := by
    intro c
    simp only [writeCluster, fatAllocCluster_eq hL.toWellFormed, hfree]
    rfl
  refine ⟨st.disk, ?_, hwritten⟩
  rw [List.range_add, List.foldlM_append, hrun, List.range_succ_eq_map, List.map_cons]
  show writeCluster L data size st _ >>= _ = Except.error st.disk
  rw [hstep]
  rfl

end BlackHole
