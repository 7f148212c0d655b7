import BlackHole.Fat16.History
import BlackHole.Fat16.RoundTrip

set_option autoImplicit false

/-! # Deleting and overwriting

On every reachable volume: what exactly a delete changes (`fat16_delete_exact`), when a write
succeeds (`fat16_write_succeeds_iff`), and that of two writes to one name only the last one shows
(`fat16_last_write_wins`). -/

namespace BlackHole

open Bytes

/-! ## Deleting -/

/-- `d'` is `d` with the file of slot `k`, whose chain is `cs`, deleted: nothing but the entries of
    the chain and the first byte of the slot has changed. -/
structure DeletedExactly (L : Layout) (d d' : Disk) (k : ℕ) (cs : List ℕ) : Prop where
  fat : ∀ f < L.numFats, ∀ c < fatEntries L,
    fatEntry L d' f c = if c ∈ cs then 0 else fatEntry L d f c
  root : ∀ j < rootSlots L, ∀ i < 32,
    (rootEntry L d' j).byte i = if j = k ∧ i = 0 then 0xE5 else (rootEntry L d j).byte i
  data : ∀ lba, L.dataStartLba ≤ lba → d' lba = d lba
  below : ∀ lba < L.fatStartLba, d' lba = d lba

theorem Deleted.exactly {L : Layout} (hL : L.WellFormed) {d d' : Disk} {k : ℕ} {cs : List ℕ}
    (h : Deleted L d d' k cs) (hk : k < rootSlots L) : DeletedExactly L d d' k cs := by
  have hreg := rootLba_mem_region hL hk
  have hroot := hL.rootDirStart_eq
  have hdata := hL.dataStart_eq
  refine ⟨fun f hf c hc => h.fatEntry_eq hL hk hf hc, fun j hj i hi => ?_, fun lba hlba => ?_,
    fun lba hlba => ?_⟩
  · rw [h.rootEntry_eq hL hj]
    by_cases hjk : j = k
    · subst hjk
      by_cases hi0 : i = 0
      · rw [if_pos rfl, if_pos ⟨rfl, hi0⟩, hi0, Buf.byte_setByte_self (by decide)]
      · rw [if_pos rfl, if_neg fun h => hi0 h.2, Buf.byte_setByte_of_ne hi0]
    · rw [if_neg hjk, if_neg fun h => hjk h.1]
  · exact h.other (Or.inr (by omega)) (by omega)
  · exact h.other (Or.inl hlba) (by omega)

/-- A delete by name, on every reachable volume. If a live entry has the name, it returns `0`, the
    name is not found any more, and the disk has changed in that entry's first byte and its chain's
    FAT entries only. If none has, it returns `-1` and leaves the disk alone. -/
theorem fat16_delete_exact {L : Layout} {d₀ d : Disk} (h₀ : Formatted L d₀)
    (hreach : Reachable L (fun _ call => call.IsU32) d₀ d) (name : List UInt8) :
    (∀ k, Holds L d name k →
      ∃ cs d', FileAt L d name k cs ∧ DeletedExactly L d d' k cs ∧
        (∀ fuel, 2046 < fuel → fat16DeleteFile fuel L d name = some (0, d')) ∧
        ∀ fuel buffer bufSize,
          fat16ReadFile fuel L d' name buffer bufSize = some (-1, buffer)) ∧
    ((∀ k, ¬ Holds L d name k) →
      ∀ fuel, fat16DeleteFile fuel L d name = some (-1, d)) := by
  have hL := h₀.usable
  obtain ⟨own, hinv, -⟩ := h₀.reachable hreach
  refine ⟨fun k hholds => ?_, fun hnone fuel => ?_⟩
  · have hk : ResolvesTo L d name k := hinv.resolvesTo_iff.2 hholds
    obtain ⟨ret, d', own₁, hafter, hret, -, hrun⟩ := fat16DeleteFile_spec hL hinv name
    obtain rfl : ret = 0 := hret.1 ⟨k, hk⟩
    rcases hafter.effect with ⟨-, -, hgone⟩ | ⟨j, hj, hdel, -⟩
    · exact absurd hk (hgone k)
    · obtain rfl := hj.unique hk
      exact ⟨own j, d', ⟨hholds, hinv.chain j hholds.1⟩, hdel.exactly hL.toWellFormed hj.slot, hrun,
        fun fuel buffer bufSize => fat16ReadFile_notFound hL.toWellFormed hafter.gone fuel _ _⟩
  · exact fat16DeleteFile_notFound hL.toWellFormed
      (fun k hk => hnone k (hinv.resolvesTo_iff.1 hk)) fuel

/-- On the image of `build.ps1` with one file `"a"`, deleting `"A"` and deleting `"b"`. -/
theorem fat16_delete_exact_hddImage :
    ∃ d k cs d', Step hddLayout hddImage (.write [0x61] (fun _ => 0) 700) 0 d ∧
      DeletedExactly hddLayout d d' k cs ∧
      (∀ fuel, 2046 < fuel → fat16DeleteFile fuel hddLayout d [0x41] = some (0, d')) ∧
      (∀ fuel buffer bufSize,
        fat16ReadFile fuel hddLayout d' [0x41] buffer bufSize = some (-1, buffer)) ∧
      ∀ fuel, fat16DeleteFile fuel hddLayout hddImage [0x62] = some (-1, hddImage) := by
  have h₀ := hddImage_formatted
  obtain ⟨d, hs⟩ := hddImage_write [0x61] (fun _ => 0) (by decide : 700 ≤ 2046 * 512)
  have hreach : Reachable hddLayout (fun _ call => call.IsU32) hddImage d :=
    Relation.ReflTransGen.single
      ⟨.write [0x61] (fun _ => 0) 700, 0, show 700 < 4294967296 by decide, hs⟩
  have hfound : ∃ k, ResolvesTo hddLayout d [0x41] k := by
    by_contra hnone
    have hread : fat16ReadFile 2047 hddLayout d [0x41] (fun _ => 0) 1 = some _ :=
      hs.read_back h₀.usable h₀.volumeInv (by decide) (by decide) 1 (by decide) _ 2047
        (by decide)
    rw [fat16ReadFile_notFound h₀.usable.toWellFormed fun k hk => hnone ⟨k, hk⟩] at hread
    exact absurd (congrArg Prod.fst (Option.some.inj hread)) (by decide)
  obtain ⟨k, hk⟩ := hfound
  obtain ⟨cs, d', -, hdel, hrun, hread⟩ :=
    (fat16_delete_exact h₀ hreach [0x41]).1 k ⟨⟨hk.slot, hk.live⟩, hk.name_eq⟩
  exact ⟨d, k, cs, d', hs, hdel, hrun, hread,
    (fat16_delete_exact h₀ Relation.ReflTransGen.refl [0x62]).2 fun j hj => h₀.not_live hj.1⟩

/-! ## When a write succeeds -/

/-- The chain of the live entry of the name has length `m`; `0` if there is no such entry. -/
def OldLength (L : Layout) (d : Disk) (name : List UInt8) (m : ℕ) : Prop :=
  (∃ k cs, FileAt L d name k cs ∧ m = cs.length) ∨
  ((∀ k, ¬ Holds L d name k) ∧ m = 0)

theorem VolumeInv.oldLength_exists {L : Layout} {d : Disk} {own : ℕ → List ℕ}
    (h : VolumeInv L d own) (name : List UInt8) : ∃ m, OldLength L d name m := by
  by_cases hex : ∃ k, Holds L d name k
  · obtain ⟨k, hk⟩ := hex
    exact ⟨_, Or.inl ⟨k, own k, ⟨hk, h.chain k hk.1⟩, rfl⟩⟩
  · exact ⟨0, Or.inr ⟨fun k hk => hex ⟨k, hk⟩, rfl⟩⟩

/-- `Room` as two counts: clusters, and slots. -/
theorem OldLength.room_iff {L : Layout} {d : Disk} {own : ℕ → List ℕ} (h : VolumeInv L d own)
    {name : List UInt8} {m n : ℕ} (hm : OldLength L d name m) :
    Room L d name n ↔ n ≤ (freeClusters L d).length + m ∧
      ((∃ k < rootSlots L, ¬ (rootEntry L d k).Live) ∨ ∃ k, Holds L d name k) := by
  have hres : ∀ {k}, ResolvesTo L d name k ↔ Holds L d name k := h.resolvesTo_iff
  rcases hm with ⟨k, cs, ⟨hk, hcs⟩, rfl⟩ | ⟨hnone, rfl⟩
  · constructor
    · rintro (⟨j, ds, hj, hds, hle⟩ | ⟨hnone, -⟩)
      · obtain rfl := hj.unique (hres.2 hk)
        rw [hds.follows.unique hcs.follows] at hle
        exact ⟨hle, Or.inr ⟨j, hk⟩⟩
      · exact absurd (hres.2 hk) (hnone k)
    · exact fun hroom => Or.inl ⟨k, cs, hres.2 hk, hcs, hroom.1⟩
  · constructor
    · rintro (⟨k, cs, hk, -⟩ | ⟨-, hle, hslot⟩)
      · exact absurd (hres.1 hk) (hnone k)
      · exact ⟨hle, Or.inl hslot⟩
    · rintro ⟨hle, hslot | ⟨k, hk⟩⟩
      · exact Or.inr ⟨fun k hk => hnone k (hres.1 hk), hle, hslot⟩
      · exact absurd hk (hnone k)

theorem DirEntry.not_live_iff {e : DirEntry} :
    ¬ e.Live ↔ e.firstByte = 0x00 ∨ e.firstByte = 0xE5 := by
  unfold DirEntry.Live
  tauto

/-- On every reachable volume a write returns, and it returns `0` exactly if the free clusters and
    those of the old version are enough for the size, rounded up to clusters but at least one, and
    there is a slot to enter the file into: a free one, or that of the old version. -/
theorem fat16_write_succeeds_iff {L : Layout} {d₀ d : Disk} (h₀ : Formatted L d₀)
    (hreach : Reachable L (fun _ call => call.IsU32) d₀ d) (name : List UInt8) (data : ℕ → UInt8)
    {size : ℕ} (hsize : size + L.sectorsPerCluster * 512 < 4294967296) :
    (∃ m, OldLength L d name m) ∧ (∃ ret d', Step L d (.write name data size) ret d') ∧
    ∀ m ret d', OldLength L d name m → Step L d (.write name data size) ret d' →
      (ret = 0 ↔
        max 1 ((size + L.sectorsPerCluster * 512 - 1) / (L.sectorsPerCluster * 512))
            ≤ (freeClusters L d).length + m ∧
        ((∃ k < rootSlots L,
            (rootEntry L d k).firstByte = 0x00 ∨ (rootEntry L d k).firstByte = 0xE5) ∨
          ∃ k, Holds L d name k)) := by
  have hL := h₀.usable
  obtain ⟨own, hinv, -⟩ := h₀.reachable hreach
  refine ⟨hinv.oldLength_exists name, Step.exists hL hinv _, fun m ret d' hm hs => ?_⟩
  have hret := (hs.write_ret hL hinv (clustersNeeded_of_lt hL hsize)).1
  rw [hret, hm.room_iff hinv]
  simp only [DirEntry.not_live_iff]

/-- The last cluster of the image of `build.ps1`, and one more than that. -/
theorem fat16_write_succeeds_iff_hddImage :
    (∃ d', Step hddLayout hddImage (.write [0x61] (fun _ => 0) (2046 * 512)) 0 d') ∧
      ∀ ret d', Step hddLayout hddImage (.write [0x61] (fun _ => 0) (2047 * 512)) ret d' →
        ret ≠ 0 := by
  have h₀ := hddImage_formatted
  have hnone : OldLength hddLayout hddImage [0x61] 0 :=
    Or.inr ⟨fun k hk => h₀.not_live hk.1, rfl⟩
  have hfree : (freeClusters hddLayout hddImage).length = 2046 := by
    rw [h₀.freeClusters_eq, List.length_range']
  obtain ⟨-, ⟨ret, d', hs⟩, hfits⟩ := fat16_write_succeeds_iff h₀ Relation.ReflTransGen.refl
    [0x61] (fun _ => 0) (by decide : 2046 * 512 + hddLayout.sectorsPerCluster * 512 < 4294967296)
  obtain ⟨-, -, hfull⟩ := fat16_write_succeeds_iff h₀ Relation.ReflTransGen.refl
    [0x61] (fun _ => 0) (by decide : 2047 * 512 + hddLayout.sectorsPerCluster * 512 < 4294967296)
  refine ⟨⟨d', ?_⟩, fun ret d' hs hret => ?_⟩
  · have hret := (hfits 0 ret d' hnone hs).2
      ⟨by rw [hfree]; decide, Or.inl ⟨0, by decide, Or.inl (h₀.root_zero 0 (by decide) 0 (by decide))⟩⟩
    exact hret ▸ hs
  · have hle := ((hfull 0 ret d' hnone hs).1 hret).1
    rw [hfree] at hle
    exact absurd hle (by decide)

/-! ## Overwriting -/

/-- All writes under one name go through the same delete. -/
theorem Step.write_after {L : Layout} (hL : L.Usable) {d : Disk} {own : ℕ → List ℕ}
    (h : VolumeInv L d own) (name : List UInt8) :
    ∃ d₁ own₁, AfterDelete L d own name d₁ own₁ ∧ ∀ {data size ret d'},
      Step L d (.write name data size) ret d' →
      ∃ n out, clustersNeeded L size = some n ∧ Wrote L d₁ name data size n ret d' out := by
  obtain ⟨r, d₁, own₁, hafter, -, -, hrun⟩ := fat16DeleteFile_spec hL h name
  refine ⟨d₁, own₁, hafter, fun {data size ret d'} hs => ?_⟩
  cases hs with
  | write hs =>
      obtain ⟨n, ret', d'', out', hn, -, hwrote, hnew⟩ := writeNewFile_wrote hL d₁ name data size
      have heq := (fat16WriteFile_fuelMono L d name data size).unique hs
        (N := 2046) (b := .returned ret' d'' out') fun fuel hfuel => by
          simp only [fat16WriteFile, hrun fuel hfuel, Option.map_some, hnew]
      simp only [WriteOutcome.returned.injEq] at heq
      obtain ⟨rfl, rfl, rfl⟩ := heq
      exact ⟨n, _, hn, hwrote⟩

/-- Two disks with the same FAT and the same directory but for slot `k`, the first free one. -/
structure SameButFree (L : Layout) (d d' : Disk) (k : ℕ) : Prop where
  fat : ∀ f < L.numFats, ∀ c < fatEntries L, fatEntry L d' f c = fatEntry L d f c
  root : ∀ j < rootSlots L, j ≠ k → rootEntry L d' j = rootEntry L d j
  free : FirstFree L d k
  free' : FirstFree L d' k

theorem SameButFree.freeClusters_eq {L : Layout} (hL : L.Usable) {d d' : Disk} {k : ℕ}
    (h : SameButFree L d d' k) : freeClusters L d' = freeClusters L d := by
  unfold freeClusters
  apply List.filter_congr
  intro c hc
  rw [List.mem_range'_1] at hc
  rw [h.fat 0 hL.numFats_pos c (lt_fatEntries hL (by omega))]

/-- Two disks with the same FAT and root directory, on which the file of a name has the same data. -/
structure SameFile (L : Layout) (name : List UInt8) (d d' : Disk) : Prop where
  tables : ∀ lba, L.fatStartLba ≤ lba → lba < L.dataStartLba → d' lba = d lba
  file : ∃ k cs, FileAt L d name k cs ∧ FileAt L d' name k cs ∧
    ∀ c ∈ cs, ∀ s < L.sectorsPerCluster, d' (dataLba L c s) = d (dataLba L c s)

/-- Entering the same file on two disks that differ in the first free slot only. -/
theorem Entered.same {L : Layout} (hL : L.Usable) {d e d' e' : Disk} {k j n c b : ℕ}
    (h : SameButFree L d e k) {name : List UInt8} {data : ℕ → UInt8} {size : ℕ}
    (hd : Entered L name data size d d' ((freeClusters L d).take n) k c)
    (he : Entered L name data size e e' ((freeClusters L e).take n) j b)
    (hdfile : FileAt L d' name k ((freeClusters L d).take n))
    (hefile : FileAt L e' name j ((freeClusters L e).take n)) : SameFile L name d' e' := by
  have hL' := hL.toWellFormed
  rw [h.freeClusters_eq hL] at he hefile
  obtain rfl := he.slot.unique h.free'
  obtain rfl : b = c := Option.some.inj (he.first.symm.trans hd.first)
  refine ⟨fun lba hlo hhi => ?_, j, _, hdfile, hefile, fun x hx s hs => ?_⟩
  · rcases Nat.lt_or_ge lba L.rootDirStartLba with hlt | hge
    · refine fatSector_ext hL' (fun f hf x hx => ?_) hlo hlt
      rw [he.fat f hf x hx, hd.fat f hf x hx]
      exact Chain.link_congr _ (h.fat f hf x hx)
    · refine rootSector_ext hL' (fun i hi => ?_) hge hhi
      rw [he.root i hi, hd.root i hi]
      split
      · rfl
      · next hij => exact h.root i hi hij
  · obtain ⟨i, hi⟩ := List.getElem?_of_mem hx
    rw [he.data i x hi s hs, hd.data i x hi s hs]

/-- Deleting the file just entered gives the disk before back, but for the slot it was in. -/
theorem Entered.deleted {L : Layout} (hL : L.Usable) {d d' d'' : Disk} {own : ℕ → List ℕ}
    (hinv : VolumeInv L d own) {name : List UInt8} {data : ℕ → UInt8} {size n k c : ℕ}
    (h : Entered L name data size d d' ((freeClusters L d).take n) k c)
    (hdel : Deleted L d' d'' k ((freeClusters L d).take n)) : SameButFree L d d'' k := by
  have hL' := hL.toWellFormed
  have hroot : ∀ j < rootSlots L, j ≠ k → rootEntry L d'' j = rootEntry L d j := by
    intro j hj hjk
    rw [hdel.rootEntry_eq hL' hj, if_neg hjk, h.root j hj, if_neg hjk]
  refine ⟨fun f hf x hx => ?_, hroot, h.slot, h.slot.slot, fun hlive => ?_, fun j hj => ?_⟩
  · rw [hdel.fatEntry_eq hL' h.slot.slot hf hx]
    split
    · next hmem =>
        -- it was free, in every copy
        have hfree := mem_freeClusters.1 (List.mem_of_mem_take hmem)
        rw [hinv.agree f hf x hx hfree.1.1, hfree.2]
    · next hmem => rw [h.fat f hf x hx, Chain.link_of_not_mem _ hmem]
  · exact ((hdel.liveSlot_iff hL').1 ⟨h.slot.slot, hlive⟩).2 rfl
  · rw [hroot j (lt_trans hj h.slot.slot) (by omega)]
    exact h.slot.before j hj

/-- After a successful write, a second one under the same name ends as it would have without the
    first. -/
theorem Step.write_again {L : Layout} (hL : L.Usable) {d d₁ d₂ d₁₂ : Disk} {own : ℕ → List ℕ}
    (h : VolumeInv L d own) {name : List UInt8} (hE5 : (toFatName name).byte 0 ≠ 0xE5)
    {data₁ data₂ : ℕ → UInt8} {size₁ size₂ : ℕ} {ret₂ ret₁₂ : ℤ}
    (h₁ : Step L d (.write name data₁ size₁) 0 d₁)
    (h₂ : Step L d (.write name data₂ size₂) ret₂ d₂)
    (h₁₂ : Step L d₁ (.write name data₂ size₂) ret₁₂ d₁₂) :
    (ret₂ = 0 ↔ ret₁₂ = 0) ∧ (ret₂ = 0 → SameFile L name d₂ d₁₂) := by
  obtain ⟨a, ownA, hafterA, hwriteA⟩ := Step.write_after hL h name
  obtain ⟨own₁, hinv₁, -⟩ := h.step hL h₁
  obtain ⟨b, ownB, hafterB, hwriteB⟩ := Step.write_after hL hinv₁ name
  obtain ⟨n₁, out₁, hn₁, hw₁⟩ := hwriteA h₁
  obtain ⟨n₂, out₂, hn₂, hw₂⟩ := hwriteA h₂
  obtain ⟨n₁₂, out₁₂, hn₁₂, hw₁₂⟩ := hwriteB h₁₂
  obtain rfl : n₁₂ = n₂ := Option.some.inj (hn₁₂.symm.trans hn₂)
  -- the delete of the second write undoes the first one
  obtain ⟨k, c, hent₁, hfile₁⟩ := hw₁.fileAt hL hafterA.inv rfl hafterA.gone hE5
  have hsame : SameButFree L a b k := by
    have hres := hent₁.resolvesTo hafterA.inv hafterA.gone hE5
    rcases hafterB.effect with ⟨-, -, hnone⟩ | ⟨j, hj, hdel, -⟩
    · exact absurd hres (hnone k)
    · obtain rfl := hj.unique hres
      rw [(hinv₁.chain j hfile₁.holds.1).follows.unique hfile₁.chain.follows] at hdel
      exact hent₁.deleted hL hafterA.inv hdel
  have hiff : ret₂ = 0 ↔ ret₁₂ = 0 := by
    rw [hw₂.ret_eq_zero_iff, hw₁₂.ret_eq_zero_iff, hsame.freeClusters_eq hL]
    exact and_congr_right fun _ => iff_of_true ⟨k, hsame.free.slot, hsame.free.free⟩
      ⟨k, hsame.free'.slot, hsame.free'.free⟩
  refine ⟨hiff, fun hret => ?_⟩
  obtain ⟨k₂, c₂, hent₂, hfile₂⟩ := hw₂.fileAt hL hafterA.inv hret hafterA.gone hE5
  obtain ⟨k₁₂, c₁₂, hent₁₂, hfile₁₂⟩ :=
    hw₁₂.fileAt hL hafterB.inv (hiff.1 hret) hafterB.gone hE5
  obtain rfl := hent₂.slot.unique hsame.free
  exact hent₂.same hL hsame hent₁₂ hfile₂ hfile₁₂

/-- The data sectors that a successful write changes are those of the file it leaves. -/
theorem Step.write_data_other {L : Layout} (hL : L.Usable) {d d' : Disk} {own : ℕ → List ℕ}
    (h : VolumeInv L d own) {name : List UInt8} (hE5 : (toFatName name).byte 0 ≠ 0xE5)
    {data : ℕ → UInt8} {size : ℕ} (hs : Step L d (.write name data size) 0 d') :
    ∃ k cs, FileAt L d' name k cs ∧ ∀ lba, L.dataStartLba ≤ lba →
      (∀ c ∈ cs, ∀ s < L.sectorsPerCluster, lba ≠ dataLba L c s) → d' lba = d lba := by
  have hL' := hL.toWellFormed
  have hdata := hL'.dataStart_eq
  obtain ⟨a, ownA, hafter, hwrite⟩ := Step.write_after hL h name
  obtain ⟨n, out, -, hw⟩ := hwrite hs
  obtain ⟨k, c, hent, hfile⟩ := hw.fileAt hL hafter.inv rfl hafter.gone hE5
  refine ⟨k, _, hfile, fun lba hlba hnot => ?_⟩
  have hreg := rootLba_mem_region hL' hent.slot.slot
  rw [hent.other lba (Or.inr (by omega)) (by omega) hnot]
  rcases hafter.effect with ⟨rfl, -, -⟩ | ⟨j, hj, hdel, -⟩
  · rfl
  · exact (hdel.exactly hL' hj.slot).data lba hlba

/-- Of two successful writes under one name the last one wins: the FAT, the root directory and the
    data of the file are what the second alone would have left. A successful write that is repeated
    changes nothing. -/
theorem fat16_last_write_wins {L : Layout} {d₀ d d₁ : Disk} (h₀ : Formatted L d₀)
    (hreach : Reachable L (fun _ call => call.IsU32) d₀ d) {name : List UInt8}
    (hE5 : (toFatName name).byte 0 ≠ 0xE5) {data₁ : ℕ → UInt8} {size₁ : ℕ}
    (h₁ : Step L d (.write name data₁ size₁) 0 d₁) :
    (∀ data₂ size₂ d₁₂, Step L d₁ (.write name data₂ size₂) 0 d₁₂ →
      (∃ ret₂ d₂, Step L d (.write name data₂ size₂) ret₂ d₂) ∧
      ∀ ret₂ d₂, Step L d (.write name data₂ size₂) ret₂ d₂ →
        ret₂ = 0 ∧ SameFile L name d₂ d₁₂) ∧
    (∃ ret d', Step L d₁ (.write name data₁ size₁) ret d') ∧
    ∀ ret d', Step L d₁ (.write name data₁ size₁) ret d' → ret = 0 ∧ d' = d₁ := by
  have hL := h₀.usable
  obtain ⟨own, hinv, -⟩ := h₀.reachable hreach
  obtain ⟨own₁, hinv₁, -⟩ := hinv.step hL h₁
  refine ⟨fun data₂ size₂ d₁₂ h₁₂ => ⟨Step.exists hL hinv _, fun ret₂ d₂ h₂ => ?_⟩,
    Step.exists hL hinv₁ _, fun ret d' hs => ?_⟩
  · obtain ⟨hiff, hsame⟩ := h₁.write_again hL hinv hE5 h₂ h₁₂
    exact ⟨hiff.2 rfl, hsame (hiff.2 rfl)⟩
  · obtain ⟨hiff, hsame⟩ := h₁.write_again hL hinv hE5 h₁ hs
    obtain rfl := hiff.1 rfl
    obtain ⟨htables, k, cs, -, hfile, hdata⟩ := hsame rfl
    obtain ⟨j, cs', hfile', hother⟩ := hs.write_data_other hL hinv₁ hE5
    obtain ⟨own', hinv', -⟩ := hinv₁.step hL hs
    obtain rfl : j = k := hinv'.names j k hfile'.holds.1 hfile.holds.1
      (hfile'.holds.2.trans hfile.holds.2.symm)
    obtain rfl := hfile'.chain.follows.unique hfile.chain.follows
    refine ⟨rfl, funext fun lba => ?_⟩
    rcases Nat.lt_or_ge lba L.fatStartLba with hlt | hge
    · exact (Untouched.step hL hinv₁ hs).below lba hlt
    rcases Nat.lt_or_ge lba L.dataStartLba with hlt | hge'
    · exact htables lba hge hlt
    by_cases hmem : ∃ c ∈ cs', ∃ s < L.sectorsPerCluster, lba = dataLba L c s
    · obtain ⟨c, hc, s, hs, rfl⟩ := hmem
      exact hdata c hc s hs
    · exact hother lba hge' fun c hc s hs heq => hmem ⟨c, hc, s, hs, heq⟩

/-- `"a"` with 700 bytes, then with one byte, on the image of `build.ps1`. -/
theorem fat16_last_write_wins_hddImage :
    ∃ d₁ d₂ d₁₂, Step hddLayout hddImage (.write [0x61] (fun _ => 1) 700) 0 d₁ ∧
      Step hddLayout d₁ (.write [0x61] (fun _ => 2) 1) 0 d₁₂ ∧
      Step hddLayout hddImage (.write [0x61] (fun _ => 2) 1) 0 d₂ ∧
      SameFile hddLayout [0x61] d₂ d₁₂ ∧
      ∀ ret d', Step hddLayout d₁ (.write [0x61] (fun _ => 1) 700) ret d' → ret = 0 ∧ d' = d₁ := by
  have h₀ := hddImage_formatted
  have hL := h₀.usable
  obtain ⟨d₁, h₁⟩ := hddImage_write [0x61] (fun _ => 1) (by decide : 700 ≤ 2046 * 512)
  obtain ⟨d₂, h₂⟩ := hddImage_write [0x61] (fun _ => 2) (by decide : 1 ≤ 2046 * 512)
  obtain ⟨own₁, hinv₁, -⟩ := h₀.volumeInv.step hL h₁
  obtain ⟨ret, d₁₂, hs⟩ := Step.exists hL hinv₁ (.write [0x61] (fun _ => 2) 1)
  have hret := (h₁.write_again hL h₀.volumeInv (by decide) h₂ hs).1.1 rfl
  obtain ⟨hwins, -, hrepeat⟩ :=
    fat16_last_write_wins h₀ Relation.ReflTransGen.refl (by decide) h₁
  have h₁₂ : Step hddLayout d₁ (.write [0x61] (fun _ => 2) 1) 0 d₁₂ := hret ▸ hs
  exact ⟨d₁, d₂, d₁₂, h₁, h₁₂, h₂, ((hwins _ _ _ h₁₂).2 0 d₂ h₂).2, hrepeat⟩

end BlackHole
