import BlackHole.Fat16.History

set_option autoImplicit false

/-! # What is read back

The three facts a user of the files wants of every reachable volume: a successful write is read back
(`fat16_write_then_read`), a call leaves the files of other names alone (`fat16_others_kept`), and
what a failed write leaves behind (`fat16_failed_write`). -/

namespace BlackHole

open Bytes

/-! ## The file just written -/

/-- A freshly formatted volume has room for 2046 clusters. -/
theorem Formatted.room {L : Layout} {d : Disk} (h : Formatted L d) (hroot : 0 < rootSlots L)
    (name : List UInt8) {n : ℕ} (hn : n ≤ 2046) : Room L d name n := by
  refine Or.inr ⟨fun k hk => h.not_live ⟨hk.slot, hk.live⟩, ?_, 0, hroot, fun hlive => ?_⟩
  · rwa [h.freeClusters_eq, List.length_range']
  · exact h.not_live ⟨hroot, hlive⟩

/-- A write of at most 2046 clusters on the fresh image of `build.ps1` succeeds. -/
theorem hddImage_write (name : List UInt8) (data : ℕ → UInt8) {size : ℕ}
    (hsize : size ≤ 2046 * 512) : ∃ d, Step hddLayout hddImage (.write name data size) 0 d := by
  have h₀ := hddImage_formatted
  have hn := clustersNeeded_of_lt h₀.usable
    (show size + hddLayout.sectorsPerCluster * 512 < _ by simp only [hddLayout]; omega)
  obtain ⟨d, hs, -⟩ := h₀.spare.write h₀.usable h₀.volumeInv (by decide) name data hn (by
    simp only [hddLayout]
    omega)
  exact ⟨d, hs⟩

/-- Slot `k` holds a live entry of the name. -/
def Holds (L : Layout) (d : Disk) (name : List UInt8) (k : ℕ) : Prop :=
  LiveSlot L d k ∧ (rootEntry L d k).name = toFatName name

/-- The live entry of the name is in slot `k`, and its chain is `cs`. -/
structure FileAt (L : Layout) (d : Disk) (name : List UInt8) (k : ℕ) (cs : List ℕ) : Prop where
  holds : Holds L d name k
  chain : FatChain L d (rootEntry L d k).firstClusterLo cs

/-- The effect of a successful write: `cs` is threaded in every copy of the FAT and holds the data,
    slot `k` has the new entry, and nothing else has changed. -/
structure Entered (L : Layout) (name : List UInt8) (data : ℕ → UInt8) (size : ℕ) (d d' : Disk)
    (cs : List ℕ) (k c : ℕ) : Prop where
  slot : FirstFree L d k
  first : cs.head? = some c
  fat : ∀ f < L.numFats, ∀ x < fatEntries L,
    fatEntry L d' f x = Chain.link (fatEntry L d f) 0xFFFF cs x
  root : ∀ j < rootSlots L,
    rootEntry L d' j = if j = k then newEntry name c size else rootEntry L d j
  data : HasData L d' data size cs
  other : ∀ lba, OutsideFat L lba → lba ≠ rootLba L k →
    (∀ c ∈ cs, ∀ s < L.sectorsPerCluster, lba ≠ dataLba L c s) → d' lba = d lba

theorem Wrote.effect {L : Layout} (hL : L.WellFormed) {d d' : Disk} {name : List UInt8}
    {data : ℕ → UInt8} {size n : ℕ} {ret : ℤ} {out : String}
    (hw : Wrote L d name data size n ret d' out) (hret : ret = 0) :
    ∃ k c, Entered L name data size d d' ((freeClusters L d).take n) k c := by
  cases hw with
  | diskFull hlt hw => exact absurd hret (by decide)
  | rootFull hge hw hfull => exact absurd hret (by decide)
  | @entered d₂ k c hge hw hk hc =>
      have hreg := rootLba_mem_region hL hk.slot
      refine ⟨k, c, hk, hc, fun f hf x hx => ?_, fun j hj => ?_, fun i x hx s hs => ?_,
        fun lba hlba hne hnot => ?_⟩
      · rw [fatEntry_setRootEntry hL _ hf hx hk.slot, hw.entry f hf x hx]
      · rw [rootEntry_setRootEntry, hw.rootEntry_eq hL hj]
      · have hge := dataLba_ge L x s
        rw [setRootEntry_of_ne (by omega)]
        exact hw.data i x hx s hs
      · rw [setRootEntry_of_ne hne]
        exact hw.other lba hlba hnot

/-- The file just entered is the one its name resolves to. -/
theorem Entered.resolvesTo {L : Layout} {d d' : Disk} {own : ℕ → List ℕ}
    (hinv : VolumeInv L d own) {name : List UInt8} {data : ℕ → UInt8} {size k c : ℕ}
    {cs : List ℕ} (h : Entered L name data size d d' cs k c)
    (hgone : ∀ j, ¬ ResolvesTo L d name j) (hE5 : (toFatName name).byte 0 ≠ 0xE5) :
    ResolvesTo L d' name k := by
  have hentry := h.root k h.slot.slot
  rw [if_pos rfl] at hentry
  refine ⟨h.slot.slot, ?_, ?_, fun j hj => ?_⟩
  · rw [hentry, newEntry_live_iff]
    exact hE5
  · rw [hentry, newEntry_name]
  · have hjk := h.root j (lt_trans hj h.slot.slot)
    rw [if_neg (by omega)] at hjk
    have hlive := h.slot.before j hj
    rw [hjk]
    refine ⟨hlive.1, fun _ hname => hgone j (hinv.resolvesTo_iff.2 ⟨?_, hname⟩)⟩
    exact ⟨lt_trans hj h.slot.slot, hlive⟩

theorem Entered.fatChain {L : Layout} (hL : L.Usable) {d d' : Disk} {name : List UInt8}
    {data : ℕ → UInt8} {size n k c : ℕ}
    (h : Entered L name data size d d' ((freeClusters L d).take n) k c) :
    FatChain L d' (rootEntry L d' k).firstClusterLo ((freeClusters L d).take n) := by
  have hc := freeClusters_take_range c (List.mem_of_head? h.first)
  rw [h.root k h.slot.slot, if_pos rfl, newEntry_firstClusterLo name size (by omega)]
  exact FatChain.of_link h.first (freeClusters_take_nodup L d n) freeClusters_take_range fun x hx =>
    h.fat 0 hL.numFats_pos x (lt_fatEntries hL (freeClusters_take_range x hx).2)

/-- What a successful write leaves: the file, and the disk as it was elsewhere. -/
theorem Wrote.fileAt {L : Layout} (hL : L.Usable) {d d' : Disk} {own : ℕ → List ℕ}
    (hinv : VolumeInv L d own) {name : List UInt8} {data : ℕ → UInt8} {size n : ℕ} {ret : ℤ}
    {out : String} (hw : Wrote L d name data size n ret d' out) (hret : ret = 0)
    (hgone : ∀ j, ¬ ResolvesTo L d name j) (hE5 : (toFatName name).byte 0 ≠ 0xE5) :
    ∃ k c, Entered L name data size d d' ((freeClusters L d).take n) k c ∧
      FileAt L d' name k ((freeClusters L d).take n) := by
  obtain ⟨k, c, hent⟩ := hw.effect hL.toWellFormed hret
  have hres := hent.resolvesTo hinv hgone hE5
  exact ⟨k, c, hent, ⟨⟨hres.slot, hres.live⟩, hres.name_eq⟩, hent.fatChain hL⟩

/-- The chain of a file is just long enough for its data. -/
theorem clusters_fit {L : Layout} (hL : L.Usable) {size n : ℕ} (hsize : size < 2147483648)
    (hn : clustersNeeded L size = some n) :
    size ≤ n * (L.sectorsPerCluster * 512) ∧ n * (L.sectorsPerCluster * 512) < 4294967296 := by
  have hpos := hL.sectorsPerCluster_pos
  have hspc := hL.sectorsPerCluster_lt
  rw [clustersNeeded_of_lt hL (by omega), Option.some.injEq] at hn
  have hcb : 0 < L.sectorsPerCluster * 512 := by omega
  have hle := Nat.div_mul_le_self (size + L.sectorsPerCluster * 512 - 1) (L.sectorsPerCluster * 512)
  have hlt := Nat.lt_div_mul_add (a := size + L.sectorsPerCluster * 512 - 1) hcb
  generalize (size + L.sectorsPerCluster * 512 - 1) / (L.sectorsPerCluster * 512) = q at hn hle hlt
  rcases Nat.lt_or_ge q 1 with hq | hq
  · obtain rfl : q = 0 := by omega
    rw [← hn, Nat.max_eq_left (by omega), Nat.one_mul]
    omega
  · rw [← hn, Nat.max_eq_right hq]
    omega

/-- A successful write leaves the file under every name of the same image, with a chain that holds
    the data. -/
theorem Step.read_back {L : Layout} (hL : L.Usable) {d d' : Disk} {own : ℕ → List ℕ}
    (h : VolumeInv L d own) {name name2 : List UInt8} (hE5 : (toFatName name).byte 0 ≠ 0xE5)
    (hname : toFatName name2 = toFatName name) {data : ℕ → UInt8} {size : ℕ} (bufSize : ℕ)
    (hsize : size < 2147483648) (hw : Step L d (.write name data size) 0 d') (buffer : ℕ → UInt8) :
    ∀ fuel, 2046 < fuel → fat16ReadFile fuel L d' name2 buffer bufSize
      = some (((min size bufSize : ℕ) : ℤ), memcpy buffer 0 data (min size bufSize)) := by
  obtain ⟨d₁, own₁, n, out, hafter, hn, -, hwrote⟩ := hw.write_inv hL h
  obtain ⟨k, c, hent, hfile⟩ := hwrote.fileAt hL hafter.inv rfl hafter.gone hE5
  have hresolves : ResolvesTo L d' name2 k :=
    (hent.resolvesTo hafter.inv hafter.gone hE5).of_toFatName_eq hname
  have hge := (hwrote.ret_eq_zero_iff.1 rfl).1
  have hsize' : (rootEntry L d' k).fileSize = size := by
    rw [hent.root k hent.slot.slot, if_pos rfl, newEntry_fileSize name c (by omega)]
  obtain ⟨hfit, hlt⟩ := clusters_fit hL hsize hn
  exact fat16ReadFile_delivers hL hresolves bufSize hfile.chain hent.data hsize' hsize
    (by rwa [List.length_take_of_le hge]) (by rwa [List.length_take_of_le hge]) buffer

/-- What was written under a name is read back under every name of the same image: the prefix that
    fits into the buffer. -/
theorem fat16_write_then_read {L : Layout} {d₀ d d' : Disk} (h₀ : Formatted L d₀)
    (hreach : Reachable L (fun _ call => call.IsU32) d₀ d) {name name2 : List UInt8}
    (hE5 : (toFatName name).byte 0 ≠ 0xE5) (hname : toFatName name2 = toFatName name)
    {data : ℕ → UInt8} {size bufSize : ℕ} (hsize : size < 2147483648)
    (_ : bufSize < 2147483648) (hw : Step L d (.write name data size) 0 d')
    (buffer : ℕ → UInt8) :
    ∃ buffer', (∀ fuel, 2046 < fuel →
        fat16ReadFile fuel L d' name2 buffer bufSize = some (((min size bufSize : ℕ) : ℤ), buffer')) ∧
      (∀ i < min size bufSize, buffer' i = data i) ∧
      ∀ i, min size bufSize ≤ i → buffer' i = buffer i := by
  obtain ⟨own, hinv, -⟩ := h₀.reachable hreach
  refine ⟨_, hw.read_back h₀.usable hinv hE5 hname bufSize hsize buffer, fun i hi => ?_,
    fun i hi => ?_⟩
  · rw [memcpy, if_pos (by omega), Nat.sub_zero]
  · rw [memcpy, if_neg (by omega)]

/-- `"a"` is written and read back as `"A"`, into a buffer too short for it. -/
theorem fat16_write_then_read_hddImage :
    ∃ d buffer', Step hddLayout hddImage (.write [0x61] (fun i => UInt8.ofNat i) 700) 0 d ∧
      (∀ fuel, 2046 < fuel →
        fat16ReadFile fuel hddLayout d [0x41] (fun _ => 0) 600 = some (600, buffer')) ∧
      (∀ i < 600, buffer' i = UInt8.ofNat i) ∧ ∀ i, 600 ≤ i → buffer' i = 0 := by
  obtain ⟨d, hs⟩ := hddImage_write [0x61] (fun i => UInt8.ofNat i) (by decide : 700 ≤ 2046 * 512)
  obtain ⟨buffer', h⟩ := fat16_write_then_read hddImage_formatted
    Relation.ReflTransGen.refl (by decide) (by decide : toFatName [0x41] = toFatName [0x61])
    (by decide) (by decide : 600 < 2147483648) hs fun _ => 0
  exact ⟨d, buffer', hs, h⟩

/-! ## The other files -/

section

variable {L : Layout} {d d' : Disk} {own own' : ℕ → List ℕ} {name m : List UInt8}

/-- A delete, on its own or as the first half of a write, keeps the files of other names where they
    are. -/
theorem AfterDelete.others (hL : L.Usable) (h : VolumeInv L d own)
    (ha : AfterDelete L d own name d' own') (hm : toFatName m ≠ toFatName name) (k : ℕ) :
    (ResolvesTo L d' m k ↔ ResolvesTo L d m k) ∧
      (ResolvesTo L d m k → own' k = own k ∧ Kept L d d' k (own k)) := by
  have hfwd : ResolvesTo L d m k → LiveSlot L d' k ∧ own' k = own k ∧ Kept L d d' k (own k) :=
    fun hk => ha.kept hL h ⟨hk.slot, hk.live⟩ (hk.name_eq ▸ hm)
  refine ⟨⟨fun hk => ?_, fun hk => ?_⟩, fun hk => (hfwd hk).2⟩
  · obtain ⟨hold, -, hkept⟩ := ha.live hL h ⟨hk.slot, hk.live⟩
    exact h.resolvesTo_iff.2 ⟨hold, hkept.entry ▸ hk.name_eq⟩
  · obtain ⟨hlive, -, hkept⟩ := hfwd hk
    exact ha.inv.resolvesTo_iff.2 ⟨hlive, hkept.entry.symm ▸ hk.name_eq⟩

/-- The second half of a write does so as well. -/
theorem Wrote.others (hL : L.Usable) (h : VolumeInv L d own)
    (hgone : ∀ k, ¬ ResolvesTo L d name k) {data : ℕ → UInt8} {size n : ℕ} {ret : ℤ} {out : String}
    (hw : Wrote L d name data size n ret d' out) (hm : toFatName m ≠ toFatName name) (k : ℕ) :
    (ResolvesTo L d' m k ↔ ResolvesTo L d m k) ∧
      (ResolvesTo L d m k → Kept L d d' k (own k)) := by
  obtain ⟨own', hinv', howner⟩ := h.wrote hL hgone hw
  have hkept : LiveSlot L d k → Kept L d d' k (own k) := hw.kept hL h
  refine ⟨⟨fun hk => ?_, fun hk => ?_⟩, fun hk => hkept ⟨hk.slot, hk.live⟩⟩
  · -- the slot is not the one the write has entered its file into
    have hown : own' k = own k := by
      rcases howner with ⟨rfl, -⟩ | ⟨j, c, d₂, hj, -, -, -, -, rfl, -, rfl⟩
      · rfl
      · refine Function.update_of_ne ?_ _ _
        rintro rfl
        have hname := hk.name_eq
        rw [rootEntry_setRootEntry, if_pos rfl, newEntry_name] at hname
        exact hm hname.symm
    have hlive : LiveSlot L d k := by
      rw [h.live_iff, ← hown]
      exact hinv'.nonempty k ⟨hk.slot, hk.live⟩
    exact h.resolvesTo_iff.2 ⟨hlive, (hkept hlive).entry ▸ hk.name_eq⟩
  · have hentry := (hkept ⟨hk.slot, hk.live⟩).entry
    exact hinv'.resolvesTo_iff.2 ⟨⟨hk.slot, hentry.symm ▸ hk.live⟩, hentry.symm ▸ hk.name_eq⟩

/-- A write or a delete leaves every file of another name as it was: it is read alike, at every
    amount of fuel, buffer and buffer size. -/
theorem Step.others_congr (hL : L.Usable) (h : VolumeInv L d own) {call : Call} {ret : ℤ}
    (hs : Step L d call ret d')
    (hcall : call = .delete name ∨ ∃ data size, call = .write name data size)
    (hm : toFatName m ≠ toFatName name) (fuel : ℕ) (buffer : ℕ → UInt8) (bufSize : ℕ) :
    fat16ReadFile fuel L d' m buffer bufSize = fat16ReadFile fuel L d m buffer bufSize := by
  rcases hcall with rfl | ⟨data, size, rfl⟩
  · obtain ⟨own₁, ha⟩ := hs.delete_inv hL h
    have hdelete := ha.others hL h hm
    exact fat16ReadFile_congr hL h (fun k => (hdelete k).1) (fun k hk => ((hdelete k).2 hk).2)
      fuel buffer bufSize
  · obtain ⟨d₁, own₁, n, out, ha, -, -, hwrote⟩ := hs.write_inv hL h
    have hdelete := ha.others hL h hm
    have hwrite := hwrote.others hL ha.inv ha.gone hm
    refine fat16ReadFile_congr hL h (fun k => (hwrite k).1.trans (hdelete k).1) (fun k hk => ?_)
      fuel buffer bufSize
    obtain ⟨hown, hkept⟩ := (hdelete k).2 hk
    exact hkept.trans (hown ▸ (hwrite k).2 ((hdelete k).1.2 hk))

end

/-- A write or a delete returns, the files of other names are read alike before and after it,
    whatever it returns, and no sector below the FAT is changed. -/
theorem fat16_others_kept {L : Layout} {d₀ d : Disk} (h₀ : Formatted L d₀)
    (hreach : Reachable L (fun _ call => call.IsU32) d₀ d) {name m : List UInt8}
    (hm : toFatName m ≠ toFatName name) {call : Call}
    (hcall : call = .delete name ∨ ∃ data size, call = .write name data size) :
    (∃ ret d', Step L d call ret d') ∧
    ∀ ret d', Step L d call ret d' →
      (∀ buffer bufSize, ∃ r, ∀ fuel, 2046 < fuel →
        fat16ReadFile fuel L d m buffer bufSize = some r ∧
        fat16ReadFile fuel L d' m buffer bufSize = some r) ∧
      ∀ lba < L.fatStartLba, d' lba = d lba := by
  have hL := h₀.usable
  obtain ⟨own, hinv, -⟩ := h₀.reachable hreach
  refine ⟨Step.exists hL hinv call, fun ret d' hs => ⟨fun buffer bufSize => ?_, ?_⟩⟩
  · obtain ⟨r, hr⟩ := fat16ReadFile_returns hL hinv m buffer bufSize
    refine ⟨r, fun fuel hfuel => ⟨hr fuel hfuel, ?_⟩⟩
    rw [hs.others_congr hL hinv hcall hm fuel buffer bufSize]
    exact hr fuel hfuel
  · exact (Untouched.step hL hinv hs).below

/-- The 700 bytes of `"b"` are read alike after `"a"` is written beside it and after it is deleted. -/
theorem fat16_others_kept_hddImage :
    ∃ d₁ d₂ d₃, Step hddLayout hddImage (.write [0x62] (fun i => UInt8.ofNat i) 700) 0 d₁ ∧
      Step hddLayout d₁ (.write [0x61] (fun _ => 0) 1500) 0 d₂ ∧
      Step hddLayout d₂ (.delete [0x61]) 0 d₃ ∧
      (∀ fuel, 2046 < fuel → ∀ d ∈ [d₁, d₂, d₃],
        fat16ReadFile fuel hddLayout d [0x62] (fun _ => 0) 700
          = some (700, memcpy (fun _ => 0) 0 (fun i => UInt8.ofNat i) 700)) ∧
      ∀ lba < 1, d₃ lba = d₁ lba := by
  have h₀ := hddImage_formatted
  have hL := h₀.usable
  obtain ⟨d₁, h₁, hspare₁⟩ := h₀.spare.write hL h₀.volumeInv (by decide) [0x62]
    (fun i => UInt8.ofNat i) (show clustersNeeded hddLayout 700 = some 2 by decide) (by decide)
  obtain ⟨own₁, hinv₁, -⟩ := h₀.volumeInv.step hL h₁
  obtain ⟨d₂, h₂, -⟩ := hspare₁.write hL hinv₁ (by decide) [0x61] (fun _ => 0)
    (show clustersNeeded hddLayout 1500 = some 3 by decide) (by decide)
  obtain ⟨own₂, hinv₂, -⟩ := hinv₁.step hL h₂
  obtain ⟨d₃, h₃⟩ := (h₂.stored hL hinv₁ (by decide) (by decide)).delete hL hinv₂
  have hreach₁ : Reachable hddLayout (fun _ call => call.IsU32) hddImage d₁ :=
    .single ⟨.write [0x62] _ 700, _, show 700 < 4294967296 by decide, h₁⟩
  have hreach₂ := hreach₁.tail ⟨.write [0x61] _ 1500, _, show 1500 < 4294967296 by decide, h₂⟩
  have hother : toFatName [0x62] ≠ toFatName [0x61] := by decide
  obtain ⟨hread₂, hbelow₂⟩ :=
    (fat16_others_kept h₀ hreach₁ hother (Or.inr ⟨_, _, rfl⟩)).2 _ _ h₂
  obtain ⟨hread₃, hbelow₃⟩ := (fat16_others_kept h₀ hreach₂ hother (Or.inl rfl)).2 _ _ h₃
  obtain ⟨r₂, hr₂⟩ := hread₂ (fun _ => 0) 700
  obtain ⟨r₃, hr₃⟩ := hread₃ (fun _ => 0) 700
  refine ⟨d₁, d₂, d₃, h₁, h₂, h₃, fun fuel hfuel => ?_, fun lba hlba =>
    (hbelow₃ lba hlba).trans (hbelow₂ lba hlba)⟩
  have hread := h₁.read_back hL h₀.volumeInv (by decide) rfl 700 (by decide) (fun _ => 0) fuel hfuel
  have hsame₂ := (hr₂ fuel hfuel).2.trans ((hr₂ fuel hfuel).1.symm.trans hread)
  have hsame₃ := (hr₃ fuel hfuel).2.trans ((hr₃ fuel hfuel).1.symm.trans hsame₂)
  exact List.forall_mem_cons.2 ⟨hread, List.forall_mem_cons.2
    ⟨hsame₂, List.forall_mem_singleton.2 hsame₃⟩⟩

/-! ## Failed writes -/

/-- After a failed write no entry has the name that was to be written: the old version was deleted
    first. -/
theorem Step.failed_gone {L : Layout} (hL : L.Usable) {d d' : Disk} {own : ℕ → List ℕ}
    (h : VolumeInv L d own) {name m : List UInt8} {data : ℕ → UInt8} {size : ℕ}
    (hs : Step L d (.write name data size) (-1) d') (hm : toFatName m = toFatName name) (k : ℕ) :
    ¬ ResolvesTo L d' m k := by
  intro hk
  obtain ⟨d₁, own₁, n, out, ha, -, -, hwrote⟩ := hs.write_inv hL h
  obtain ⟨own', hinv', howner⟩ := ha.inv.wrote hL ha.gone hwrote
  obtain ⟨rfl, -⟩ : own' = own₁ ∧ _ := by
    rcases howner with hsame | ⟨j, c, d₂, -, hret, -⟩
    · exact hsame
    · exact absurd hret (by decide)
  have hlive : LiveSlot L d₁ k := by
    rw [ha.inv.live_iff]
    exact hinv'.nonempty k ⟨hk.slot, hk.live⟩
  refine ha.gone k (ha.inv.resolvesTo_iff.2 ⟨hlive, ?_⟩)
  rw [← (hwrote.kept hL ha.inv hlive).entry, hk.name_eq, hm]

/-- After a failed write the files of other names are read as before, and there is no file of the
    name that was to be written. -/
theorem fat16_failed_write {L : Layout} {d₀ d d' : Disk} (h₀ : Formatted L d₀)
    (hreach : Reachable L (fun _ call => call.IsU32) d₀ d) {name : List UInt8} {data : ℕ → UInt8}
    {size : ℕ} (hs : Step L d (.write name data size) (-1) d') (m : List UInt8)
    (buffer : ℕ → UInt8) (bufSize : ℕ) :
    (toFatName m ≠ toFatName name → ∃ r, ∀ fuel, 2046 < fuel →
      fat16ReadFile fuel L d m buffer bufSize = some r ∧
      fat16ReadFile fuel L d' m buffer bufSize = some r) ∧
    (toFatName m = toFatName name → ∀ fuel,
      fat16ReadFile fuel L d' m buffer bufSize = some (-1, buffer)) := by
  have hL := h₀.usable
  obtain ⟨own, hinv, -⟩ := h₀.reachable hreach
  refine ⟨fun hm => ?_, fun hm fuel => ?_⟩
  · obtain ⟨r, hr⟩ := fat16ReadFile_returns hL hinv m buffer bufSize
    refine ⟨r, fun fuel hfuel => ⟨hr fuel hfuel, ?_⟩⟩
    rw [hs.others_congr hL hinv (Or.inr ⟨data, size, rfl⟩) hm fuel buffer bufSize]
    exact hr fuel hfuel
  · exact fat16ReadFile_notFound hL.toWellFormed (hs.failed_gone hL hinv hm) fuel buffer bufSize

/-- More data than the clusters `2..2047` hold are never written on the image of `build.ps1`. -/
theorem hddImage_write_fails {d : Disk} {own : ℕ → List ℕ} (h : VolumeInv hddLayout d own)
    (name : List UInt8) (data : ℕ → UInt8) :
    ∃ d', Step hddLayout d (.write name data (2047 * 512)) (-1) d' := by
  have hL := hddImage_formatted.usable
  obtain ⟨ret, d', hs⟩ := Step.exists hL h (.write name data (2047 * 512))
  have hn : clustersNeeded hddLayout (2047 * 512) = some 2047 := by decide
  obtain ⟨hret, hor⟩ := hs.write_ret hL h hn
  rcases hor with h0 | h1
  · exact absurd ((hret.1 h0).le hL h) (by decide)
  · exact ⟨d', h1 ▸ hs⟩

/-- A write of 2047 clusters to the fresh image of `build.ps1`, and the files `"b"` and `"A"`. -/
theorem fat16_failed_write_hddImage :
    ∃ d', Step hddLayout hddImage (.write [0x61] (fun _ => 0) (2047 * 512)) (-1) d' ∧
      (∃ r, ∀ fuel, 2046 < fuel →
        fat16ReadFile fuel hddLayout hddImage [0x62] (fun _ => 0) 1 = some r ∧
        fat16ReadFile fuel hddLayout d' [0x62] (fun _ => 0) 1 = some r) ∧
      ∀ fuel, fat16ReadFile fuel hddLayout d' [0x41] (fun _ => 0) 1 = some (-1, fun _ => 0) := by
  obtain ⟨d', hs⟩ := hddImage_write_fails hddImage_formatted.volumeInv [0x61] fun _ => 0
  exact ⟨d', hs,
    (fat16_failed_write hddImage_formatted Relation.ReflTransGen.refl hs [0x62] _ 1).1 (by decide),
    (fat16_failed_write hddImage_formatted Relation.ReflTransGen.refl hs [0x41] _ 1).2 (by decide)⟩

/-- The old version of a file is lost when a write to it fails: `"a"` holds one byte, the attempt to
    write 2047 clusters to it returns `-1`, and then there is no such file any more. -/
theorem fat16_failed_write_loses_old_version :
    ∃ d₁ d₂, Step hddLayout hddImage (.write [0x61] (fun _ => 0x2A) 1) 0 d₁ ∧
      Step hddLayout d₁ (.write [0x61] (fun _ => 0) (2047 * 512)) (-1) d₂ ∧
      (∀ fuel, 2046 < fuel → fat16ReadFile fuel hddLayout d₁ [0x61] (fun _ => 0) 1
        = some (1, memcpy (fun _ => 0) 0 (fun _ => 0x2A) 1)) ∧
      ∀ fuel, fat16ReadFile fuel hddLayout d₂ [0x61] (fun _ => 0) 1 = some (-1, fun _ => 0) := by
  have h₀ := hddImage_formatted
  obtain ⟨d₁, h₁⟩ := hddImage_write [0x61] (fun _ => 0x2A) (by decide : 1 ≤ 2046 * 512)
  obtain ⟨own, hinv, -⟩ := h₀.volumeInv.step h₀.usable h₁
  obtain ⟨d₂, h₂⟩ := hddImage_write_fails hinv [0x61] fun _ => 0
  refine ⟨d₁, d₂, h₁, h₂, ?_, fun fuel => ?_⟩
  · exact h₁.read_back h₀.usable h₀.volumeInv (by decide) rfl 1 (by decide) _
  · exact fat16ReadFile_notFound h₀.usable.toWellFormed (h₂.failed_gone h₀.usable hinv rfl) fuel _ 1

end BlackHole
