import Mathlib.Logic.Relation
import BlackHole.Fat16.Formatting
import BlackHole.Fat16.Reading

set_option autoImplicit false

/-! # Histories of a volume

The calls of the driver's interface as steps on the disk, and what holds after every finite sequence
of them on a freshly formatted volume (`fat16_history_sound`). -/

namespace BlackHole

open Bytes

/-! ## Calls -/

/-- A call of the driver's interface. -/
inductive Call where
  | write (name : List UInt8) (data : ℕ → UInt8) (size : ℕ)
  | delete (name : List UInt8)
  | read (name : List UInt8) (buffer : ℕ → UInt8) (bufSize : ℕ)

/-- The sizes are `uint32_t`. -/
def Call.IsU32 : Call → Prop
  | .write _ _ size => size < 4294967296
  | .delete _ => True
  | .read _ _ bufSize => bufSize < 4294967296

/-- The data of a write is so short that rounding it up to clusters does not wrap. -/
def Call.Fits (L : Layout) : Call → Prop
  | .write _ _ size => size + L.sectorsPerCluster * 512 < 4294967296
  | .delete _ => True
  | .read _ _ bufSize => bufSize < 4294967296

/-- A call returns `ret` and leaves the disk `d'`. -/
inductive Step (L : Layout) (d : Disk) : Call → ℤ → Disk → Prop where
  | write {name : List UInt8} {data : ℕ → UInt8} {size fuel : ℕ} {ret : ℤ} {d' : Disk} {out : String}
      (h : fat16WriteFile fuel L d name data size = some (.returned ret d' out)) :
      Step L d (.write name data size) ret d'
  | delete {name : List UInt8} {fuel : ℕ} {ret : ℤ} {d' : Disk}
      (h : fat16DeleteFile fuel L d name = some (ret, d')) : Step L d (.delete name) ret d'
  | read {name : List UInt8} {buffer buffer' : ℕ → UInt8} {bufSize fuel : ℕ} {ret : ℤ}
      (h : fat16ReadFile fuel L d name buffer bufSize = some (ret, buffer')) :
      Step L d (.read name buffer bufSize) ret d

/-- `d'` is reached from `d` by calls that satisfy `ok` (in the state they are made in). -/
def Reachable (L : Layout) (ok : Disk → Call → Prop) : Disk → Disk → Prop :=
  Relation.ReflTransGen fun d d' => ∃ call ret, ok d call ∧ Step L d call ret d'

/-! ## Calls return, with one result -/

theorem fat16DeleteFile_fuelMono (L : Layout) (d : Disk) (name : List UInt8) :
    Loop.FuelMono fun fuel => fat16DeleteFile fuel L d name := by
  unfold fat16DeleteFile
  split
  · exact Loop.FuelMono.const _
  · exact (Loop.FuelMono.iterate _ _).map _

theorem fat16WriteFile_fuelMono (L : Layout) (d : Disk) (name : List UInt8) (data : ℕ → UInt8)
    (size : ℕ) : Loop.FuelMono fun fuel => fat16WriteFile fuel L d name data size :=
  (fat16DeleteFile_fuelMono L d name).map _

/-- Every call returns in every volume in order. -/
theorem Step.exists {L : Layout} (hL : L.Usable) {d : Disk} {own : ℕ → List ℕ}
    (h : VolumeInv L d own) (call : Call) : ∃ ret d', Step L d call ret d' := by
  cases call with
  | write name data size =>
      obtain ⟨-, -, -, ret, d', out, -, -, -, -, hrun⟩ := fat16WriteFile_spec hL h name data size
      exact ⟨ret, d', .write (hrun 2047 (by decide))⟩
  | delete name =>
      obtain ⟨ret, d', -, -, -, -, hrun⟩ := fat16DeleteFile_spec hL h name
      exact ⟨ret, d', .delete (hrun 2047 (by decide))⟩
  | read name buffer bufSize =>
      obtain ⟨r, hrun⟩ := fat16ReadFile_returns hL h name buffer bufSize
      exact ⟨r.1, d, .read (hrun 2047 (by decide))⟩

/-- Everything a write can do. -/
theorem Step.write_inv {L : Layout} (hL : L.Usable) {d d' : Disk} {own : ℕ → List ℕ}
    (h : VolumeInv L d own) {name : List UInt8} {data : ℕ → UInt8} {size : ℕ} {ret : ℤ}
    (hs : Step L d (.write name data size) ret d') :
    ∃ d₁ own₁ n out, AfterDelete L d own name d₁ own₁ ∧ clustersNeeded L size = some n ∧ 1 ≤ n ∧
      Wrote L d₁ name data size n ret d' out := by
  cases hs with
  | write hrun =>
      obtain ⟨d₁, own₁, n, ret', d'', out', hafter, hn, hpos, hwrote, hall⟩ :=
        fat16WriteFile_spec hL h name data size
      have heq := (fat16WriteFile_fuelMono L d name data size).unique hrun hall
      simp only [WriteOutcome.returned.injEq] at heq
      obtain ⟨rfl, rfl, rfl⟩ := heq
      exact ⟨d₁, own₁, n, _, hafter, hn, hpos, hwrote⟩

/-- A write succeeds exactly if there is room for the clusters it needs, else it returns `-1`. -/
theorem Step.write_ret {L : Layout} (hL : L.Usable) {d d' : Disk} {own : ℕ → List ℕ}
    (h : VolumeInv L d own) {name : List UInt8} {data : ℕ → UInt8} {size n : ℕ} {ret : ℤ}
    (hs : Step L d (.write name data size) ret d') (hn : clustersNeeded L size = some n) :
    (ret = 0 ↔ Room L d name n) ∧ (ret = 0 ∨ ret = -1) := by
  obtain ⟨d₁, own₁, n', out, hafter, hn', -, hwrote⟩ := hs.write_inv hL h
  obtain rfl : n' = n := Option.some.inj (hn'.symm.trans hn)
  exact ⟨hwrote.ret_eq_zero_iff.trans (hafter.room_iff hL h).symm, hwrote.ret_cases⟩

/-- Everything a delete can do. -/
theorem Step.delete_inv {L : Layout} (hL : L.Usable) {d d' : Disk} {own : ℕ → List ℕ}
    (h : VolumeInv L d own) {name : List UInt8} {ret : ℤ} (hs : Step L d (.delete name) ret d') :
    ∃ own₁, AfterDelete L d own name d' own₁ := by
  cases hs with
  | delete hrun =>
      obtain ⟨ret', d'', own₁, hafter, -, -, hall⟩ := fat16DeleteFile_spec hL h name
      have heq := (fat16DeleteFile_fuelMono L d name).unique hrun hall
      simp only [Prod.mk.injEq] at heq
      obtain ⟨rfl, rfl⟩ := heq
      exact ⟨own₁, hafter⟩

/-! ## Steps keep the invariant -/

/-- The chains are as long as the file sizes say. -/
def Sized (L : Layout) (d : Disk) (own : ℕ → List ℕ) : Prop :=
  ∀ k, LiveSlot L d k → (own k).length
    = max 1 (((rootEntry L d k).fileSize + L.sectorsPerCluster * 512 - 1)
        / (L.sectorsPerCluster * 512))

theorem AfterDelete.sized {L : Layout} (hL : L.Usable) {d d₁ : Disk} {own own₁ : ℕ → List ℕ}
    {name : List UInt8} (h : VolumeInv L d own) (ha : AfterDelete L d own name d₁ own₁)
    (hs : Sized L d own) : Sized L d₁ own₁ := by
  intro k hk
  obtain ⟨hold, hown, hkept⟩ := ha.live hL h hk
  rw [hown, hkept.entry]
  exact hs k hold

theorem VolumeInv.step {L : Layout} (hL : L.Usable) {d d' : Disk} {own : ℕ → List ℕ}
    (h : VolumeInv L d own) {call : Call} {ret : ℤ} (hs : Step L d call ret d') :
    ∃ own', VolumeInv L d' own' ∧ (call.Fits L → Sized L d own → Sized L d' own') := by
  cases call with
  | read name buffer bufSize =>
      cases hs
      exact ⟨own, h, fun _ hsz => hsz⟩
  | delete name =>
      obtain ⟨own₁, hafter⟩ := hs.delete_inv hL h
      exact ⟨own₁, hafter.inv, fun _ hsz => hafter.sized hL h hsz⟩
  | write name data size =>
      obtain ⟨d₁, own₁, n, out, hafter, hn, hpos, hwrote⟩ := hs.write_inv hL h
      obtain ⟨own', hinv, howner⟩ := hafter.inv.wrote hL hafter.gone hwrote
      refine ⟨own', hinv, fun hfits hsz k hk => ?_⟩
      have hsz₁ := hafter.sized hL h hsz
      -- a slot that owned its clusters before the write has kept its entry
      have hold : own' k = own₁ k → (own' k).length
          = max 1 (((rootEntry L d' k).fileSize + L.sectorsPerCluster * 512 - 1)
              / (L.sectorsPerCluster * 512)) := by
        intro hown
        have hlive : LiveSlot L d₁ k := by
          rw [hafter.inv.live_iff, ← hown]
          exact hinv.nonempty k hk
        rw [hown, (hwrote.kept hL hafter.inv hlive).entry]
        exact hsz₁ k hlive
      rcases howner with ⟨rfl, -⟩ | ⟨j, c, d₂, hj, -, -, -, hge, rfl, hw, rfl⟩
      · exact hold rfl
      · by_cases hjk : k = j
        · subst hjk
          have hfits' : size + L.sectorsPerCluster * 512 < 4294967296 := hfits
          rw [clustersNeeded_of_lt hL hfits', Option.some.injEq] at hn
          rw [Function.update_self, rootEntry_setRootEntry, if_pos rfl,
            newEntry_fileSize name c (by omega), List.length_take_of_le hge, hn]
        · exact hold (Function.update_of_ne hjk _ _)

/-- The entries of the clusters `0` and `1` and the sectors below the FAT stay as formatted. -/
structure Untouched (L : Layout) (d d' : Disk) : Prop where
  reserved : ∀ f < L.numFats, ∀ c < 2, fatEntry L d' f c = fatEntry L d f c
  below : ∀ lba < L.fatStartLba, d' lba = d lba

theorem Untouched.refl (L : Layout) (d : Disk) : Untouched L d d :=
  ⟨fun _ _ _ _ => rfl, fun _ _ => rfl⟩

theorem Untouched.trans {L : Layout} {d d₁ d₂ : Disk} (h : Untouched L d d₁)
    (h' : Untouched L d₁ d₂) : Untouched L d d₂ :=
  ⟨fun f hf c hc => (h'.reserved f hf c hc).trans (h.reserved f hf c hc),
    fun lba hlba => (h'.below lba hlba).trans (h.below lba hlba)⟩

theorem Untouched.step {L : Layout} (hL : L.Usable) {d d' : Disk} {own : ℕ → List ℕ}
    (h : VolumeInv L d own) {call : Call} {ret : ℤ} (hs : Step L d call ret d') :
    Untouched L d d' := by
  have hL' := hL.toWellFormed
  cases call with
  | read name buffer bufSize =>
      cases hs
      exact Untouched.refl L d
  | delete name =>
      obtain ⟨own₁, hafter⟩ := hs.delete_inv hL h
      exact ⟨fun f hf c hc => hafter.reserved hL h hf hc, fun lba hlba => hafter.below hL' hlba⟩
  | write name data size =>
      obtain ⟨d₁, own₁, n, out, hafter, -, -, hwrote⟩ := hs.write_inv hL h
      exact ⟨fun f hf c hc => (hwrote.reserved hL hf hc).trans (hafter.reserved hL h hf hc),
        fun lba hlba => (hwrote.below hL' hlba).trans (hafter.below hL' hlba)⟩

/-! ## Runs -/

/-- The volume is in order in every reachable state. -/
theorem Formatted.reachable {L : Layout} {d₀ d : Disk} (h₀ : Formatted L d₀)
    {ok : Disk → Call → Prop} (h : Reachable L ok d₀ d) :
    ∃ own, VolumeInv L d own ∧ Untouched L d₀ d ∧
      ((∀ d call, ok d call → call.Fits L) → Sized L d own) := by
  have hL := h₀.usable
  induction h with
  | refl =>
      exact ⟨_, h₀.volumeInv, Untouched.refl L d₀, fun _ k hk => absurd hk h₀.not_live⟩
  | tail _ hstep ih =>
      obtain ⟨own, hinv, hun, hsized⟩ := ih
      obtain ⟨call, ret, hok, hs⟩ := hstep
      obtain ⟨own', hinv', hsized'⟩ := hinv.step hL hs
      exact ⟨own', hinv', hun.trans (Untouched.step hL hinv hs),
        fun hall => hsized' (hall _ _ hok) (hsized hall)⟩

/-! ## Runs of writes that succeed -/

section

variable {L : Layout} {d d' : Disk} {own own' : ℕ → List ℕ} {name m : List UInt8} {free top : ℕ}

/-- At least `free` clusters are free, and so are all slots from `top` on. -/
structure Spare (L : Layout) (d : Disk) (free top : ℕ) : Prop where
  clusters : free ≤ (freeClusters L d).length
  slots : ∀ k, top ≤ k → k < rootSlots L → ¬ (rootEntry L d k).Live

theorem Formatted.spare (h : Formatted L d) : Spare L d 2046 0 := by
  refine ⟨?_, fun k _ hk hlive => h.not_live ⟨hk, hlive⟩⟩
  rw [h.freeClusters_eq, List.length_range']

theorem AfterDelete.spare (hL : L.Usable) (h : VolumeInv L d own)
    (ha : AfterDelete L d own name d' own') (hs : Spare L d free top) : Spare L d' free top := by
  refine ⟨?_, fun k hk hlt hlive => hs.slots k hk hlt (ha.live hL h ⟨hlt, hlive⟩).1.2⟩
  rcases ha.effect with ⟨rfl, -, -⟩ | ⟨k, hk, hd, -⟩
  · exact hs.clusters
  · rw [hd.freeClusters_length hL hk.slot (h.chain k ⟨hk.slot, hk.live⟩)]
    exact hs.clusters.trans (Nat.le_add_right ..)

/-- The file goes into the first free slot, so that one slot more may be taken. -/
theorem Wrote.spare (hL : L.Usable) {data : ℕ → UInt8} {size n : ℕ} {ret : ℤ} {out : String}
    (hw : Wrote L d name data size n ret d' out) (hret : ret = 0) (hs : Spare L d free top) :
    Spare L d' (free - n) (top + 1) := by
  have hclusters := hs.clusters
  refine ⟨by rw [hw.freeClusters_drop hL hret, List.length_drop]; omega, fun k hk hlt => ?_⟩
  cases hw with
  | diskFull hlt hw => exact absurd hret (by decide)
  | rootFull hge hw hfull => exact absurd hret (by decide)
  | @entered d₂ j c hge hw hj hc =>
      have hjk : k ≠ j := fun hkj =>
        hs.slots top le_rfl (by omega) (hj.before top (by omega))
      rw [rootEntry_setRootEntry, if_neg hjk, hw.rootEntry_eq hL.toWellFormed hlt]
      exact hs.slots k (by omega) hlt

/-- A write succeeds where there are slots and as many clusters to spare as it needs. -/
theorem Spare.write (hs : Spare L d free top) (hL : L.Usable) (h : VolumeInv L d own)
    (htop : top < rootSlots L) (name : List UInt8) (data : ℕ → UInt8) {size n : ℕ}
    (hn : clustersNeeded L size = some n) (hle : n ≤ free) :
    ∃ d', Step L d (.write name data size) 0 d' ∧ Spare L d' (free - n) (top + 1) := by
  obtain ⟨ret, d', hstep⟩ := Step.exists hL h (.write name data size)
  obtain ⟨d₁, own₁, n', out, ha, hn', -, hw⟩ := hstep.write_inv hL h
  obtain rfl : n' = n := Option.some.inj (hn'.symm.trans hn)
  have hs₁ := ha.spare hL h hs
  have hret : ret = 0 :=
    hw.ret_eq_zero_iff.2 ⟨hle.trans hs₁.clusters, top, htop, hs₁.slots top le_rfl htop⟩
  exact ⟨d', hret ▸ hstep, hw.spare hL hret hs₁⟩

/-- There is a file of this name and size. -/
def Stored (L : Layout) (d : Disk) (name : List UInt8) (size : ℕ) : Prop :=
  ∃ k, LiveSlot L d k ∧ (rootEntry L d k).name = toFatName name ∧ (rootEntry L d k).fileSize = size

theorem Step.stored (hL : L.Usable) (h : VolumeInv L d own) (hE5 : (toFatName name).byte 0 ≠ 0xE5)
    {data : ℕ → UInt8} {size : ℕ} (hsize : size < 4294967296)
    (hs : Step L d (.write name data size) 0 d') : Stored L d' name size := by
  obtain ⟨d₁, own₁, n, out, -, -, -, hw⟩ := hs.write_inv hL h
  generalize hret : (0 : ℤ) = ret at hw
  cases hw with
  | diskFull hlt hw => exact absurd hret (by decide)
  | rootFull hge hw hfull => exact absurd hret (by decide)
  | @entered d₂ k c hge hw hk hc =>
      refine ⟨k, ⟨hk.slot, ?_⟩, ?_, ?_⟩ <;> rw [rootEntry_setRootEntry, if_pos rfl]
      · exact newEntry_live_iff.2 hE5
      · exact newEntry_name name c size
      · exact newEntry_fileSize name c hsize

/-- A write or a delete keeps the files of other names. -/
theorem Stored.step (hL : L.Usable) (h : VolumeInv L d own) {call : Call} {ret : ℤ}
    (hs : Step L d call ret d')
    (hcall : call = .delete name ∨ ∃ data size, call = .write name data size)
    (hm : toFatName m ≠ toFatName name) {size : ℕ} (hstored : Stored L d m size) :
    Stored L d' m size := by
  obtain ⟨k, hlive, hname, hsize⟩ := hstored
  have hother : (rootEntry L d k).name ≠ toFatName name := hname ▸ hm
  rcases hcall with rfl | ⟨data, n, rfl⟩
  · obtain ⟨own₁, ha⟩ := hs.delete_inv hL h
    obtain ⟨hlive', -, hkept⟩ := ha.kept hL h hlive hother
    exact ⟨k, hlive', by rw [hkept.entry, hname], by rw [hkept.entry, hsize]⟩
  · obtain ⟨d₁, own₁, n, out, ha, -, -, hw⟩ := hs.write_inv hL h
    obtain ⟨hlive₁, -, hkept₁⟩ := ha.kept hL h hlive hother
    have hkept := hw.kept hL ha.inv hlive₁
    refine ⟨k, ⟨hlive.1, ?_⟩, ?_, ?_⟩ <;> rw [hkept.entry]
    exacts [hlive₁.2, hkept₁.entry ▸ hname, hkept₁.entry ▸ hsize]

/-- A file that is there is deleted. -/
theorem Stored.delete (hL : L.Usable) (h : VolumeInv L d own) {size : ℕ}
    (hstored : Stored L d name size) : ∃ d', Step L d (.delete name) 0 d' := by
  obtain ⟨k, hlive, hname, -⟩ := hstored
  obtain ⟨ret, d', -, -, hret, -, hrun⟩ := fat16DeleteFile_spec hL h name
  obtain rfl := hret.1 ⟨k, h.resolvesTo_iff.2 ⟨hlive, hname⟩⟩
  exact ⟨d', .delete (hrun 2047 (by decide))⟩

end

/-- What a user of the volume can rely on: the files have chains of their own of the right length,
    names are unique, the directory is packed and the copies of the FAT agree wherever they did when
    the volume `d₀` was formatted. -/
structure VolumeSound (L : Layout) (d₀ d : Disk) : Prop where
  chain : ∀ k, LiveSlot L d k → ∃ cs, FatChain L d (rootEntry L d k).firstClusterLo cs ∧ cs.Nodup ∧
    cs.length = max 1 (((rootEntry L d k).fileSize + L.sectorsPerCluster * 512 - 1)
      / (L.sectorsPerCluster * 512))
  disjoint : ∀ j k, LiveSlot L d j → LiveSlot L d k → j ≠ k → ∀ cs ds,
    FatChain L d (rootEntry L d j).firstClusterLo cs →
    FatChain L d (rootEntry L d k).firstClusterLo ds → List.Disjoint cs ds
  names : ∀ j k, LiveSlot L d j → LiveSlot L d k →
    (rootEntry L d j).name = (rootEntry L d k).name → j = k
  packed : ∀ k, LiveSlot L d k → ∀ j < k, (rootEntry L d j).firstByte ≠ 0x00
  agree : ∀ f < L.numFats, ∀ c < fatEntries L,
    2 ≤ c ∨ fatEntry L d₀ f c = fatEntry L d₀ 0 c → fatEntry L d f c = fatEntry L d 0 c

/-- After any sequence of calls on a freshly formatted volume the volume is sound, and the next call
    returns as well. -/
theorem fat16_history_sound {L : Layout} {d₀ d : Disk} (h₀ : Formatted L d₀)
    (h : Reachable L (fun _ call => call.Fits L) d₀ d) :
    VolumeSound L d₀ d ∧ ∀ call : Call, ∃ ret d', Step L d call ret d' := by
  have hL := h₀.usable
  obtain ⟨own, hinv, hun, hsized⟩ := h₀.reachable h
  have hsized := hsized fun _ _ hcall => hcall
  refine ⟨⟨fun k hk => ?_, fun j k hj hk hjk cs ds hcs hds => ?_, hinv.names, hinv.packed,
    fun f hf c hc hor => ?_⟩, Step.exists hL hinv⟩
  · exact ⟨own k, hinv.chain k hk, (hinv.chain k hk).follows.nodup, hsized k hk⟩
  · rw [hcs.follows.unique (hinv.chain j hj).follows, hds.follows.unique (hinv.chain k hk).follows]
    exact hinv.disjoint j k hjk
  · by_cases h2 : 2 ≤ c
    · exact hinv.agree f hf c hc h2
    · rcases hor with h2' | heq
      · exact absurd h2' h2
      · rw [hun.reserved f hf c (by omega), hun.reserved 0 hL.numFats_pos c (by omega), heq]

/-- On the image of `build.ps1` three files are written and the first is deleted before the last
    takes its slot: two files are left, with chains of their own of two and three clusters. -/
theorem fat16_history_sound_hddImage :
    ∃ d₁ d₂ d₃ d₄, Step hddLayout hddImage (.write [0x63] (fun _ => 0) 100) 0 d₁ ∧
      Step hddLayout d₁ (.write [0x61] (fun _ => 1) 700) 0 d₂ ∧
      Step hddLayout d₂ (.delete [0x63]) 0 d₃ ∧
      Step hddLayout d₃ (.write [0x62] (fun _ => 2) 1500) 0 d₄ ∧
      VolumeSound hddLayout hddImage d₄ ∧
      (∃ j k cs ds, LiveSlot hddLayout d₄ j ∧ LiveSlot hddLayout d₄ k ∧
        FatChain hddLayout d₄ (rootEntry hddLayout d₄ j).firstClusterLo cs ∧
        FatChain hddLayout d₄ (rootEntry hddLayout d₄ k).firstClusterLo ds ∧
        cs.length = 2 ∧ ds.length = 3 ∧ List.Disjoint cs ds) ∧
      ∀ call : Call, ∃ ret d', Step hddLayout d₄ call ret d' := by
  have hL := hddImage_formatted.usable
  obtain ⟨d₁, h₁, hspare₁⟩ := hddImage_formatted.spare.write hL hddImage_formatted.volumeInv
    (by decide) [0x63] (fun _ => 0) (show clustersNeeded hddLayout 100 = some 1 by decide) (by decide)
  obtain ⟨own₁, hinv₁, -⟩ := hddImage_formatted.volumeInv.step hL h₁
  obtain ⟨d₂, h₂, hspare₂⟩ := hspare₁.write hL hinv₁ (by decide) [0x61] (fun _ => 1)
    (show clustersNeeded hddLayout 700 = some 2 by decide) (by decide)
  obtain ⟨own₂, hinv₂, -⟩ := hinv₁.step hL h₂
  obtain ⟨d₃, h₃⟩ := ((h₁.stored hL hddImage_formatted.volumeInv (by decide) (by decide)).step hL
    hinv₁ h₂ (Or.inr ⟨_, _, rfl⟩) (by decide)).delete hL hinv₂
  obtain ⟨own₃, hafter⟩ := h₃.delete_inv hL hinv₂
  obtain ⟨d₄, h₄, -⟩ := (hafter.spare hL hinv₂ hspare₂).write hL hafter.inv (by decide) [0x62]
    (fun _ => 2) (show clustersNeeded hddLayout 1500 = some 3 by decide) (by decide)
  have hfits (name : List UInt8) (data : ℕ → UInt8) {size : ℕ} (hsize : size ≤ 1500) :
      Call.Fits hddLayout (.write name data size) :=
    show size + 1 * 512 < 4294967296 by omega
  have hreach : Reachable hddLayout (fun _ call => call.Fits hddLayout) hddImage d₄ :=
    (((Relation.ReflTransGen.single ⟨_, _, hfits _ _ (by decide), h₁⟩).tail
      ⟨_, _, hfits _ _ (by decide), h₂⟩).tail ⟨.delete [0x63], _, trivial, h₃⟩).tail
      ⟨_, _, hfits _ _ le_rfl, h₄⟩
  obtain ⟨hsound, hreturns⟩ := fat16_history_sound hddImage_formatted hreach
  obtain ⟨j, hj, hjname, hjsize⟩ := ((h₂.stored hL hinv₁ (by decide) (by decide)).step hL hinv₂ h₃
    (Or.inl rfl) (by decide)).step hL hafter.inv h₄ (Or.inr ⟨_, _, rfl⟩) (by decide)
  obtain ⟨k, hk, hkname, hksize⟩ := h₄.stored hL hafter.inv (by decide) (by decide)
  obtain ⟨cs, hcs, -, hcslen⟩ := hsound.chain j hj
  obtain ⟨ds, hds, -, hdslen⟩ := hsound.chain k hk
  have hjk : j ≠ k := by
    rintro rfl
    exact absurd (hjname.symm.trans hkname) (by decide)
  rw [hjsize] at hcslen
  rw [hksize] at hdslen
  have htwo : cs.length = 2 := hcslen.trans (by decide)
  have hthree : ds.length = 3 := hdslen.trans (by decide)
  exact ⟨d₁, d₂, d₃, d₄, h₁, h₂, h₃, h₄, hsound, ⟨j, k, cs, ds, hj, hk, hcs, hds, htwo, hthree,
    hsound.disjoint j k hj hk hjk cs ds hcs hds⟩, hreturns⟩

end BlackHole
