import BlackHole.Fat16.FileStore
import BlackHole.Fat16.RoundTrip
import BlackHole.Fat16.Scanners

set_option autoImplicit false

/-! # The driver implements the store

A disk represents a store if the live root entries are its files, slot for slot, their chains hold
the files' bytes and the free entries of the FAT are counted by its stock (`Represents`). Every call
keeps that and is answered alike (`fsCall_implements`), so that from a freshly formatted disk on the
driver gives the answers of the store in every run (`fat16_implements_fileStore`). -/

namespace BlackHole

open Bytes

/-! ## Representation -/

/-- Slot `k` and the chain `cs` hold a file. -/
structure HoldsFile (L : Layout) (d : Disk) (k : ℕ) (cs : List ℕ) (n : FatName)
    (bytes : List UInt8) : Prop where
  live : (rootEntry L d k).Live
  name : (rootEntry L d k).name = n
  fileSize : (rootEntry L d k).fileSize = bytes.length
  attr : (rootEntry L d k).attr = fat16AttrArchive
  data : HasData L d (fun i => bytes.getD i 0) bytes.length cs
  clusters : cs.length = fileClusters L bytes.length

/-- Slot `k` is as the directory has it. -/
def SlotShows (L : Layout) (d : Disk) (k : ℕ) (cs : List ℕ) : Option (FatName × List UInt8) → Prop
  | none => ¬ (rootEntry L d k).Live
  | some (n, bytes) => HoldsFile L d k cs n bytes

/-- The disk holds the store's files, each in the chain of its slot. -/
structure Represents (L : Layout) (d : Disk) (own : ℕ → List ℕ) (s : FileStore L) : Prop where
  inv : VolumeInv L d own
  slots : ∀ k : Fin (rootSlots L), SlotShows L d k (own k) (s.dir.slot k)
  free : (freeClusters L d).length = s.free

theorem HoldsFile.kept {L : Layout} {d d' : Disk} {k : ℕ} {cs : List ℕ} {n : FatName}
    {bytes : List UInt8} (h : HoldsFile L d k cs n bytes) (hkept : Kept L d d' k cs) :
    HoldsFile L d' k cs n bytes := by
  obtain ⟨hlive, hname, hsize, hattr, hdata, hclusters⟩ := h
  refine ⟨hkept.entry ▸ hlive, hkept.entry ▸ hname, hkept.entry ▸ hsize, hkept.entry ▸ hattr,
    fun i c hc s hs => ?_, hclusters⟩
  rw [hkept.data c (List.mem_of_getElem? hc) s hs]
  exact hdata i c hc s hs

theorem SlotShows.kept {L : Layout} {d d' : Disk} {k : ℕ} {cs : List ℕ}
    {o : Option (FatName × List UInt8)} (h : SlotShows L d k cs o) (hkept : Kept L d d' k cs) :
    SlotShows L d' k cs o := by
  cases o with
  | none =>
      intro hlive
      rw [hkept.entry] at hlive
      exact h hlive
  | some file => exact HoldsFile.kept h hkept

section

variable {L : Layout} {d d₁ d' : Disk} {own own₁ : ℕ → List ℕ} {s : FileStore L}
  {name : List UInt8}

/-- The live slots are those of the directory that hold a file. -/
theorem Represents.live_iff (h : Represents L d own s) (k : Fin (rootSlots L)) :
    (rootEntry L d k).Live ↔ s.dir.slot k ≠ none := by
  have hslot := h.slots k
  rcases hk : s.dir.slot k with _ | file <;> rw [hk] at hslot
  · exact iff_of_false hslot fun hne => hne rfl
  · exact iff_of_true hslot.live (by simp)

/-- A name resolves to the slot that the directory has it in. -/
theorem Represents.resolvesTo_iff (h : Represents L d own s) (k : Fin (rootSlots L)) :
    ResolvesTo L d name k ↔ ∃ bytes, s.dir.slot k = some (toFatName name, bytes) := by
  have hslot := h.slots k
  rw [h.inv.resolvesTo_iff, LiveSlot, and_iff_right k.isLt]
  rcases hk : s.dir.slot k with _ | ⟨n, bytes⟩ <;> rw [hk] at hslot
  · exact iff_of_false (fun hlive => hslot hlive.1) (by simp)
  · rw [and_iff_right hslot.live, hslot.name]
    simp

theorem Represents.lookup_eq_none_iff (h : Represents L d own s) :
    s.dir.lookup (toFatName name) = none ↔ ∀ k, ¬ ResolvesTo L d name k := by
  rw [SlotTable.lookup_eq_none_iff]
  constructor
  · intro hnone k hk
    obtain ⟨bytes, hslot⟩ := (h.resolvesTo_iff ⟨k, hk.slot⟩).1 hk
    exact hnone _ bytes hslot
  · exact fun hnone k bytes hslot => hnone k ((h.resolvesTo_iff k).2 ⟨bytes, hslot⟩)

/-- A freshly formatted disk represents the store without files. -/
theorem Formatted.represents (h : Formatted L d) :
    Represents L d (fun _ => []) (FileStore.formatted L) where
  inv := h.volumeInv
  slots k hlive := h.not_live ⟨k.isLt, hlive⟩
  free := by
    rw [h.freeClusters_eq, List.length_range']
    rfl

/-! ## Deleting -/

/-- Deleting by name, on its own or as the first half of a write, removes the file. -/
theorem AfterDelete.represents (hL : L.Usable) (h : Represents L d own s)
    (ha : AfterDelete L d own name d₁ own₁) :
    Represents L d₁ own₁ (s.remove (toFatName name)) := by
  have hL' := hL.toWellFormed
  rcases ha.effect with ⟨rfl, rfl, hnone⟩ | ⟨k, hk, hd, rfl⟩
  · rwa [FileStore.remove_of_lookup_eq_none (h.lookup_eq_none_iff.2 hnone)]
  · obtain ⟨bytes, hslot⟩ := (h.resolvesTo_iff ⟨k, hk.slot⟩).1 hk
    have hfile : HoldsFile L d k (own k) (toFatName name) bytes := by
      have hshows := h.slots ⟨k, hk.slot⟩
      rwa [hslot] at hshows
    refine ⟨ha.inv, fun j => ?_, ?_⟩
    · simp only [FileStore.remove, SlotTable.slot_erase hslot]
      by_cases hjk : (j : ℕ) = k
      · rw [if_pos (Fin.ext hjk)]
        intro hlive
        exact ((hd.liveSlot_iff hL').1 ⟨j.isLt, hlive⟩).2 hjk
      · rw [if_neg fun he => hjk (congrArg Fin.val he), Function.update_of_ne hjk]
        exact (h.slots j).kept (hd.kept hL h.inv hk.slot j.isLt hjk)
    · have hchain := h.inv.chain k ⟨hk.slot, hk.live⟩
      rw [hd.freeClusters_length hL hk.slot hchain, h.free, hfile.clusters]
      simp only [FileStore.remove, SlotTable.lookup_of_slot hslot, Option.map_some,
        Option.getD_some]

/-! ## Writing -/

theorem newEntry_attr (name : List UInt8) (first size : ℕ) :
    (newEntry name first size).attr = fat16AttrArchive := by
  rw [DirEntry.attr, newEntry, Buf.byte_setU32_of_outside _ _ (by omega),
    Buf.byte_setU16_of_outside _ _ (by omega), Buf.byte_setByte_self (by decide)]

/-- The file that a successful write has entered. -/
theorem Entered.holdsFile {data : List UInt8} {n k c : ℕ}
    (h : Entered L name (fun i => data.getD i 0) data.length d d' ((freeClusters L d).take n) k c)
    (hE5 : (toFatName name).byte 0 ≠ 0xE5) (hsize : data.length < 4294967296)
    (hn : n = fileClusters L data.length) (hge : n ≤ (freeClusters L d).length) :
    HoldsFile L d' k ((freeClusters L d).take n) (toFatName name) data := by
  have hentry := h.root k h.slot.slot
  rw [if_pos rfl] at hentry
  refine ⟨?_, ?_, ?_, ?_, h.data, by rw [List.length_take_of_le hge, hn]⟩ <;> rw [hentry]
  · exact newEntry_live_iff.2 hE5
  · exact newEntry_name ..
  · exact newEntry_fileSize name c hsize
  · exact newEntry_attr ..

/-- The first free slot is the first empty one of the directory. -/
theorem Represents.firstEmpty_eq (h : Represents L d own s) {k : ℕ} (hk : FirstFree L d k) :
    s.dir.firstEmpty = some ⟨k, hk.slot⟩ := by
  refine SlotTable.firstEmpty_eq_some_iff.2 ⟨not_not.1 fun hne => ?_, fun j hj => ?_⟩
  · exact hk.free ((h.live_iff ⟨k, hk.slot⟩).2 hne)
  · exact (h.live_iff j).1 (hk.before j hj)

/-- Threading free clusters that no file gets. -/
theorem Written.represents (hL : L.Usable) (h : Represents L d own s) {data : ℕ → UInt8}
    {size n : ℕ} (hw : Written L data size d d' ((freeClusters L d).take n)) :
    Represents L d' own { s with free := s.free - n } where
  inv := h.inv.alloc hL hw
  slots k := (h.slots k).kept (hw.kept hL h.inv k.isLt)
  free := by rw [hw.freeClusters_drop hL, List.length_drop, h.free]

/-- The slots besides `k`, and the stock, when the write has entered `e` into slot `k`. -/
theorem Written.entered (hL : L.Usable) (h : Represents L d own s) {data : ℕ → UInt8}
    {size n k : ℕ} (hw : Written L data size d d' ((freeClusters L d).take n)) (e : DirEntry)
    (hk : k < rootSlots L) :
    (∀ j : Fin (rootSlots L), (j : ℕ) ≠ k →
      SlotShows L (setRootEntry L d' k e) j (own j) (s.dir.slot j)) ∧
    (freeClusters L (setRootEntry L d' k e)).length = s.free - n := by
  refine ⟨fun j hjk => ?_, ?_⟩
  · exact (h.slots j).kept ((hw.kept hL h.inv j.isLt).setRootEntry hL h.inv hk hjk)
  · rw [freeClusters_setRootEntry hL _ _ hk]
    exact (hw.represents hL h).free

/-- The second half of a write ends as the store says. -/
theorem Wrote.represents (hL : L.Usable) (h : Represents L d own s)
    (hgone : ∀ k, ¬ ResolvesTo L d name k) {data : List UInt8} (hsize : data.length < 4294967296)
    {ret : ℤ} {out : String}
    (hw : Wrote L d name (fun i => data.getD i 0) data.length (fileClusters L data.length) ret d'
      out) :
    ∃ own', Represents L d' own' (s.enter (toFatName name) data).2.2 ∧
      ret = (s.enter (toFatName name) data).1 ∧ out = (s.enter (toFatName name) data).2.1 := by
  have hlookup := h.lookup_eq_none_iff.2 hgone
  have herase := SlotTable.erase_of_lookup_eq_none hlookup
  have hfree := h.free
  obtain ⟨own', hinv', howner⟩ := h.inv.wrote hL hgone hw
  have heffect := hw.effect hL.toWellFormed
  cases hw with
  | diskFull hlt hw =>
      rw [← List.take_length (l := freeClusters L d)] at hw
      have hstore : s.enter (toFatName name) data
          = (-1, "[FAT16] ERROR: Disk full!\n", { s with free := 0 }) := if_pos (by omega)
      have hrep := hw.represents hL h
      rw [hfree, Nat.sub_self] at hrep
      rw [hstore]
      exact ⟨own, hrep, rfl, rfl⟩
  | rootFull hge hw hfull =>
      have hnone : s.dir.insert (toFatName name) data = none :=
        SlotTable.insert_eq_none_iff.2 ⟨hlookup, fun k => (h.live_iff k).1 (hfull k k.isLt)⟩
      have hstore : s.enter (toFatName name) data = (-1, "[FAT16] ERROR: Root directory full!\n",
          { s with free := s.free - fileClusters L data.length }) := by
        simp only [FileStore.enter]
        rw [if_neg (by omega), hnone]
      rw [hstore]
      exact ⟨own, hw.represents hL h, rfl, rfl⟩
  | @entered d₂ k c hge hw hk hc =>
      have hins : s.dir.insert (toFatName name) data
          = some (s.dir.place ⟨k, hk.slot⟩ (toFatName name) data) := by
        rw [SlotTable.insert, herase, h.firstEmpty_eq hk, Option.map_some]
      have hstore : s.enter (toFatName name) data = (0, "",
          if (toFatName name).byte 0 = 0xE5 then
            { s with free := s.free - fileClusters L data.length }
          else
            { dir := s.dir.place ⟨k, hk.slot⟩ (toFatName name) data
              free := s.free - fileClusters L data.length }) := by
        simp only [FileStore.enter]
        rw [if_neg (by omega), hins]
      obtain ⟨hslots, hleft⟩ := hw.entered hL h (newEntry name c data.length) hk.slot
      rw [hstore]
      refine ⟨own', ?_, rfl, rfl⟩
      rcases howner with ⟨rfl, hfail | hE5⟩ | ⟨j, -, -, hj, -, hE5, -, -, rfl, -, -⟩
      · exact absurd hfail (by decide)
      · -- the entry looks deleted, and its clusters belong to nobody
        simp only [if_pos hE5]
        refine ⟨hinv', fun j => ?_, hleft⟩
        by_cases hjk : (j : ℕ) = k
        · have hempty := (SlotTable.firstEmpty_eq_some_iff.1 (h.firstEmpty_eq hk)).1
          obtain rfl : j = ⟨k, hk.slot⟩ := Fin.ext hjk
          rw [hempty]
          intro hlive
          rw [rootEntry_setRootEntry, if_pos rfl, newEntry_live_iff] at hlive
          exact hlive hE5
        · exact hslots j hjk
      · obtain rfl := hj.unique hk
        simp only [if_neg hE5]
        refine ⟨hinv', fun i => ?_, hleft⟩
        rw [SlotTable.slot_place, herase]
        by_cases hij : (i : ℕ) = j
        · obtain ⟨k', c', hent⟩ := heffect rfl
          obtain rfl := hent.slot.unique hk
          rw [if_pos (Fin.ext hij), hij, Function.update_self]
          exact hent.holdsFile hE5 hsize rfl hge
        · rw [if_neg fun he => hij (congrArg Fin.val he), Function.update_of_ne hij]
          exact hslots i hij

/-! ## The calls that change the disk -/

theorem Represents.deleteFile (hL : L.Usable) (h : Represents L d own s) (name : List UInt8)
    {fuel : ℕ} (hfuel : 2046 < fuel) : ∃ d' own',
    fat16DeleteFile fuel L d name = some ((s.delete (toFatName name)).1, d') ∧
      Represents L d' own' (s.delete (toFatName name)).2 := by
  obtain ⟨ret, d', own', hafter, hret, hor, hrun⟩ := fat16DeleteFile_spec hL h.inv name
  have hrep := hafter.represents hL h
  refine ⟨d', own', ?_⟩
  rw [hrun fuel hfuel, FileStore.delete]
  by_cases hlookup : s.dir.lookup (toFatName name) = none
  · have hnone := h.lookup_eq_none_iff.1 hlookup
    have hfail : ret = -1 := hor.resolve_left fun h0 => by
      obtain ⟨k, hk⟩ := hret.2 h0
      exact hnone k hk
    rw [FileStore.remove_of_lookup_eq_none hlookup] at hrep
    rw [if_pos hlookup, hfail]
    exact ⟨rfl, hrep⟩
  · have hsome : ret = 0 := hret.1 (by
      by_contra hnone
      exact hlookup (h.lookup_eq_none_iff.2 fun k hk => hnone ⟨k, hk⟩))
    rw [if_neg hlookup, hsome]
    exact ⟨rfl, hrep⟩

theorem Represents.writeFile (hL : L.Usable) (h : Represents L d own s) (name : List UInt8)
    {data : List UInt8} (hlen : data.length + L.sectorsPerCluster * 512 < 4294967296) {fuel : ℕ}
    (hfuel : 2046 < fuel) : ∃ d' own',
    fat16WriteFile fuel L d name (fun k => data.getD k 0) data.length
        = some (.returned (s.write (toFatName name) data).1 d' (s.write (toFatName name) data).2.1) ∧
      Represents L d' own' (s.write (toFatName name) data).2.2 := by
  obtain ⟨d₁, own₁, n, ret, d', out, hafter, hn, -, hwrote, hrun⟩ :=
    fat16WriteFile_spec hL h.inv name (fun k => data.getD k 0) data.length
  obtain rfl : fileClusters L data.length = n :=
    Option.some.inj ((clustersNeeded_of_lt hL hlen).symm.trans hn)
  obtain ⟨own', hrep', rfl, rfl⟩ :=
    hwrote.represents hL (hafter.represents hL h) hafter.gone (by omega)
  exact ⟨d', own', hrun fuel hfuel, hrep'⟩

/-! ## Reading -/

/-- The clusters of a file hold its bytes. -/
theorem le_fileClusters (hL : L.Usable) (size : ℕ) :
    size ≤ fileClusters L size * (L.sectorsPerCluster * 512) := by
  have hpos := hL.sectorsPerCluster_pos
  have hcb : 0 < L.sectorsPerCluster * 512 := by omega
  have hlt := Nat.lt_div_mul_add (a := size + L.sectorsPerCluster * 512 - 1) hcb
  have hle : (size + L.sectorsPerCluster * 512 - 1) / (L.sectorsPerCluster * 512)
      * (L.sectorsPerCluster * 512) ≤ fileClusters L size * (L.sectorsPerCluster * 512) :=
    Nat.mul_le_mul_right _ (Nat.le_max_right ..)
  omega

theorem Represents.read (hL : L.Usable) (h : Represents L d own s) (name : List UInt8)
    (buffer : ℕ → UInt8) (bufSize : ℕ) {fuel : ℕ} (hfuel : 2046 < fuel) :
    fat16ReadFile fuel L d name buffer bufSize = some (s.read (toFatName name) buffer bufSize) := by
  rw [FileStore.read]
  rcases hfile : s.dir.lookup (toFatName name) with _ | bytes
  · exact fat16ReadFile_notFound hL.toWellFormed (h.lookup_eq_none_iff.1 hfile) fuel buffer bufSize
  · obtain ⟨k, hslot⟩ := SlotTable.lookup_eq_some_iff.1 hfile
    have hres := (h.resolvesTo_iff k).2 ⟨bytes, hslot⟩
    have hfile : HoldsFile L d k (own k) (toFatName name) bytes := by
      have hshows := h.slots k
      rwa [hslot] at hshows
    have hchain := h.inv.chain k ⟨k.isLt, hfile.live⟩
    -- the whole volume has less than 2^31 bytes
    have hspc := hL.sectorsPerCluster_lt
    have hcap : (own k).length * (L.sectorsPerCluster * 512) ≤ 2046 * (255 * 512) :=
      Nat.mul_le_mul hchain.length_le (by omega)
    have hfit : bytes.length ≤ (own k).length * (L.sectorsPerCluster * 512) := by
      rw [hfile.clusters]
      exact le_fileClusters hL bytes.length
    exact fat16ReadFile_delivers hL hres bufSize hchain hfile.data hfile.fileSize (by omega) hfit
      (by omega) buffer fuel hfuel

/-! ## Listing -/

/-- A filter behind a `takeWhile` that stops behind all that the filter lets through. -/
theorem filter_takeWhile {α : Type} {p q : α → Bool} {l : List α}
    (h : l.Pairwise fun x y => q y = true → p x = true) (hself : ∀ x ∈ l, q x = true → p x = true) :
    (l.takeWhile p).filter q = l.filter q := by
  induction l with
  | nil => rfl
  | cons a l ih =>
      obtain ⟨hhead, htail⟩ := List.pairwise_cons.1 h
      have ih := ih htail fun x hx => hself x (List.mem_cons_of_mem a hx)
      by_cases hp : p a = true
      · rw [List.takeWhile_cons_of_pos hp, List.filter_cons, List.filter_cons, ih]
      · rw [List.takeWhile_cons_of_neg hp, List.filter_nil, eq_comm, List.filter_eq_nil_iff]
        intro x hx hq
        rcases List.mem_cons.1 hx with rfl | hx
        · exact hp (hself x (List.mem_cons_self ..) hq)
        · exact hp (hhead x hx hq)

/-- The listing shows the live slots, for no live slot stands behind an unused one. -/
theorem Represents.listedSlots_eq (h : Represents L d own s) :
    listedSlots L d
      = (List.range (rootSlots L)).filter fun k => decide (rootEntry L d k).Live := by
  have hshown : ∀ k < rootSlots L, (rootEntry L d k).firstByte ≠ 0x00 →
      ((rootEntry L d k).Shown ↔ (rootEntry L d k).Live) := by
    intro k hk hused
    refine ⟨fun hs => ⟨hused, hs.1⟩, fun hlive => ⟨hlive.2, ?_⟩⟩
    have hslot := h.slots ⟨k, hk⟩
    rcases hfile : s.dir.slot ⟨k, hk⟩ with _ | file <;> rw [hfile] at hslot
    · exact absurd hlive hslot
    · rw [hslot.attr]
      decide
  have hused : listedSlots L d
      = (usedSlots L d).filter fun k => decide (rootEntry L d k).Live := by
    refine List.filter_congr fun k hk => decide_eq_decide.2 (hshown k ?_ ?_)
    · exact List.mem_range.1 ((List.takeWhile_prefix _).subset hk)
    · have hfirst := List.mem_takeWhile_imp hk
      exact of_decide_eq_true hfirst
  rw [hused, usedSlots, filter_takeWhile]
  · refine List.pairwise_lt_range.imp_of_mem fun {j k} _ hk hlt hlive => decide_eq_true ?_
    exact h.inv.packed k ⟨List.mem_range.1 hk, of_decide_eq_true hlive⟩ j hlt
  · exact fun k _ hlive => decide_eq_true (of_decide_eq_true hlive).1

/-- `fat16_list_root` prints a line for each file of the store. -/
theorem Represents.list (hL : L.Usable) (h : Represents L d own s) :
    fat16ListRoot L d = s.list := by
  have hlines : (listedSlots L d).map (fun k => listLine (rootEntry L d k))
      = s.dir.entries.map FileStore.listedFile := by
    rw [h.listedSlots_eq, ← List.map_coe_finRange_eq_range, SlotTable.entries, List.map_filterMap,
      ← List.filterMap_eq_map, List.filterMap_filter, List.filterMap_map]
    refine List.filterMap_congr fun k _ => ?_
    have hslot := h.slots k
    simp only [Function.comp_apply, decide_eq_true_eq]
    rcases hfile : s.dir.slot k with _ | ⟨n, bytes⟩ <;> rw [hfile] at hslot
    · exact if_neg hslot
    · rw [if_pos hslot.live, Option.map_some, listLine, hslot.name, hslot.fileSize]
      rfl
  rw [fat16ListRoot_eq hL.toWellFormed, hlines, FileStore.list]
  refine if_congr ?_ rfl rfl
  rw [← List.map_eq_nil_iff, hlines, List.map_eq_nil_iff]

end

/-! ## Starting again -/

/-- `fat16_init` reads sector `0` only, so every disk with that sector is accepted alike. -/
theorem fat16Init_accepted {L₀ L : Layout} {d : Disk} {out : Output}
    (h : fat16Init L₀ d = (0, L, out)) :
    (Bpb.ofSector (d 0)).bytesPerSector = 512 ∧
    L.fatStartLba = (Bpb.ofSector (d 0)).reservedSectors ∧
    ∀ (L₁ : Layout) (d₁ : Disk), d₁ 0 = d 0 → fat16Init L₁ d₁ = (0, L,
      .printf "> FAT16 initialized. Data starts at LBA %u.\n" [.word L.dataStartLba]) := by
  simp only [fat16Init] at h
  split at h
  · simp at h
  next hsize =>
    simp only [Prod.mk.injEq, true_and] at h
    obtain ⟨rfl, -⟩ := h
    refine ⟨not_not.1 hsize, rfl, fun L₁ d₁ hsame => ?_⟩
    have hread : ataReadSector d₁ 0 = ataReadSector d 0 := hsame
    simp only [fat16Init, hread]
    rw [if_neg hsize]

/-- An empty FAT in sector `0` would leave no sector size there. -/
theorem Formatted.fatStart_pos {L : Layout} {d : Disk} (h : Formatted L d) : 0 < L.fatStartLba := by
  rw [Nat.pos_iff_ne_zero]
  intro hzero
  obtain ⟨L₀, out, hinit⟩ := h.init
  obtain ⟨hsize, -⟩ := fat16Init_accepted hinit
  have hentry := h.fat_zero 0 h.numFats_pos 6 (lt_fatEntries h.usable (by decide)) (by decide)
  -- the high byte of the sector size is the low byte of the entry of cluster `6`
  rw [fatEntry, fatLba, hzero] at hentry
  have hhigh : ((d 0).byte 12).toNat + 256 * ((d 0).byte 13).toNat = 0 := by
    simpa [Buf.u16, le16] using hentry
  have hlow := UInt8.toNat_lt ((d 0).byte 11)
  have hbytes : ((d 0).byte 11).toNat + 256 * ((d 0).byte 12).toNat = 512 := hsize
  omega

/-! ## Every call -/

/-- The driver on a disk that was formatted as `d₀`, with a store of files. -/
structure Serves (L : Layout) (d₀ : Disk) (st : FsState) (s : FileStore L) : Prop where
  layout : st.layout = L
  bootSector : st.disk 0 = d₀ 0
  files : ∃ own, Represents L st.disk own s

section

variable {L : Layout} {d₀ : Disk}

/-- A call that returns in a volume in order leaves the boot sector alone. -/
theorem Serves.bootSector_step (h₀ : Formatted L d₀) {d d' : Disk} {own : ℕ → List ℕ}
    {s : FileStore L} (hd : d 0 = d₀ 0) (h : Represents L d own s) {call : Call} {ret : ℤ}
    (hs : Step L d call ret d') : d' 0 = d₀ 0 :=
  ((Untouched.step h₀.usable h.inv hs).below 0 h₀.fatStart_pos).trans hd

/-- Every call is answered as the store answers it. -/
theorem fsCall_implements (h₀ : Formatted L d₀) {fuel : ℕ} (hfuel : 2046 < fuel) :
    Machine.Implements (FsCall.exec fuel) (fun (s : FileStore L) call => some (s.exec call))
      (FsCall.Fits L) (Serves L d₀) := by
  have hL := h₀.usable
  rintro ⟨L', d⟩ s call o s' ⟨rfl, hd, own, hrep⟩ hfits hspec
  obtain ⟨rfl, rfl⟩ := Prod.mk.inj (Option.some.inj hspec)
  cases call with
  | boot =>
      obtain ⟨L₀, out, hinit⟩ := h₀.init
      have hboot := (fat16Init_accepted hinit).2.2 {} d hd
      simp only [FsCall.exec, hboot]
      exact ⟨_, rfl, rfl, hd, own, hrep⟩
  | write name data =>
      obtain ⟨d', own', hrun, hrep'⟩ := hrep.writeFile hL name hfits hfuel
      have hboot := Serves.bootSector_step h₀ hd hrep (Step.write hrun)
      simp only [FsCall.exec, hrun, Option.bind_some]
      exact ⟨_, rfl, rfl, hboot, own', hrep'⟩
  | delete name =>
      obtain ⟨d', own', hrun, hrep'⟩ := hrep.deleteFile hL name hfuel
      have hboot := Serves.bootSector_step h₀ hd hrep (Step.delete hrun)
      simp only [FsCall.exec, hrun, Option.map_some]
      exact ⟨_, rfl, rfl, hboot, own', hrep'⟩
  | read name buffer bufSize =>
      simp only [FsCall.exec, hrep.read hL name buffer bufSize hfuel, Option.map_some]
      exact ⟨_, rfl, rfl, hd, own, hrep⟩
  | list =>
      simp only [FsCall.exec, hrep.list hL]
      exact ⟨_, rfl, rfl, hd, own, hrep⟩

/-! ## Runs -/

/-- A run from power on is answered as the store answers it. -/
theorem FsCall.run_boot (h₀ : Formatted L d₀) {calls : List FsCall}
    (hfits : ∀ call ∈ calls, call.Fits L) {fuel : ℕ} (hfuel : 2046 < fuel) :
    ∃ st, Machine.run (FsCall.exec fuel) ⟨{}, d₀⟩ (.boot :: calls) = some
        ((Machine.runTotal FileStore.exec (FileStore.formatted L) (.boot :: calls)).1, st) ∧
      Serves L d₀ st
        (Machine.runTotal FileStore.exec (FileStore.formatted L) (.boot :: calls)).2 := by
  have hstart : Serves L d₀ ⟨L, d₀⟩ (FileStore.formatted L) := ⟨rfl, rfl, _, h₀.represents⟩
  obtain ⟨st, hrun, hserves⟩ :=
    (fsCall_implements h₀ hfuel).run hstart hfits (Machine.run_total FileStore.exec _ calls)
  obtain ⟨L₀, out, hinit⟩ := h₀.init
  have hboot : FsCall.exec fuel ⟨{}, d₀⟩ .boot
      = some ((FileStore.exec (FileStore.formatted L) .boot).1, ⟨L, d₀⟩) := by
    simp only [FsCall.exec, (fat16Init_accepted hinit).2.2 {} d₀ rfl]
    rfl
  exact ⟨st, Machine.run_cons_eq_some.2 ⟨_, _, _, hboot, hrun, rfl⟩, hserves⟩

/-- From a freshly formatted disk on, the driver gives the answers of the store in every run of
    calls, restarts among them, and the disk it leaves holds the files of the store. -/
theorem fat16_implements_fileStore (h₀ : Formatted L d₀) {calls : List FsCall}
    (hfits : ∀ call ∈ calls, call.Fits L) {fuel : ℕ} (hfuel : 2046 < fuel) :
    ∃ d, Machine.run (FsCall.exec fuel) ⟨{}, d₀⟩ (.boot :: calls)
        = some ((Machine.runTotal FileStore.exec (FileStore.formatted L) (.boot :: calls)).1, ⟨L, d⟩) ∧
      ∃ own, Represents L d own
        (Machine.runTotal FileStore.exec (FileStore.formatted L) (.boot :: calls)).2 := by
  obtain ⟨⟨L', d⟩, hrun, rfl, -, hfiles⟩ := FsCall.run_boot h₀ hfits hfuel
  exact ⟨d, hrun, hfiles⟩

/-- A file, a restart, and a file in its place on the image of `build.ps1`. -/
theorem fat16_implements_fileStore_hddImage :
    ∃ d answers, Machine.run (FsCall.exec 2047) ⟨{}, hddImage⟩
        [.boot, .write [0x61] [1, 2, 3], .boot, .write [0x41] [4], .delete [0x62]]
      = some (answers, ⟨hddLayout, d⟩) ∧ answers.length = 5 := by
  have hfits : ∀ call ∈ [FsCall.write [0x61] [1, 2, 3], .boot, .write [0x41] [4], .delete [0x62]],
      call.Fits hddLayout := by
    simp [FsCall.Fits, hddLayout]
  obtain ⟨d, hrun, -⟩ :=
    fat16_implements_fileStore hddImage_formatted hfits (by decide : 2046 < 2047)
  exact ⟨d, _, hrun, rfl⟩

/-- After every run of calls on a freshly formatted disk a name is read as the calls and their
    answers tell: what the last write that returned `0` under a name of the same image has put there,
    unless a delete or a failed write came after it. Restarts make no difference. -/
theorem fat16_reads_as_answered (h₀ : Formatted L d₀) {calls : List FsCall}
    (hfits : ∀ call ∈ calls, call.Fits L) {fuel : ℕ} (hfuel : 2046 < fuel) :
    ∃ answers d, Machine.run (FsCall.exec fuel) ⟨{}, d₀⟩ (.boot :: calls)
        = some (answers, ⟨L, d⟩) ∧
      ∀ (name : List UInt8) (buffer : ℕ → UInt8) (bufSize : ℕ),
        fat16ReadFile fuel L d name buffer bufSize = some
          (readOf (((FsCall.boot :: calls).zip answers).foldl FsCall.record (fun _ => none)
            (toFatName name)) buffer bufSize) := by
  obtain ⟨⟨L', d⟩, hrun, rfl, -, own, hrep⟩ := FsCall.run_boot h₀ hfits hfuel
  refine ⟨_, d, hrun, fun name buffer bufSize => ?_⟩
  have hempty : (FileStore.formatted L').dir.lookup = fun _ => none :=
    funext fun _ => SlotTable.lookup_empty
  rw [hrep.read h₀.usable name buffer bufSize hfuel, FileStore.read, FileStore.lookup_runTotal,
    hempty]

/-- `"a"` is written, and read as `"A"` after a restart. -/
theorem fat16_reads_as_answered_hddImage :
    ∃ answers d, Machine.run (FsCall.exec 2047) ⟨{}, hddImage⟩
        [.boot, .write [0x61] [1, 2, 3], .boot] = some (answers, ⟨hddLayout, d⟩) ∧
      ∀ bufSize, fat16ReadFile 2047 hddLayout d [0x41] (fun _ => 0) bufSize = some
        (readOf (([FsCall.boot, .write [0x61] [1, 2, 3], .boot].zip answers).foldl FsCall.record
          (fun _ => none) (toFatName [0x41])) (fun _ => 0) bufSize) := by
  have hfits : ∀ call ∈ [FsCall.write [0x61] [1, 2, 3], .boot], call.Fits hddLayout := by
    simp [FsCall.Fits, hddLayout]
  obtain ⟨answers, d, hrun, hread⟩ :=
    fat16_reads_as_answered hddImage_formatted hfits (by decide : 2046 < 2047)
  exact ⟨answers, d, hrun, fun bufSize => hread [0x41] _ bufSize⟩

end

end BlackHole
