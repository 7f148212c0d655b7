import BlackHole.Fat16.Layout

set_option autoImplicit false

/-! # The root directory and its names

The directory scans in terms of slots: which slot a name resolves to, which slot is the first free
one, and what the entries the driver writes contain. -/

namespace BlackHole

open Bytes

/-! ## Upper case -/

/-- `a`-`z` -/
def IsLower (c : UInt8) : Prop := 0x61 ≤ c ∧ c ≤ 0x7A

instance (c : UInt8) : Decidable (IsLower c) := inferInstanceAs (Decidable (_ ∧ _))

theorem upperCase_of_not_lower {c : UInt8} (h : ¬ IsLower c) : upperCase c = c := if_neg h

theorem toNat_upperCase_of_lower {c : UInt8} (h : IsLower c) :
    (upperCase c).toNat = c.toNat - 32 := by
  have h1 := UInt8.le_iff_toNat_le.1 h.1
  unfold IsLower at h
  rw [upperCase, if_pos h]
  exact UInt8.toNat_sub_of_le _ _ (UInt8.le_iff_toNat_le.2 (le_trans (by decide) h1))

theorem upperCase_not_lower (c : UInt8) : ¬ IsLower (upperCase c) := by
  by_cases h : IsLower c
  · have hc := toNat_upperCase_of_lower h
    have h2 := UInt8.le_iff_toNat_le.1 h.2
    intro hup
    have h1 := UInt8.le_iff_toNat_le.1 hup.1
    simp at h1 h2
    omega
  · rwa [upperCase_of_not_lower h]

/-- A byte that is no letter is the image of itself only. -/
theorem upperCase_eq_iff {c x : UInt8} (hupper : ¬ (0x41 ≤ x ∧ x ≤ 0x5A)) (hlower : ¬ IsLower x) :
    upperCase c = x ↔ c = x := by
  by_cases h : IsLower c
  · have hup := toNat_upperCase_of_lower h
    have h1 := UInt8.le_iff_toNat_le.1 h.1
    have h2 := UInt8.le_iff_toNat_le.1 h.2
    refine iff_of_false ?_ ?_
    · rintro rfl
      rw [UInt8.le_iff_toNat_le, UInt8.le_iff_toNat_le] at hupper
      simp at h1 h2 hupper
      omega
    · rintro rfl
      exact hlower h
  · rw [upperCase_of_not_lower h]

theorem upperCase_ne_zero {c : UInt8} (hc : c ≠ 0) : upperCase c ≠ 0 := fun h0 =>
  hc ((upperCase_eq_iff (by decide) (by decide)).1 h0)

theorem upperCase_ne_dot {c : UInt8} (hc : c ≠ 0x2E) : upperCase c ≠ 0x2E := fun h0 =>
  hc ((upperCase_eq_iff (by decide) (by decide)).1 h0)

/-! ## Names -/

theorem fatNameMatch_iff {input : List UInt8} {n : FatName} :
    fatNameMatch input n = true ↔ toFatName input = n := by
  simp only [fatNameMatch, List.all_eq_true, List.mem_range, beq_iff_eq]
  exact ⟨fun h => Buf.ext_byte h, fun h i _ => by rw [h]⟩

theorem copyUpper_firstByte_ne_zero (stop : UInt8 → Bool) (limit : ℕ) :
    ∀ (input : List UInt8) (j : ℕ) (out : FatName), out.byte 0 ≠ 0 →
      (copyUpper stop limit input j out).2.byte 0 ≠ 0 := by
  intro input
  induction input with
  | nil => intro j out h; exact h
  | cons c input ih =>
      intro j out h
      rw [copyUpper]
      split
      · next hc =>
          apply ih
          by_cases hj : j = 0
          · subst hj
            rw [Buf.byte_setByte_self (by decide)]
            exact upperCase_ne_zero hc.1
          · rw [Buf.byte_setByte_of_ne (Ne.symm hj)]
            exact h
      · exact h

/-- No name is stored with a first byte of `0x00`, the mark of a never used slot. -/
theorem toFatName_firstByte_ne_zero (input : List UInt8) : (toFatName input).byte 0 ≠ 0 := by
  have hblank : (Buf.ofFn (fun _ => 0x20) : FatName).byte 0 ≠ 0 := by
    rw [Buf.byte_ofFn _ (by decide)]
    decide
  have hbase := copyUpper_firstByte_ne_zero (fun c => c == 0x2E) 8 input 0 _ hblank
  simp only [toFatName]
  split
  · split
    · exact copyUpper_firstByte_ne_zero _ _ _ _ _ hbase
    · exact hbase
  · exact hbase

/-! ## Entries -/

/-- An entry that names a file: neither unused nor deleted. -/
def DirEntry.Live (e : DirEntry) : Prop := e.firstByte ≠ 0x00 ∧ e.firstByte ≠ 0xE5

instance (e : DirEntry) : Decidable e.Live := inferInstanceAs (Decidable (_ ∧ _))

theorem DirEntry.firstByte_eq_name (e : DirEntry) : e.firstByte = e.name.byte 0 := by
  rw [DirEntry.firstByte, DirEntry.name, Buf.byte_slice (by decide)]

theorem newEntry_name (name : List UInt8) (first size : ℕ) :
    (newEntry name first size).name = toFatName name := by
  apply Buf.ext_byte
  intro k hk
  rw [DirEntry.name, Buf.byte_slice hk, newEntry, Buf.byte_setU32_of_outside _ _ (by omega),
    Buf.byte_setU16_of_outside _ _ (by omega), Buf.byte_setByte_of_ne (by omega),
    Buf.byte_splice_of_inside (by omega) hk]

theorem newEntry_firstByte (name : List UInt8) (first size : ℕ) :
    (newEntry name first size).firstByte = (toFatName name).byte 0 := by
  rw [DirEntry.firstByte_eq_name, newEntry_name]

theorem newEntry_firstClusterLo (name : List UInt8) {first : ℕ} (size : ℕ) (h : first < 65536) :
    (newEntry name first size).firstClusterLo = first := by
  rw [DirEntry.firstClusterLo, newEntry, Buf.u16_setU32_of_disjoint _ _ (by omega),
    Buf.u16_setU16_self _ (by decide), Nat.mod_eq_of_lt h]

theorem newEntry_fileSize (name : List UInt8) (first : ℕ) {size : ℕ} (h : size < 4294967296) :
    (newEntry name first size).fileSize = size := by
  rw [DirEntry.fileSize, newEntry, Buf.u32_setU32_self _ (by decide), Nat.mod_eq_of_lt h]

/-- The written entry is live, unless the name itself starts with the mark of a deleted entry. -/
theorem newEntry_live_iff {name : List UInt8} {first size : ℕ} :
    (newEntry name first size).Live ↔ (toFatName name).byte 0 ≠ 0xE5 := by
  rw [DirEntry.Live, newEntry_firstByte]
  exact ⟨fun h => h.2, fun h => ⟨toFatName_firstByte_ne_zero name, h⟩⟩

theorem deletedEntry_firstByte (e : DirEntry) : DirEntry.firstByte (e.setByte 0 0xE5) = 0xE5 := by
  rw [DirEntry.firstByte, Buf.byte_setByte_self (by decide)]

/-! ## Scans -/

/-- Slot `k` is the one `name` resolves to: the first live slot of that name, with no unused slot
    before it. -/
structure ResolvesTo (L : Layout) (d : Disk) (name : List UInt8) (k : ℕ) : Prop where
  slot : k < rootSlots L
  live : (rootEntry L d k).Live
  name_eq : (rootEntry L d k).name = toFatName name
  before : ∀ j < k, (rootEntry L d j).firstByte ≠ 0x00 ∧
    ((rootEntry L d j).firstByte ≠ 0xE5 → (rootEntry L d j).name ≠ toFatName name)

/-- Names with the same image resolve alike. -/
theorem ResolvesTo.of_toFatName_eq {L : Layout} {d : Disk} {name name2 : List UInt8} {k : ℕ}
    (h : ResolvesTo L d name k) (heq : toFatName name2 = toFatName name) :
    ResolvesTo L d name2 k :=
  ⟨h.slot, h.live, h.name_eq.trans heq.symm, by rw [heq]; exact h.before⟩

theorem matchVisit_eq_none {name : List UInt8} {s i : ℕ} {e : DirEntry} :
    matchVisit name s i e = none ↔
      e.firstByte ≠ 0x00 ∧ (e.firstByte ≠ 0xE5 → e.name ≠ toFatName name) := by
  unfold matchVisit
  split_ifs with h0 h5 hm
  · simp [h0]
  · simp [h5]
  · rw [fatNameMatch_iff] at hm
    simp [h5, hm]
  · rw [fatNameMatch_iff] at hm
    simp [h0, Ne.symm hm]

theorem matchVisit_eq_found {name : List UInt8} {s i : ℕ} {e : DirEntry} {r : ℕ × ℕ} :
    matchVisit name s i e = some (some r) ↔
      e.Live ∧ e.name = toFatName name ∧ r = (s, i) := by
  unfold matchVisit DirEntry.Live
  split_ifs with h0 h5 hm
  · simp [h0]
  · simp [h5]
  · rw [fatNameMatch_iff] at hm
    simp [h0, h5, hm, eq_comm]
  · rw [fatNameMatch_iff] at hm
    simp [Ne.symm hm]

theorem findEntry_eq_some_iff {L : Layout} (hL : L.WellFormed) {d : Disk} {name : List UInt8}
    {s i : ℕ} :
    findEntry L d name = some (s, i) ↔
      ∃ k, ResolvesTo L d name k ∧ s = k / entriesPerSector ∧ i = k % entriesPerSector := by
  have hgetD : findEntry L d name = some (s, i) ↔
      rootScan L d (matchVisit name) = some (some (s, i)) := by
    unfold findEntry
    rcases rootScan L d (matchVisit name) with _ | r <;> simp
  rw [hgetD, rootScan_eq hL, Loop.findSome?_range_eq_some]
  constructor
  · rintro ⟨k, hk, hfound, hbefore⟩
    obtain ⟨hlive, hname, heq⟩ := matchVisit_eq_found.1 hfound
    rw [Prod.mk.injEq] at heq
    exact ⟨k, ⟨hk, hlive, hname, fun j hj => matchVisit_eq_none.1 (hbefore j hj)⟩, heq⟩
  · rintro ⟨k, hk, rfl, rfl⟩
    exact ⟨k, hk.slot, matchVisit_eq_found.2 ⟨hk.live, hk.name_eq, rfl⟩,
      fun j hj => matchVisit_eq_none.2 (hk.before j hj)⟩

/-- Nothing is found exactly if the name resolves to no slot. -/
theorem findEntry_eq_none_iff {L : Layout} (hL : L.WellFormed) {d : Disk} {name : List UInt8} :
    findEntry L d name = none ↔ ∀ k, ¬ ResolvesTo L d name k := by
  constructor
  · intro h k hk
    have hfound := (findEntry_eq_some_iff hL).2 ⟨k, hk, rfl, rfl⟩
    rw [h] at hfound
    exact absurd hfound (by simp)
  · intro h
    rcases hf : findEntry L d name with _ | ⟨s, i⟩
    · rfl
    · obtain ⟨k, hk, -⟩ := (findEntry_eq_some_iff hL).1 hf
      exact absurd hk (h k)

theorem ResolvesTo.findEntry_eq {L : Layout} (hL : L.WellFormed) {d : Disk} {name : List UInt8}
    {k : ℕ} (hk : ResolvesTo L d name k) :
    findEntry L d name = some (k / entriesPerSector, k % entriesPerSector) :=
  (findEntry_eq_some_iff hL).2 ⟨k, hk, rfl, rfl⟩

theorem ResolvesTo.unique {L : Layout} {d : Disk} {name : List UInt8} {j k : ℕ}
    (hj : ResolvesTo L d name j) (hk : ResolvesTo L d name k) : j = k := by
  rcases Nat.lt_trichotomy j k with h | h | h
  · exact absurd hj.name_eq ((hk.before j h).2 hj.live.2)
  · exact h
  · exact absurd hk.name_eq ((hj.before k h).2 hk.live.2)

/-- Slot `k` is the first one that is free. -/
structure FirstFree (L : Layout) (d : Disk) (k : ℕ) : Prop where
  slot : k < rootSlots L
  free : ¬ (rootEntry L d k).Live
  before : ∀ j < k, (rootEntry L d j).Live

theorem freeVisit_eq_none {s i : ℕ} {e : DirEntry} : freeVisit s i e = none ↔ e.Live := by
  unfold freeVisit DirEntry.Live
  split_ifs with h
  · simp only [false_iff]
    exact fun hlive => h.elim hlive.1 hlive.2
  · simp only [true_iff]
    exact not_or.1 h

theorem rootScan_freeVisit_eq_some {L : Layout} (hL : L.WellFormed) {d : Disk} {s i : ℕ} :
    rootScan L d freeVisit = some (s, i) ↔
      ∃ k, FirstFree L d k ∧ s = k / entriesPerSector ∧ i = k % entriesPerSector := by
  rw [rootScan_eq hL, Loop.findSome?_range_eq_some]
  have hfound : ∀ k, freeVisit (k / entriesPerSector) (k % entriesPerSector) (rootEntry L d k)
      = some (s, i) ↔
      ¬ (rootEntry L d k).Live ∧ s = k / entriesPerSector ∧ i = k % entriesPerSector := by
    intro k
    unfold freeVisit DirEntry.Live
    split_ifs with h
    · rw [Option.some.injEq, Prod.mk.injEq, and_iff_right fun hlive => h.elim hlive.1 hlive.2]
      exact and_congr eq_comm eq_comm
    · simp only [false_iff]
      exact fun hfree => hfree.1 (not_or.1 h)
  constructor
  · rintro ⟨k, hk, hf, hbefore⟩
    obtain ⟨hfree, hsi⟩ := (hfound k).1 hf
    exact ⟨k, ⟨hk, hfree, fun j hj => freeVisit_eq_none.1 (hbefore j hj)⟩, hsi⟩
  · rintro ⟨k, hk, hsi⟩
    exact ⟨k, hk.slot, (hfound k).2 ⟨hk.free, hsi⟩, fun j hj => freeVisit_eq_none.2 (hk.before j hj)⟩

theorem rootScan_freeVisit_eq_none {L : Layout} (hL : L.WellFormed) {d : Disk} :
    rootScan L d freeVisit = none ↔ ∀ k < rootSlots L, (rootEntry L d k).Live := by
  rw [rootScan_eq hL, Loop.findSome?_range_eq_none]
  exact forall_congr' fun k => imp_congr_right fun _ => freeVisit_eq_none

theorem FirstFree.unique {L : Layout} {d : Disk} {j k : ℕ} (hj : FirstFree L d j)
    (hk : FirstFree L d k) : j = k := by
  rcases Nat.lt_trichotomy j k with h | h | h
  · exact absurd (hk.before j h) hj.free
  · exact h
  · exact absurd (hj.before k h) hk.free

end BlackHole
