import BlackHole.Fat16.Names
import BlackHole.Fat16.Listing
import BlackHole.Fat16.Formatting
import BlackHole.Fat16.ClusterCount

set_option autoImplicit false

/-! # The scanners of the root directory

`fat16_list_root` against the scan of `fat16_read_file` and `fat16_delete_file`: which slots the one
lists (`fat16ListRoot_eq`), which ones the other can find by some name (`resolvable_iff`), and for
which directories both are the files (`scannersAgree_iff`). -/

namespace BlackHole

open Bytes

/-! ## What is listed -/

/-- The entries `fat16_list_root` does not pass over. -/
def DirEntry.Shown (e : DirEntry) : Prop :=
  e.firstByte ≠ 0xE5 ∧ e.attr &&& fat16AttrVolumeId = 0 ∧ e.attr &&& fat16AttrLongName = 0

instance (e : DirEntry) : Decidable e.Shown := inferInstanceAs (Decidable (_ ∧ _ ∧ _))

/-- The call of `printf` for one entry. -/
def listLine (e : DirEntry) : Output :=
  .printf "  %-13s %u bytes\n" [.str (some (displayName e.name)), .word e.fileSize]

/-- The slots before the first unused one. -/
def usedSlots (L : Layout) (d : Disk) : List ℕ :=
  (List.range (rootSlots L)).takeWhile fun k => (rootEntry L d k).firstByte ≠ 0x00

/-- The slots that are listed, in directory order. -/
def listedSlots (L : Layout) (d : Disk) : List ℕ :=
  (usedSlots L d).filter fun k => (rootEntry L d k).Shown

theorem listEntry_of_unused {st : ListState} {e : DirEntry} (h : e.firstByte = 0x00) :
    listEntry st e = .error st := if_pos h

theorem listEntry_of_shown {st : ListState} {e : DirEntry} (h : e.firstByte ≠ 0x00)
    (hs : e.Shown) : listEntry st e = .ok ⟨st.fileCount + 1, st.out ++ [listLine e]⟩ := by
  obtain ⟨h5, hvol, hlong⟩ := hs
  simp only [listEntry]
  rw [if_neg h, if_neg h5, if_neg (not_not.2 hvol), if_neg (not_not.2 hlong)]
  rfl

theorem listEntry_of_not_shown {st : ListState} {e : DirEntry} (h : e.firstByte ≠ 0x00)
    (hs : ¬ e.Shown) : listEntry st e = .ok st := by
  simp only [listEntry]
  rw [if_neg h]
  split_ifs with h5 hvol hlong
  · rfl
  · rfl
  · rfl
  · exact absurd ⟨h5, not_not.1 hvol, not_not.1 hlong⟩ hs

/-- The state the scan ends in, be it at the end of the directory or at the first unused slot. -/
def settled (r : Except ListState ListState) : ListState :=
  match r with
  | .ok st => st
  | .error st => st

/-- The scan prints a line for each entry shown before the first unused one. -/
theorem listEntry_foldlM (e : ℕ → DirEntry) (ks : List ℕ) (st : ListState) :
    settled (ks.foldlM (fun st k => listEntry st (e k)) st)
      = ⟨st.fileCount + ((ks.takeWhile fun k => (e k).firstByte ≠ 0x00).filter
            fun k => (e k).Shown).length,
          st.out ++ ((ks.takeWhile fun k => (e k).firstByte ≠ 0x00).filter
            fun k => (e k).Shown).map fun k => listLine (e k)⟩ := by
  induction ks generalizing st with
  | nil => simp [settled, pure, Except.pure]
  | cons k ks ih =>
      rw [List.foldlM_cons]
      by_cases h0 : (e k).firstByte = 0x00
      · rw [listEntry_of_unused h0, List.takeWhile_cons_of_neg (by simp [h0])]
        simp [settled, bind, Except.bind]
      · rw [List.takeWhile_cons_of_pos (by simp [h0])]
        by_cases hs : (e k).Shown
        · rw [listEntry_of_shown h0 hs, List.filter_cons_of_pos (by simp [hs])]
          refine (ih ⟨st.fileCount + 1, st.out ++ [listLine (e k)]⟩).trans ?_
          simp only [List.length_cons, List.map_cons, List.append_assoc, List.singleton_append,
            ListState.mk.injEq, and_true]
          omega
        · rw [listEntry_of_not_shown h0 hs, List.filter_cons_of_neg (by simp [hs])]
          exact ih st

/-- `fat16_list_root` prints one line for each listed slot, in order, and says so if there is none. -/
theorem fat16ListRoot_eq {L : Layout} (hL : L.WellFormed) (d : Disk) :
    fat16ListRoot L d
      = if listedSlots L d = [] then [.printf "  (empty directory)\n" []]
        else (listedSlots L d).map fun k => listLine (rootEntry L d k) := by
  have hsec := hL.rootDirSectors_eq
  have hcount := hL.rootEntryCount_lt
  have hscan : (List.range L.rootDirSectors).foldlM (fun st s =>
        (List.range entriesPerSector).foldlM (fun st i =>
          listEntry st (sectorEntry (ataReadSector d (u32 (L.rootDirStartLba + s))) i)) st)
        (⟨0, []⟩ : ListState)
      = (List.range (rootSlots L)).foldlM (fun st k => listEntry st (rootEntry L d k)) ⟨0, []⟩ := by
    refine Eq.trans ?_ (Loop.foldlM_range_nested L.rootDirSectors (fun st s i =>
      listEntry st (sectorEntry (d (L.rootDirStartLba + s)) i)) _)
    apply Loop.foldlM_congr
    intro st s hs
    rw [List.mem_range] at hs
    simp only [ataReadSector]
    rw [u32_rootDirStart_add hL (by omega)]
  have hrun := listEntry_foldlM (rootEntry L d) (List.range (rootSlots L)) ⟨0, []⟩
  simp only [fat16ListRoot, hscan]
  change (if (settled _).fileCount = 0 then (settled _).out ++ _ else (settled _).out) = _
  rw [hrun]
  simp only [Nat.zero_add, List.nil_append]
  change (if (listedSlots L d).length = 0 then _ else _) = _
  by_cases hnil : listedSlots L d = []
  · rw [if_pos (List.length_eq_zero_iff.2 hnil), if_pos hnil]
    change ((listedSlots L d).map _) ++ _ = _
    rw [hnil]
    rfl
  · rw [if_neg (mt List.length_eq_zero_iff.1 hnil), if_neg hnil]
    rfl

/-! ## Which slots a scan comes to -/

/-- Slot `k` stands before the first unused one and is not deleted. -/
structure Scanned (L : Layout) (d : Disk) (k : ℕ) : Prop where
  slot : k < rootSlots L
  used : ∀ j ≤ k, (rootEntry L d j).firstByte ≠ 0x00
  kept : (rootEntry L d k).firstByte ≠ 0xE5

theorem mem_listedSlots {L : Layout} {d : Disk} {k : ℕ} :
    k ∈ listedSlots L d ↔ Scanned L d k ∧ (rootEntry L d k).attr &&& fat16AttrVolumeId = 0 ∧
      (rootEntry L d k).attr &&& fat16AttrLongName = 0 := by
  rw [listedSlots, List.mem_filter, usedSlots, Loop.mem_takeWhile_range]
  simp only [decide_eq_true_eq]
  exact ⟨fun ⟨⟨hk, hused⟩, h5, hattr⟩ => ⟨⟨hk, hused, h5⟩, hattr⟩,
    fun ⟨hs, hattr⟩ => ⟨⟨hs.slot, hs.used⟩, hs.kept, hattr⟩⟩

/-- No slot before `k` that a scan comes to has the name of slot `k`. -/
def FirstOfName (L : Layout) (d : Disk) (k : ℕ) : Prop :=
  ∀ j < k, Scanned L d j → (rootEntry L d j).name ≠ (rootEntry L d k).name

/-- `fat16_read_file` and `fat16_delete_file` can be made to find slot `k`. -/
def Resolvable (L : Layout) (d : Disk) (k : ℕ) : Prop :=
  ∃ name, findEntry L d name = some (k / entriesPerSector, k % entriesPerSector)

theorem resolvesTo_iff_scanned {L : Layout} {d : Disk} {name : List UInt8} {k : ℕ} :
    ResolvesTo L d name k ↔
      Scanned L d k ∧ (rootEntry L d k).name = toFatName name ∧ FirstOfName L d k := by
  constructor
  · rintro ⟨hk, hlive, hname, hbefore⟩
    refine ⟨⟨hk, fun j hj => ?_, hlive.2⟩, hname, fun j hj hs => ?_⟩
    · rcases Nat.lt_or_eq_of_le hj with hlt | rfl
      · exact (hbefore j hlt).1
      · exact hlive.1
    · rw [hname]
      exact (hbefore j hj).2 hs.kept
  · rintro ⟨hs, hname, hfirst⟩
    refine ⟨hs.slot, ⟨hs.used k le_rfl, hs.kept⟩, hname, fun j hj => ⟨hs.used j hj.le, fun h5 => ?_⟩⟩
    rw [← hname]
    exact hfirst j hj ⟨by have := hs.slot; omega, fun i hi => hs.used i (by omega), h5⟩

/-- A slot can be found exactly if some input denotes its name and no slot before it has that name;
    its attributes do not matter. -/
theorem resolvable_iff {L : Layout} (hL : L.WellFormed) {d : Disk} {k : ℕ} :
    Resolvable L d k ↔
      Scanned L d k ∧ Nameable (rootEntry L d k).name ∧ FirstOfName L d k := by
  have hfind : ∀ name, findEntry L d name = some (k / entriesPerSector, k % entriesPerSector) ↔
      ResolvesTo L d name k := by
    intro name
    rw [findEntry_eq_some_iff hL]
    refine ⟨fun ⟨j, hj, hdiv, hmod⟩ => ?_, fun hk => ⟨k, hk, rfl, rfl⟩⟩
    obtain rfl : j = k := by
      rw [← Nat.div_add_mod j entriesPerSector, ← Nat.div_add_mod k entriesPerSector, hdiv, hmod]
    exact hj
  simp only [Resolvable, hfind, resolvesTo_iff_scanned, nameable_iff]
  constructor
  · rintro ⟨name, hs, hname, hfirst⟩
    exact ⟨hs, ⟨name, hname.symm⟩, hfirst⟩
  · rintro ⟨hs, ⟨name, hname⟩, hfirst⟩
    exact ⟨name, hs, hname.symm, hfirst⟩

/-! ## Agreement -/

/-- The file entries: used, not deleted, no volume label and no part of a long name. -/
def IsFile (L : Layout) (d : Disk) (k : ℕ) : Prop :=
  Scanned L d k ∧ (rootEntry L d k).attr &&& fat16AttrVolumeId = 0 ∧
    (rootEntry L d k).attr &&& fat16AttrLongName ≠ fat16AttrLongName

/-- The listing and the scan by name both come to exactly the files. -/
def ScannersAgree (L : Layout) (d : Disk) : Prop :=
  (∀ k, k ∈ listedSlots L d ↔ IsFile L d k) ∧ ∀ k, Resolvable L d k ↔ IsFile L d k

/-- The bits `FAT16_ATTR_READ_ONLY`, `FAT16_ATTR_HIDDEN` and `FAT16_ATTR_SYSTEM`. -/
def fat16AttrProtected : UInt8 := 0x07

theorem attr_longName_ne {a : UInt8} (h : a &&& fat16AttrVolumeId = 0) :
    a &&& fat16AttrLongName ≠ fat16AttrLongName := by
  intro hlong
  have hvol : a &&& fat16AttrLongName &&& fat16AttrVolumeId = a &&& fat16AttrVolumeId := by
    rw [UInt8.and_assoc]
    rfl
  rw [hlong, h] at hvol
  exact absurd hvol (by decide)

theorem attr_longName_eq_zero_iff {a : UInt8} (h : a &&& fat16AttrVolumeId = 0) :
    a &&& fat16AttrLongName = 0 ↔ a &&& fat16AttrProtected = 0 := by
  have hsplit : a &&& fat16AttrLongName
      = (a &&& fat16AttrVolumeId) ||| (a &&& fat16AttrProtected) := by
    apply UInt8.toBitVec_inj.1
    rw [UInt8.toBitVec_or, UInt8.toBitVec_and, UInt8.toBitVec_and, UInt8.toBitVec_and,
      ← BitVec.and_or_distrib_left]
    rfl
  rw [hsplit, h, UInt8.zero_or]

/-- `fat16_list_root` prints the listed slots in directory order, and they and the slots that can be
    found by name are the files exactly if no file carries a protection bit, every file has a name
    that some input denotes and is the first of that name, and no volume label or part of a long
    name is. -/
theorem fat16_scanners_agree_iff {L : Layout} {d₀ : Disk} {ret : ℤ} {out : Output}
    (hinit : fat16Init {} d₀ = (ret, L, out)) (d : Disk) :
    fat16ListRoot L d
        = (if listedSlots L d = [] then [.printf "  (empty directory)\n" []]
          else (listedSlots L d).map fun k => listLine (rootEntry L d k)) ∧
    (ScannersAgree L d ↔ ∀ k, Scanned L d k →
      if (rootEntry L d k).attr &&& fat16AttrVolumeId = 0 then
        (rootEntry L d k).attr &&& fat16AttrProtected = 0 ∧
          Nameable (rootEntry L d k).name ∧ FirstOfName L d k
      else ¬ (Nameable (rootEntry L d k).name ∧ FirstOfName L d k)) := by
  have hL := (fat16Init_boot hinit).1
  refine ⟨fat16ListRoot_eq hL d, ?_⟩
  unfold ScannersAgree
  rw [← forall_and]
  refine forall_congr' fun k => ?_
  rw [mem_listedSlots, resolvable_iff hL, IsFile]
  by_cases hs : Scanned L d k
  · by_cases hvol : (rootEntry L d k).attr &&& fat16AttrVolumeId = 0
    · have hlong := attr_longName_ne hvol
      rw [attr_longName_eq_zero_iff hvol, if_pos hvol]
      simp only [hs, hvol, hlong, true_and, ne_eq, not_false_eq_true, and_true, iff_true,
        forall_const]
    · rw [if_neg hvol]
      simp only [hs, hvol, true_and, false_and, iff_false, forall_const]
  · simp only [hs, false_and, iff_self, true_and, false_implies]

/-- The image of `build.ps1` with one entry: the file `"A"` of 5 bytes with the attributes `attr`. -/
def attrImage (attr : UInt8) : Disk :=
  setRootEntry hddLayout hddImage 0 ((newEntry [0x41] 0 5).setByte 11 attr)

theorem attrImage_rootEntry_zero (attr : UInt8) :
    rootEntry hddLayout (attrImage attr) 0 = (newEntry [0x41] 0 5).setByte 11 attr := by
  rw [attrImage, rootEntry_setRootEntry, if_pos rfl]

theorem attrImage_rootEntry_attr (attr : UInt8) :
    (rootEntry hddLayout (attrImage attr) 0).attr = attr := by
  rw [attrImage_rootEntry_zero]
  exact Buf.byte_setByte_self (by decide)

theorem attrImage_rootEntry_name (attr : UInt8) :
    (rootEntry hddLayout (attrImage attr) 0).name = toFatName [0x41] := by
  rw [attrImage_rootEntry_zero, ← newEntry_name [0x41] 0 5]
  apply Buf.ext_byte
  intro k hk
  rw [DirEntry.name, DirEntry.name, Buf.byte_slice hk, Buf.byte_slice hk,
    Buf.byte_setByte_of_ne (by omega)]

/-- The second slot is unused. -/
theorem attrImage_scanned_iff {attr : UInt8} {k : ℕ} :
    Scanned hddLayout (attrImage attr) k ↔ k = 0 := by
  constructor
  · rintro ⟨-, hused, -⟩
    by_contra hk
    refine hused 1 (by omega) ?_
    rw [attrImage, rootEntry_setRootEntry, if_neg (by decide)]
    exact hddImage_formatted.root_zero 1 (by decide) 0 (by decide)
  · rintro rfl
    refine ⟨by decide, fun j hj => ?_, ?_⟩
    · obtain rfl : j = 0 := by omega
      rw [DirEntry.firstByte_eq_name, attrImage_rootEntry_name]
      decide
    · rw [DirEntry.firstByte_eq_name, attrImage_rootEntry_name]
      decide

theorem attrImage_nameable (attr : UInt8) :
    Nameable (rootEntry hddLayout (attrImage attr) 0).name := by
  rw [attrImage_rootEntry_name]
  exact toFatName_nameable _

/-- On the directory with one archived file. -/
theorem fat16_scanners_agree_attrImage : ScannersAgree hddLayout (attrImage fat16AttrArchive) := by
  refine (fat16_scanners_agree_iff fat16Init_hddImage _).2.2 fun k hk => ?_
  obtain rfl := attrImage_scanned_iff.1 hk
  rw [attrImage_rootEntry_attr, if_pos (by decide)]
  exact ⟨by decide, attrImage_nameable _, fun j hj => absurd hj (by omega)⟩

/-- A file with the read-only bit can be read but is not listed; a volume label is neither, and can
    be opened and deleted by its name. -/
theorem fat16_scanners_disagree :
    (¬ ScannersAgree hddLayout (attrImage 0x21) ∧ IsFile hddLayout (attrImage 0x21) 0 ∧
      fat16ListRoot hddLayout (attrImage 0x21) = [.printf "  (empty directory)\n" []]) ∧
    ¬ ScannersAgree hddLayout (attrImage 0x08) ∧ ¬ IsFile hddLayout (attrImage 0x08) 0 ∧
      (fat16ReadFile 1 hddLayout (attrImage 0x08) [0x41] (fun _ => 0) 1).map Prod.fst = some 0 ∧
      (fat16DeleteFile 1 hddLayout (attrImage 0x08) [0x41]).map Prod.fst = some 0 := by
  have hfile : IsFile hddLayout (attrImage 0x21) 0 :=
    ⟨attrImage_scanned_iff.2 rfl, by rw [attrImage_rootEntry_attr]; decide,
      by rw [attrImage_rootEntry_attr]; decide⟩
  have hlabel : ¬ IsFile hddLayout (attrImage 0x08) 0 := by
    rintro ⟨-, hvol, -⟩
    rw [attrImage_rootEntry_attr] at hvol
    exact absurd hvol (by decide)
  refine ⟨⟨fun h => ?_, hfile, by decide +kernel⟩, fun h => ?_, hlabel, by decide +kernel,
    by decide +kernel⟩
  · have hlong := (mem_listedSlots.1 ((h.1 0).2 hfile)).2.2
    rw [attrImage_rootEntry_attr] at hlong
    exact absurd hlong (by decide)
  · refine hlabel ((h.2 0).1 ((resolvable_iff hddImage_formatted.usable.toWellFormed).2 ?_))
    exact ⟨attrImage_scanned_iff.2 rfl, attrImage_nameable _, fun j hj => absurd hj (by omega)⟩

end BlackHole
