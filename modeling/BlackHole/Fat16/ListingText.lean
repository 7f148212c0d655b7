import BlackHole.Fat16.Scanners

set_option autoImplicit false

/-! # What the listing shows

The characters `fat16_list_root` sends to the screen. Its format asks `printf` for a conversion `%-13s`
that `printf` does not have: that is printed as it stands and takes no argument, so the `%u` behind
it takes the address of the name (`listLine_sent`). An entry's name and size are shown only by
coincidence (`showsEntry_iff`). -/

namespace BlackHole

/-! ## The line of an entry -/

/-- What is sent for an entry whose name lies at the address `addr`. -/
def listText (addr : ℕ) : List UInt8 := cstr "  %-13s " ++ numeral 10 addr ++ cstr " bytes\n"

/-- The format of a line, conversion by conversion. -/
theorem prints_listLine {va : VaList} (hlt : va.words 0 < 4294967296) :
    Prints (charPtr (cstr "  %-13s %u bytes\n")) va 0 0 (listText (va.words 0)) 15 := by
  have hend : Prints (charPtr (cstr "  %-13s %u bytes\n")) va 17 1 [] 0 := prints_nil (by decide)
  have hbytes := prints_append (l := cstr " bytes\n") (by decide) (i := 10) (by decide) hend
  have hsize := prints_conversion (i := 8) (by decide) (c := 0x75) (by decide)
    (conversion_unsigned va.strings hlt) hbytes
  have hwidth := prints_append (l := cstr "13s ") (by decide) (i := 4) (by decide) hsize
  -- an unknown conversion takes no argument
  have hminus := prints_conversion (i := 2) (by decide) (c := 0x2D) (by decide)
    (show conversion va.strings 0x2D (va.words 0) = ⟨[0x25, 0x2D], 2, 0⟩ from rfl) hwidth
  have hline := prints_append (l := cstr "  ") (by decide) (i := 0) (by decide) hminus
  have htext : listText (va.words 0) = cstr "  " ++ ([0x25, 0x2D] ++ (cstr "13s " ++
      (numeral 10 (va.words 0) ++ (cstr " bytes\n" ++ [])))) := by
    rw [listText, List.append_nil, ← List.append_assoc, ← List.append_assoc, ← List.append_assoc]
    rfl
  rw [htext]
  exact hline

theorem listLine_sent {va : VaList} (hlt : va.words 0 < 4294967296) (e : DirEntry) :
    ∀ fuel, 15 < fuel → (listLine e).sent fuel va = some (listText (va.words 0)) :=
  (prints_listLine hlt).sent _

/-! ## Name and size -/

/-- The 8.3 name of an entry: the base, and a dot and the extension where that is not blank. -/
def shortName (n : FatName) : List UInt8 :=
  let base := ((List.range 8).map n.byte).filter (· ≠ 0x20)
  let ext := ((List.range' 8 3).map n.byte).filter (· ≠ 0x20)
  if ext = [] then base else base ++ 0x2E :: ext

/-- The text contains the entry's name and behind it the entry's size. -/
def ShowsEntry (e : DirEntry) (text : List UInt8) : Prop :=
  ∃ a b c, text = a ++ shortName e.name ++ b ++ numeral 10 e.fileSize ++ cstr " bytes" ++ c

/-- The numeral of the address ends in that of the size, and what stands before that on the line
    contains the name. -/
def Coincides (e : DirEntry) (addr : ℕ) : Prop :=
  ∃ lead, numeral 10 addr = lead ++ numeral 10 e.fileSize ∧
    shortName e.name <:+: cstr "  %-13s " ++ lead

/-- A list without blanks at the end of a text that has a blank before `t` is the end of `t`. -/
theorem eq_append_of_no_blank {p s t u : List UInt8} (hs : (0x20 : UInt8) ∉ s)
    (h : u ++ s = (p ++ [0x20]) ++ t) : ∃ lead, t = lead ++ s ∧ u = p ++ [0x20] ++ lead := by
  rcases List.append_eq_append_iff.1 h with ⟨v, hv, rfl⟩ | ⟨v, rfl, rfl⟩
  · rcases List.eq_nil_or_concat' v with rfl | ⟨v, c, rfl⟩
    · exact ⟨[], rfl, by simpa using hv.symm⟩
    · rw [← List.append_assoc] at hv
      obtain ⟨-, rfl⟩ := List.append_inj' hv rfl |>.imp id List.singleton_inj.1
      simp at hs
  · exact ⟨v, rfl, rfl⟩

theorem showsEntry_iff {e : DirEntry} {addr : ℕ} :
    ShowsEntry e (listText addr) ↔ Coincides e addr := by
  have hdigits : ∀ {n : ℕ} {c : UInt8}, ¬ (0x30 ≤ c ∧ c ≤ 0x39) → c ∉ numeral 10 n :=
    fun hc hmem => hc (mem_numeral_ten hmem)
  constructor
  · rintro ⟨a, b, c, htext⟩
    have hl : cstr " bytes\n" = 0x20 :: 0x62 :: cstr "ytes\n" := rfl
    have hr : cstr " bytes" = 0x20 :: 0x62 :: cstr "ytes" := rfl
    have hsplit : (cstr "  %-13s " ++ numeral 10 addr ++ [0x20]) ++ 0x62 :: cstr "ytes\n"
        = (a ++ shortName e.name ++ b ++ numeral 10 e.fileSize ++ [0x20])
          ++ 0x62 :: (cstr "ytes" ++ c) := by
      rw [listText, hl, hr] at htext
      simpa only [List.append_assoc, List.cons_append, List.nil_append] using htext
    -- the only `b` on the line is the one at its end
    have hb : (0x62 : UInt8) ∉ cstr "  %-13s " ++ numeral 10 addr ++ [0x20] := by
      simp only [List.mem_append, not_or]
      exact ⟨⟨by decide, hdigits (by decide)⟩, by decide⟩
    obtain ⟨hline, -, -⟩ := (List.append_cons_inj_of_notMem hb (by decide)).1 hsplit
    have hP : cstr "  %-13s " = cstr "  %-13s" ++ [0x20] := rfl
    obtain ⟨lead, hnum, hlead⟩ := eq_append_of_no_blank (hdigits (by decide))
      ((List.append_cancel_right hline).symm.trans (by rw [hP]))
    exact ⟨lead, hnum, a, b, hlead⟩
  · rintro ⟨lead, hnum, a, b, hname⟩
    have hl : cstr " bytes\n" = cstr " bytes" ++ cstr "\n" := rfl
    refine ⟨a, b, cstr "\n", ?_⟩
    rw [listText, hnum, hl, hname]
    simp only [List.append_assoc]

/-! ## The listing -/

/-- The `n`-th call of the listing is for the `n`-th listed slot, and what it sends shows the entry;
    `va n` is what that call finds behind its format. -/
def ListingShows (L : Layout) (d : Disk) (va : ℕ → VaList) : Prop :=
  ∀ n k, (listedSlots L d)[n]? = some k →
    ∃ (o : Output) (text : List UInt8) (bound : ℕ), (fat16ListRoot L d)[n]? = some o ∧
      (∀ fuel, bound < fuel → o.sent fuel (va n) = some text) ∧ ShowsEntry (rootEntry L d k) text

theorem fat16ListRoot_getElem? {L : Layout} (hL : L.WellFormed) {d : Disk} {n k : ℕ}
    (h : (listedSlots L d)[n]? = some k) :
    (fat16ListRoot L d)[n]? = some (listLine (rootEntry L d k)) := by
  have hne : listedSlots L d ≠ [] := by
    intro hnil
    simp [hnil] at h
  rw [fat16ListRoot_eq hL, if_neg hne, List.getElem?_map, h]
  rfl

theorem Output.sent_fuelMono (o : Output) (va : VaList) : Loop.FuelMono fun fuel => o.sent fuel va := by
  cases o with
  | printf format args => exact ((Loop.FuelMono.iterate _ _).map _).map _
  | setColor fg bg => exact Loop.FuelMono.const _
  | clear => exact Loop.FuelMono.const _

/-- What the call for a listed slot sends is determined, so that it shows the entry only if name and
    size coincide with what is printed in their place. -/
theorem ListingShows.coincides {L : Layout} (hL : L.WellFormed) {d : Disk} {va : ℕ → VaList}
    (h : ListingShows L d va) {n k : ℕ} (hk : (listedSlots L d)[n]? = some k)
    (hlt : (va n).words 0 < 4294967296) : Coincides (rootEntry L d k) ((va n).words 0) := by
  obtain ⟨o, text, bound, ho, hrun, hshows⟩ := h n k hk
  obtain rfl : listLine (rootEntry L d k) = o :=
    Option.some.inj ((fat16ListRoot_getElem? hL hk).symm.trans ho)
  have heq := (Output.sent_fuelMono _ _).unique (hrun _ (Nat.lt_succ_self _))
    (listLine_sent hlt (rootEntry L d k))
  exact showsEntry_iff.1 (heq ▸ hshows)

/-- The listing shows the name and the size of each entry exactly if, for each, the numeral of the
    address of `name` ends in that of the size and the name occurs in what stands before that. -/
theorem fat16_listing_shows_iff {L : Layout} {d₀ : Disk} {ret : ℤ} {out : Output}
    (hinit : fat16Init {} d₀ = (ret, L, out)) (d : Disk) (va : ℕ → VaList)
    (hva : ∀ n o, (fat16ListRoot L d)[n]? = some o → (va n).Holds o.args) :
    ListingShows L d va ↔ ∀ n k, (listedSlots L d)[n]? = some k →
      Coincides (rootEntry L d k) ((va n).words 0) := by
  have hL := (fat16Init_boot hinit).1
  have hlt : ∀ n k, (listedSlots L d)[n]? = some k → (va n).words 0 < 4294967296 :=
    fun n k hk => (hva n _ (fat16ListRoot_getElem? hL hk)).words_lt 0
  constructor
  · intro h n k hk
    exact h.coincides hL hk (hlt n k hk)
  · intro h n k hk
    exact ⟨_, _, 15, fat16ListRoot_getElem? hL hk, listLine_sent (hlt n k hk) _,
      showsEntry_iff.2 (h n k hk)⟩

/-! ## One file -/

/-- The arguments of the line for a file of this name and size, the name at the address `0x8F000`. -/
def listArgs (name : List UInt8) (size : ℕ) : VaList :=
  { words := fun j => if j = 0 then 0x8F000 else if j = 1 then size else 0
    strings := fun _ => name }

theorem listArgs_holds (name : List UInt8) {size : ℕ} (hsize : size < 4294967296) :
    (listArgs name size).Holds [.str (some name), .word size] := by
  refine ⟨fun j => ?_, fun j w hj => ?_, fun j hj => ?_, fun j s hj => ?_⟩
  · simp only [listArgs]
    split_ifs
    exacts [by decide, hsize, by decide]
  · match j with
    | 0 => simp at hj
    | 1 => simpa [listArgs] using hj
    | j + 2 => simp at hj
  · match j with
    | 0 => simp at hj
    | 1 => simp at hj
    | j + 2 => simp at hj
  · match j with
    | 0 => exact ⟨show 0x8F000 ≠ 0 by decide, by simpa [listArgs] using hj⟩
    | 1 => simp at hj
    | j + 2 => simp at hj

/-- Where a listing is a single line, its arguments lie behind every call of it. -/
theorem listArgs_holds_single {L : Layout} {d : Disk} {format : String} {name : List UInt8}
    {size : ℕ} (hlist : fat16ListRoot L d = [.printf format [.str (some name), .word size]])
    (hsize : size < 4294967296) (n : ℕ) (o : Output) (ho : (fat16ListRoot L d)[n]? = some o) :
    (listArgs name size).Holds o.args := by
  rw [hlist, List.getElem?_singleton] at ho
  split at ho
  · obtain rfl := Option.some.inj ho
    exact listArgs_holds name hsize
  · simp at ho

/-- The image of `build.ps1` with the file `"13"` of 28 bytes. -/
def coincidingImage : Disk := setRootEntry hddLayout hddImage 0 (newEntry (cstr "13") 0 28)

/-- `"  %-13s 585728 bytes"` happens to show a file `"13"` of 28 bytes. -/
theorem fat16_listing_shows_coincidingImage :
    ListingShows hddLayout coincidingImage (fun _ => listArgs (cstr "13") 28) := by
  have hlist : fat16ListRoot hddLayout coincidingImage
      = [.printf "  %-13s %u bytes\n" [.str (some (cstr "13")), .word 28]] := by decide +kernel
  have hlisted : listedSlots hddLayout coincidingImage = [0] := by decide +kernel
  refine (fat16_listing_shows_iff fat16Init_hddImage _ _ fun n =>
    listArgs_holds_single hlist (by decide) n).2 fun n k hk => ?_
  rw [hlisted, List.getElem?_singleton] at hk
  split at hk
  · obtain rfl := Option.some.inj hk
    exact ⟨cstr "5857", by decide +kernel, cstr "  %-", cstr "s 5857", by decide +kernel⟩
  · simp at hk

theorem attrImage_list : fat16ListRoot hddLayout (attrImage fat16AttrArchive)
    = [.printf "  %-13s %u bytes\n" [.str (some [0x41]), .word 5]] := by decide +kernel

theorem attrImage_listed : listedSlots hddLayout (attrImage fat16AttrArchive) = [0] := by
  decide +kernel

/-- The file `"A"` of 5 bytes is listed as a line without its name and without its size. -/
theorem fat16_listing_hides_attrImage :
    (∀ (n : ℕ) (o : Output),
      (fat16ListRoot hddLayout (attrImage fat16AttrArchive))[n]? = some o →
        (listArgs [0x41] 5).Holds o.args ∧ o.sent 16 (listArgs [0x41] 5) = some (cstr "  %-13s 585728 bytes\n")) ∧
    ¬ ListingShows hddLayout (attrImage fat16AttrArchive) fun _ => listArgs [0x41] 5 := by
  refine ⟨fun n o ho => ⟨listArgs_holds_single attrImage_list (by decide) n o ho, ?_⟩, fun h => ?_⟩
  · rw [attrImage_list, List.getElem?_singleton] at ho
    split at ho
    · obtain rfl := Option.some.inj ho
      have hsent := (prints_listLine (show (listArgs [0x41] 5).words 0 < 4294967296 by decide)).sent
        [.str (some [0x41]), .word 5] 16 (by decide)
      rw [hsent]
      decide +kernel
    · simp at ho
  · have hslot : (listedSlots hddLayout (attrImage fat16AttrArchive))[0]? = some 0 := by
      rw [attrImage_listed]
      rfl
    obtain ⟨lead, hnum, hname⟩ :=
      h.coincides hddImage_formatted.usable.toWellFormed hslot (by decide)
    have hshort : shortName (rootEntry hddLayout (attrImage fat16AttrArchive) 0).name = [0x41] := by
      rw [attrImage_rootEntry_name]
      decide
    have hmem : (0x41 : UInt8) ∈ cstr "  %-13s " ++ lead :=
      hname.subset (by rw [hshort]; exact List.mem_singleton.2 rfl)
    rcases List.mem_append.1 hmem with hc | hc
    · exact absurd hc (by decide)
    · exact absurd (mem_numeral_ten (hnum ▸ List.mem_append_left _ hc)) (by decide)

end BlackHole
