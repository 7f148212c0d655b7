import BlackHole.Fat16.Names
import Mathlib.Data.List.TakeWhile

set_option autoImplicit false

/-! # The two fields of a name

A typed name has a base and, behind its first dot, an extension; the image of a name on the disk is a
field of 8 bytes for the one and a field of 3 for the other. `to_fat_name` looks for the dot where it
stops copying the base. Behind a base of more than 8 characters that is not the place of the dot, and
the extension is lost (`fields_toFatName`). -/

namespace BlackHole

open Bytes

/-! ## Typed names and their fields -/

/-- A name as it is typed: the base, and what follows the first dot if there is one. -/
structure TypedName where
  base : List UInt8
  ext : Option (List UInt8)
  base_ok : ∀ c ∈ base, c ≠ 0 ∧ c ≠ 0x2E
  ext_ok : 0 ∉ ext.getD []

/-- The characters in front of the NUL. -/
def TypedName.input (t : TypedName) : List UInt8 :=
  t.base ++ match t.ext with
    | some ext => 0x2E :: ext
    | none => []

/-- Every input is that of a typed name: it is divided at its first dot. -/
theorem TypedName.exists_input {input : List UInt8} (h : 0 ∉ input) :
    ∃ t : TypedName, t.input = input := by
  have hbase : ∀ c ∈ input.takeWhile (· ≠ 0x2E), c ≠ 0 ∧ c ≠ 0x2E := by
    intro c hc
    refine ⟨?_, by simpa using List.mem_takeWhile_imp hc⟩
    rintro rfl
    exact h ((List.takeWhile_prefix _).subset hc)
  have hinput := List.takeWhile_append_dropWhile (p := (· ≠ 0x2E)) (l := input)
  rcases hdrop : input.dropWhile (· ≠ 0x2E) with _ | ⟨c, ext⟩
  · rw [hdrop] at hinput
    exact ⟨⟨_, none, hbase, List.not_mem_nil⟩, hinput⟩
  · have hdot : c = 0x2E := by
      have hhead := List.head?_dropWhile_not (p := (· ≠ 0x2E)) input
      rw [hdrop] at hhead
      simpa using hhead
    subst hdot
    rw [hdrop] at hinput
    have hext : 0 ∉ ext := fun h0 => h (by rw [← hinput]; simp [h0])
    exact ⟨⟨_, some ext, hbase, hext⟩, hinput⟩

/-- The first `width` characters in upper case, padded with spaces. -/
def nameField (width : ℕ) (text : List UInt8) : List UInt8 :=
  (text.take width).map upperCase ++ List.replicate (width - text.length) 0x20

/-- The bytes of the image that a name asks for. -/
def TypedName.fields (t : TypedName) : List UInt8 :=
  nameField 8 t.base ++ nameField 3 (t.ext.getD [])

/-- The extension that `to_fat_name` gets to see. -/
def TypedName.seenExt (t : TypedName) : List UInt8 :=
  if t.base.length ≤ 8 then t.ext.getD [] else []

def nameBytes (n : FatName) : List UInt8 := (List.range 11).map n.byte

theorem nameBytes_inj {m n : FatName} : nameBytes m = nameBytes n ↔ m = n := by
  refine ⟨fun h => Buf.ext_byte fun k hk => ?_, fun h => by rw [h]⟩
  exact List.map_inj_left.1 h k (List.mem_range.2 hk)

@[simp] theorem nameField_length (width : ℕ) (text : List UInt8) :
    (nameField width text).length = width := by
  simp only [nameField, List.length_append, List.length_map, List.length_take,
    List.length_replicate]
  omega

/-- Only what the field takes of a text matters. -/
theorem nameField_take {width m : ℕ} (h : width ≤ m) (text : List UInt8) :
    nameField width (text.take m) = nameField width text := by
  unfold nameField
  rw [List.take_take, Nat.min_eq_left h, List.length_take]
  congr 2
  omega

/-- The field is in upper case anyway. -/
theorem nameField_map_upperCase (width : ℕ) (text : List UInt8) :
    nameField width (text.map upperCase) = nameField width text := by
  have hup : upperCase ∘ upperCase = upperCase :=
    funext fun c => upperCase_of_not_lower (upperCase_not_lower c)
  unfold nameField
  rw [← List.map_take, List.map_map, hup, List.length_map]

theorem nameField_map_take (width : ℕ) (text : List UInt8) :
    nameField width ((text.take width).map upperCase) = nameField width text := by
  rw [nameField_map_upperCase, nameField_take le_rfl]

theorem getD_nameField {width k : ℕ} (hk : k < width) (text : List UInt8) :
    (nameField width text).getD k 0
      = if k < text.length then upperCase (text.getD k 0) else 0x20 := by
  unfold nameField
  split
  next hin =>
    rw [List.getD_append _ _ _ _ (by simp; omega), List.getD_eq_getElem _ _ (by simp; omega),
      List.getElem_map, List.getElem_take, List.getD_eq_getElem _ _ hin]
  next hout =>
    rw [List.getD_append_right _ _ _ _ (by simp; omega), List.getD_eq_getElem _ _ (by simp; omega),
      List.getElem_replicate]

/-- The bytes of a name one by one. -/
theorem nameBytes_eq_iff {n : FatName} {bytes : List UInt8} (hlen : bytes.length = 11) :
    nameBytes n = bytes ↔ ∀ k < 11, n.byte k = bytes.getD k 0 := by
  constructor
  · rintro rfl k hk
    rw [List.getD_eq_getElem _ _ (by simpa [nameBytes] using hk)]
    simp [nameBytes]
  · intro h
    refine List.ext_getElem (by simp [nameBytes, hlen]) fun k hk hk' => ?_
    rw [← List.getD_eq_getElem _ 0 hk', ← h k (by omega)]
    simp [nameBytes]

/-! ## The two loops -/

/-- The loop copies what fits below the limit, and stops there or at the end of the text. -/
theorem copyUpper_take {stop : UInt8 → Bool} {text : List UInt8}
    (htext : ∀ c ∈ text, c ≠ 0 ∧ ¬ stop c) (rest : List UInt8) (hrest : ∀ c ∈ rest.head?, stop c)
    (limit j : ℕ) (out : FatName) :
    copyUpper stop limit (text ++ rest) j out
      = (text.drop (limit - j) ++ rest, putUpper (text.take (limit - j)) j out) := by
  induction text generalizing j out with
  | nil =>
      cases rest with
      | nil => simp [copyUpper, putUpper]
      | cons c rest =>
          have hstop : stop c := hrest c (by simp)
          simp [copyUpper, putUpper, hstop]
  | cons c text ih =>
      obtain ⟨hc0, hstop⟩ := htext c (List.mem_cons_self ..)
      rw [List.cons_append, copyUpper]
      by_cases hj : j < limit
      · rw [if_pos ⟨hc0, hstop, hj⟩, ih fun b hb => htext b (List.mem_cons_of_mem _ hb),
          show limit - j = limit - (j + 1) + 1 by omega, List.drop_succ_cons, List.take_succ_cons,
          putUpper]
      · rw [if_neg fun h => hj h.2.2, show limit - j = 0 by omega]
        rfl

/-- Behind a base that fits, the dot is where the first loop has stopped. -/
theorem toFatName_of_short {base : List UInt8} (hbase : ∀ c ∈ base, c ≠ 0 ∧ ¬ (c == 0x2E) = true)
    (hshort : base.length ≤ 8) {ext : List UInt8} (hext : 0 ∉ ext) :
    toFatName (base ++ 0x2E :: ext)
      = putUpper (ext.take 3) 8 (putUpper (base.take 8) 0 (Buf.ofFn fun _ => 0x20)) := by
  have hext' : ∀ c ∈ ext, c ≠ 0 ∧ ¬ false = true := by
    intro c hc
    refine ⟨?_, by decide⟩
    rintro rfl
    exact hext hc
  have hcopy := copyUpper_take hbase (0x2E :: ext) (by simp) 8 0 (Buf.ofFn fun _ => 0x20)
  have hcopy' := copyUpper_take hext' [] (by simp) 11 8
    (putUpper (base.take 8) 0 (Buf.ofFn fun _ => 0x20))
  simp only [Nat.sub_zero, List.drop_eq_nil_of_le hshort, List.nil_append] at hcopy
  simp only [List.append_nil] at hcopy'
  simp only [toFatName, hcopy, if_true, hcopy']

/-- Without a dot where the first loop has stopped, nothing follows. -/
theorem toFatName_of_no_dot {base tail : List UInt8}
    (hbase : ∀ c ∈ base, c ≠ 0 ∧ ¬ (c == 0x2E) = true) (htail : ∀ c ∈ tail.head?, (c == 0x2E) = true)
    (hnone : tail = [] ∨ 8 < base.length) :
    toFatName (base ++ tail) = putUpper (base.take 8) 0 (Buf.ofFn fun _ => 0x20) := by
  have hcopy := copyUpper_take hbase tail htail 8 0 (Buf.ofFn fun _ => 0x20)
  rw [Nat.sub_zero] at hcopy
  rcases hdrop : base.drop 8 with _ | ⟨c, bs⟩
  · have hshort := List.drop_eq_nil_iff.1 hdrop
    obtain rfl := hnone.resolve_right (by omega)
    rw [hdrop, List.nil_append] at hcopy
    simp only [toFatName, hcopy]
  · have hc : c ∈ base := List.mem_of_mem_drop (by rw [hdrop]; exact List.mem_cons_self ..)
    have hdot : c ≠ 0x2E := by simpa using (hbase c hc).2
    rw [hdrop, List.cons_append] at hcopy
    simp only [toFatName, hcopy, if_neg hdot]

theorem toFatName_input (t : TypedName) :
    toFatName t.input
      = putUpper (t.seenExt.take 3) 8 (putUpper (t.base.take 8) 0 (Buf.ofFn fun _ => 0x20)) := by
  obtain ⟨base, ext, hbase, hext⟩ := t
  have hbase' : ∀ c ∈ base, c ≠ 0 ∧ ¬ (c == 0x2E) = true := by simpa using hbase
  cases ext with
  | none =>
      have hnone : TypedName.seenExt ⟨base, none, hbase, hext⟩ = [] := by
        unfold TypedName.seenExt
        split <;> rfl
      rw [hnone]
      exact toFatName_of_no_dot hbase' (by simp) (Or.inl rfl)
  | some ext =>
      by_cases hshort : base.length ≤ 8
      · have hseen : TypedName.seenExt ⟨base, some ext, hbase, hext⟩ = ext := if_pos hshort
        rw [hseen]
        exact toFatName_of_short hbase' hshort hext
      · have hseen : TypedName.seenExt ⟨base, some ext, hbase, hext⟩ = [] := if_neg hshort
        rw [hseen]
        exact toFatName_of_no_dot hbase' (by simp) (Or.inr (Nat.lt_of_not_le hshort))

/-- What is copied into blanks is the field. -/
theorem byte_putUpper_field (width : ℕ) {j k : ℕ} {out : FatName} (hk : k < 11)
    (text : List UInt8) (hout : j ≤ k → out.byte k = 0x20) :
    (putUpper (text.take width) j out).byte k
      = if j ≤ k ∧ k < j + width then (nameField width text).getD (k - j) 0 else out.byte k := by
  rw [byte_putUpper hk, List.length_take]
  by_cases hfield : j ≤ k ∧ k < j + width
  · rw [if_pos hfield, getD_nameField (by omega)]
    by_cases hin : k - j < text.length
    · rw [if_pos (by omega), if_pos hin, List.getD_eq_getElem _ _ (by simp; omega),
        List.getElem_take, List.getD_eq_getElem _ _ hin]
    · rw [if_neg (by omega), if_neg hin, hout hfield.1]
  · rw [if_neg (by omega), if_neg hfield]

/-- Both fields hold what `to_fat_name` has seen. -/
theorem nameBytes_toFatName (t : TypedName) :
    nameBytes (toFatName t.input) = nameField 8 t.base ++ nameField 3 t.seenExt := by
  rw [nameBytes_eq_iff (by simp)]
  intro k hk
  have hblank : (Buf.ofFn fun _ => 0x20 : FatName).byte k = 0x20 := Buf.byte_ofFn _ hk
  have hbase := byte_putUpper_field 8 (j := 0) hk t.base fun _ => hblank
  have hrest : 8 ≤ k → (putUpper (t.base.take 8) 0 (Buf.ofFn fun _ => 0x20)).byte k = 0x20 :=
    fun h8 => by rw [hbase, if_neg (by omega), hblank]
  rw [toFatName_input, byte_putUpper_field 3 hk _ hrest, hbase]
  by_cases h8 : k < 8
  · rw [if_neg (by omega), if_pos (by omega), List.getD_append _ _ _ _ (by simpa using h8),
      Nat.sub_zero]
  · rw [if_pos (by omega), List.getD_append_right _ _ _ _ (by simpa using h8), nameField_length]

/-! ## When the extension is kept -/

/-- The dot is found, or there is nothing but spaces to be lost. -/
def TypedName.ExtKept (t : TypedName) : Prop :=
  t.base.length ≤ 8 ∨ ∀ c ∈ (t.ext.getD []).take 3, c = 0x20

theorem upperCase_eq_space_iff {c : UInt8} : upperCase c = 0x20 ↔ c = 0x20 :=
  upperCase_eq_iff (by decide) (by decide)

theorem nameField_nil (width : ℕ) : nameField width [] = List.replicate width 0x20 := by
  simp [nameField]

/-- A field is blank if and only if the characters it takes are spaces. -/
theorem nameField_eq_nil_iff (width : ℕ) (text : List UInt8) :
    nameField width text = nameField width [] ↔ ∀ c ∈ text.take width, c = 0x20 := by
  rw [nameField_nil, List.eq_replicate_iff]
  simp only [nameField_length, true_and]
  constructor
  · intro h c hc
    exact upperCase_eq_space_iff.1
      (h _ (List.mem_append_left _ (List.mem_map_of_mem hc)))
  · intro h b hb
    rcases List.mem_append.1 hb with hb | hb
    · obtain ⟨c, hc, rfl⟩ := List.mem_map.1 hb
      exact upperCase_eq_space_iff.2 (h c hc)
    · exact List.eq_of_mem_replicate hb

/-- The image has the fields that the name asks for exactly when the extension is kept. -/
theorem fields_toFatName (t : TypedName) :
    nameBytes (toFatName t.input) = t.fields ↔ t.ExtKept := by
  rw [nameBytes_toFatName, TypedName.fields, List.append_cancel_left_eq, TypedName.seenExt,
    TypedName.ExtKept]
  by_cases hlong : t.base.length ≤ 8
  · simp [hlong]
  · rw [if_neg hlong, ← nameField_eq_nil_iff, eq_comm]
    exact ⟨Or.inr, fun h => h.resolve_left hlong⟩

/-- The image has both fields of the typed name if and only if the extension is kept; and names that
    keep different extensions never denote the same file. -/
theorem toFatName_fields_iff (t : TypedName) :
    (nameBytes (toFatName t.input) = t.fields ↔ t.ExtKept)
      ∧ ∀ u : TypedName, t.ExtKept → u.ExtKept →
          nameField 3 (t.ext.getD []) ≠ nameField 3 (u.ext.getD []) →
          ∀ d, ¬ (fatNameMatch t.input d = true ∧ fatNameMatch u.input d = true) := by
  refine ⟨fields_toFatName t, fun u ht hu hext d hmatch => ?_⟩
  rw [fatNameMatch_iff, fatNameMatch_iff] at hmatch
  have hfields : t.fields = u.fields := by
    rw [← (fields_toFatName t).2 ht, ← (fields_toFatName u).2 hu, hmatch.1, hmatch.2]
  exact hext (List.append_inj' hfields (by simp)).2

/-- `longname1` with an extension: one character more than the base field takes. -/
def longName (ext : List UInt8) (hext : 0 ∉ ext) : TypedName where
  base := [108, 111, 110, 103, 110, 97, 109, 101, 49]
  ext := some ext
  base_ok := by simp
  ext_ok := hext

/-- `longname1.txt` and `longname1.bak` are one file. -/
theorem toFatName_extension_lost :
    nameBytes (toFatName (longName [116, 120, 116] (by decide)).input)
        ≠ (longName [116, 120, 116] (by decide)).fields
      ∧ nameField 3 [116, 120, 116] ≠ nameField 3 [98, 97, 107]
      ∧ ∃ d, fatNameMatch (longName [116, 120, 116] (by decide)).input d = true
          ∧ fatNameMatch (longName [98, 97, 107] (by decide)).input d = true := by
  have hlost : ∀ ext (hext : 0 ∉ ext), nameBytes (toFatName (longName ext hext).input)
      = nameField 8 (longName [] List.not_mem_nil).base ++ nameField 3 [] := fun ext hext =>
    nameBytes_toFatName (longName ext hext)
  refine ⟨?_, by decide, _, fatNameMatch_iff.2 rfl, fatNameMatch_iff.2 ?_⟩
  · rw [hlost]
    decide
  · rw [← nameBytes_inj, hlost, hlost]

end BlackHole
