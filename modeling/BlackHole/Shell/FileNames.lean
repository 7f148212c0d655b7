import BlackHole.Fat16.NameFields
import BlackHole.Shell.Commands

set_option autoImplicit false

/-! # The names of the shell's files

`write` stores a file under the image of a name without spaces; `ls` shows what `fat16_list_root`
makes of the image in a buffer of 13 bytes. Padding is dropped there and the dot put back, so that
typing what is shown leads to the same image again (`toFatName_displayName`). -/

namespace BlackHole

open Bytes

/-! ## The buffer of the listing -/

/-- The locals `name` and `n` of `fat16_list_root`, with the indices of `name` stored to, latest
    first, which the source does not have. -/
structure NameBuffer where
  name : ℕ → UInt8
  n : ℕ
  stored : List ℕ

/-- `name[n] = c` -/
def NameBuffer.store (b : NameBuffer) (c : UInt8) : NameBuffer :=
  { b with name := Function.update b.name b.n c, stored := b.n :: b.stored }

/-- `name[n++] = c` -/
def NameBuffer.put (b : NameBuffer) (c : UInt8) : NameBuffer := { b.store c with n := b.n + 1 }

/-- The loops leave out spaces. -/
def NameBuffer.putBytes (b : NameBuffer) (f : FatName) (js : List ℕ) : NameBuffer :=
  js.foldl (fun b j => if f.byte j ≠ 0x20 then b.put (f.byte j) else b) b

/-- The two loops over an entry's name. -/
def fillText (f : FatName) (name : ℕ → UInt8) : NameBuffer :=
  let base := NameBuffer.putBytes ⟨name, 0, []⟩ f (List.range 8)
  if f.byte 8 ≠ 0x20 then (base.put 0x2E).putBytes f (List.range' 8 3) else base

/-- What `fat16_list_root` does to `name[13]` for an entry with this name. -/
def fillName (f : FatName) (name : ℕ → UInt8) : NameBuffer := (fillText f name).store 0

/-- The text has been stored from the start of the buffer on. -/
structure NameBuffer.Holds (b : NameBuffer) (text : List UInt8) : Prop where
  n : b.n = text.length
  name : (List.range b.n).map b.name = text
  stored : b.stored = (List.range b.n).reverse

/-- A store behind the text keeps the text. -/
theorem NameBuffer.Holds.store {b : NameBuffer} {text : List UInt8} (h : b.Holds text)
    (c : UInt8) :
    (List.range b.n).map (b.store c).name = text
      ∧ (b.store c).stored = (List.range (b.n + 1)).reverse := by
  constructor
  · refine Eq.trans (List.map_congr_left fun j hj => ?_) h.name
    exact Function.update_of_ne (List.mem_range.1 hj).ne _ _
  · show b.n :: b.stored = (List.range (b.n + 1)).reverse
    rw [h.stored, List.range_succ, List.reverse_append]
    rfl

theorem NameBuffer.Holds.put {b : NameBuffer} {text : List UInt8} (h : b.Holds text) (c : UInt8) :
    (b.put c).Holds (text ++ [c]) where
  n := by simp [NameBuffer.put, h.n]
  name := by
    show (List.range (b.n + 1)).map (b.store c).name = text ++ [c]
    have hlast : (b.store c).name b.n = c := Function.update_self ..
    rw [List.range_succ, List.map_append, (h.store c).1, List.map_singleton, hlast]
  stored := (h.store c).2

theorem NameBuffer.Holds.putBytes {b : NameBuffer} {text : List UInt8} (h : b.Holds text)
    (f : FatName) (js : List ℕ) :
    (b.putBytes f js).Holds (text ++ (js.map f.byte).filter (· ≠ 0x20)) := by
  induction js generalizing b text with
  | nil => simpa [NameBuffer.putBytes] using h
  | cons j js ih =>
      rw [NameBuffer.putBytes, List.foldl_cons, List.map_cons]
      by_cases hj : f.byte j ≠ 0x20
      · rw [if_pos hj, List.filter_cons_of_pos (by simpa using hj), List.append_cons]
        exact ih (h.put _)
      · rw [if_neg hj, List.filter_cons_of_neg (by simpa using hj)]
        exact ih h

theorem fillText_holds (f : FatName) (name : ℕ → UInt8) :
    (fillText f name).Holds (displayName f) := by
  have hstart : NameBuffer.Holds ⟨name, 0, []⟩ [] := ⟨rfl, rfl, rfl⟩
  have hbase := hstart.putBytes f (List.range 8)
  unfold fillText displayName
  split
  · have hext := (hbase.put 0x2E).putBytes f (List.range' 8 3)
    rwa [List.append_assoc, List.singleton_append] at hext
  · exact hbase

/-- The buffer gets the displayed name and its NUL, one byte after the other. -/
theorem fillName_holds (f : FatName) (name : ℕ → UInt8) :
    (List.range (displayName f).length).map (fillName f name).name = displayName f
      ∧ (fillName f name).name (displayName f).length = 0
      ∧ (fillName f name).stored = (List.range ((displayName f).length + 1)).reverse := by
  have hholds := fillText_holds f name
  have hstore := hholds.store 0
  rw [hholds.n] at hstore
  refine ⟨hstore.1, ?_, hstore.2⟩
  rw [← hholds.n]
  exact Function.update_self ..

theorem displayName_length_le (f : FatName) : (displayName f).length ≤ 12 := by
  have hbase := List.length_filter_le (· ≠ 0x20) ((List.range 8).map f.byte)
  have hext := List.length_filter_le (· ≠ 0x20) ((List.range' 8 3).map f.byte)
  simp only [List.length_map, List.length_range, List.length_range'] at hbase hext
  unfold displayName
  split
  · simp only [List.length_append, List.length_cons]
    omega
  · exact hbase.trans (by decide)

/-! ## Reading the fields back -/

/-- The padding is dropped, and nothing else if the text has no spaces. -/
theorem filter_nameField (width : ℕ) {text : List UInt8} (h : 0x20 ∉ text) :
    (nameField width text).filter (· ≠ 0x20) = (text.take width).map upperCase := by
  have hkeep : ((text.take width).map upperCase).filter (· ≠ 0x20)
      = (text.take width).map upperCase := by
    refine List.filter_eq_self.2 fun b hb => ?_
    obtain ⟨c, hc, rfl⟩ := List.mem_map.1 hb
    rw [decide_eq_true_eq, Ne, upperCase_eq_space_iff]
    rintro rfl
    exact h (List.mem_of_mem_take hc)
  have hdrop : (List.replicate (width - text.length) (0x20 : UInt8)).filter (· ≠ 0x20) = [] :=
    List.filter_eq_nil_iff.2 fun b hb => by simp [List.eq_of_mem_replicate hb]
  rw [nameField, List.filter_append, hkeep, hdrop, List.append_nil]

theorem nameBytes_fields {f : FatName} {base ext : List UInt8} (hbase : base.length = 8)
    (h : nameBytes f = base ++ ext) :
    (List.range 8).map f.byte = base ∧ (List.range' 8 3).map f.byte = ext :=
  List.append_inj (by rw [← List.map_append]; exact h) (by simpa using hbase.symm)

/-- What is shown of two fields of texts without spaces. -/
theorem displayName_of_fields {f : FatName} {base ext : List UInt8}
    (h : nameBytes f = nameField 8 base ++ nameField 3 ext) (hbase : 0x20 ∉ base)
    (hext : 0x20 ∉ ext) :
    displayName f = (base.take 8).map upperCase
      ++ if ext = [] then [] else 0x2E :: (ext.take 3).map upperCase := by
  obtain ⟨h8, h3⟩ := nameBytes_fields (nameField_length 8 base) h
  have hbyte : f.byte 8 = if 0 < ext.length then upperCase (ext.getD 0 0) else 0x20 := by
    rw [← getD_nameField (show 0 < 3 by decide), ← h3]
    rfl
  unfold displayName
  rw [h8, h3, filter_nameField 8 hbase, filter_nameField 3 hext, hbyte]
  cases ext with
  | nil => simp
  | cons c ext =>
      have hc : upperCase c ≠ 0x20 := fun heq =>
        hext (by rw [← upperCase_eq_space_iff.1 heq]; exact List.mem_cons_self ..)
      rw [if_pos (by simpa using hc), if_neg (List.cons_ne_nil _ _)]

theorem TypedName.mem_input_of_mem_base {t : TypedName} {c : UInt8} (h : c ∈ t.base) :
    c ∈ t.input :=
  List.mem_append_left _ h

theorem TypedName.mem_ext_of_mem_seenExt {t : TypedName} {c : UInt8} (h : c ∈ t.seenExt) :
    c ∈ t.ext.getD [] := by
  unfold TypedName.seenExt at h
  split at h
  · exact h
  · cases h

theorem TypedName.mem_input_of_mem_ext {t : TypedName} {c : UInt8} (h : c ∈ t.ext.getD []) :
    c ∈ t.input := by
  unfold TypedName.input
  rcases hext : t.ext with _ | ext
  · rw [hext] at h
    cases h
  · rw [hext] at h
    exact List.mem_append_right _ (List.mem_cons_of_mem _ h)

/-! ## The name that is shown -/

/-- The typed name that is shown for an image: in upper case, cut to the fields, without a dot if
    there is no extension. -/
def TypedName.shown (t : TypedName) : TypedName where
  base := (t.base.take 8).map upperCase
  ext := if t.seenExt = [] then none else some ((t.seenExt.take 3).map upperCase)
  base_ok := by
    intro b hb
    obtain ⟨c, hc, rfl⟩ := List.mem_map.1 hb
    obtain ⟨h0, hdot⟩ := t.base_ok c (List.mem_of_mem_take hc)
    exact ⟨upperCase_ne_zero h0, upperCase_ne_dot hdot⟩
  ext_ok := by
    split
    · exact List.not_mem_nil
    · intro h0
      obtain ⟨c, hc, hup⟩ := List.mem_map.1 h0
      refine upperCase_ne_zero ?_ hup
      rintro rfl
      exact t.ext_ok (TypedName.mem_ext_of_mem_seenExt (List.mem_of_mem_take hc))

theorem TypedName.shown_seenExt (t : TypedName) :
    t.shown.seenExt = (t.seenExt.take 3).map upperCase := by
  have hlen : t.shown.base.length ≤ 8 := by
    show ((t.base.take 8).map upperCase).length ≤ 8
    rw [List.length_map]
    exact List.length_take_le 8 t.base
  rw [TypedName.seenExt, if_pos hlen]
  show (if t.seenExt = [] then none else some ((t.seenExt.take 3).map upperCase)).getD []
    = (t.seenExt.take 3).map upperCase
  split
  next hnil => rw [hnil]; rfl
  next => rfl

/-- What is shown has the same image. -/
theorem TypedName.toFatName_shown (t : TypedName) : toFatName t.shown.input = toFatName t.input := by
  rw [← nameBytes_inj, nameBytes_toFatName, nameBytes_toFatName, t.shown_seenExt,
    nameField_map_take]
  exact congrArg (· ++ _) (nameField_map_take 8 t.base)

/-- The image of a name without spaces is shown as that name in upper case, cut to the fields. -/
theorem TypedName.displayName_toFatName {t : TypedName} (h : 0x20 ∉ t.input) :
    displayName (toFatName t.input) = t.shown.input := by
  have hbase : 0x20 ∉ t.base := fun hc => h (mem_input_of_mem_base hc)
  have hext : 0x20 ∉ t.seenExt := fun hc => h (mem_input_of_mem_ext (mem_ext_of_mem_seenExt hc))
  rw [displayName_of_fields (nameBytes_toFatName t) hbase hext]
  simp only [TypedName.input, TypedName.shown]
  by_cases hnil : t.seenExt = []
  · rw [if_pos hnil, if_pos hnil]
  · rw [if_neg hnil, if_neg hnil]

/-! ## The names that `write` stores -/

/-- The image of a name without spaces. -/
def Storable (f : FatName) : Prop :=
  ∃ input : List UInt8, 0 ∉ input ∧ 0x20 ∉ input ∧ toFatName input = f

theorem toFatName_displayName {f : FatName} (h : Storable f) : toFatName (displayName f) = f := by
  obtain ⟨input, h0, hspace, rfl⟩ := h
  obtain ⟨t, rfl⟩ := TypedName.exists_input h0
  rw [t.displayName_toFatName hspace, t.toFatName_shown]

/-- The name that `cmd_write` splits off its arguments has no spaces. -/
theorem writeFilename_storable (args : List UInt8) : Storable (toFatName (writeFilename args)) := by
  have hchars : ∀ c ∈ writeFilename args, c ≠ 0 ∧ c ≠ 0x20 := fun c hc => by
    simpa using List.mem_takeWhile_imp hc
  exact ⟨_, fun h => (hchars 0 h).1 rfl, fun h => (hchars 0x20 h).2 rfl, rfl⟩

/-- What is shown of a stored name leads back to it: distinct names are shown differently, and what
    is shown denotes its own entry only. The listing writes at most 13 bytes, for every name. -/
theorem displayName_round_trip :
    (∀ args, Storable (toFatName (writeFilename args)))
      ∧ (∀ f, Storable f → toFatName (displayName f) = f)
      ∧ (∀ f g, Storable f → Storable g → displayName f = displayName g → f = g)
      ∧ (∀ f d, Storable f → (fatNameMatch (displayName f) d = true ↔ d = f))
      ∧ ∀ f name,
          (List.range (displayName f).length).map (fillName f name).name = displayName f
            ∧ (fillName f name).name (displayName f).length = 0
            ∧ (fillName f name).stored.length ≤ 13
            ∧ ∀ j ∈ (fillName f name).stored, j < 13 := by
  refine ⟨writeFilename_storable, fun f => toFatName_displayName, fun f g hf hg heq => ?_,
    fun f d hf => ?_, fun f name => ?_⟩
  · rw [← toFatName_displayName hf, heq, toFatName_displayName hg]
  · rw [fatNameMatch_iff, toFatName_displayName hf, eq_comm]
  · obtain ⟨htext, hnul, hstored⟩ := fillName_holds f name
    have hlen := displayName_length_le f
    refine ⟨htext, hnul, ?_, fun j hj => ?_⟩
    · rw [hstored, List.length_reverse, List.length_range]
      omega
    · rw [hstored, List.mem_reverse, List.mem_range] at hj
      omega

/-- `hello.txt` -/
theorem displayName_round_trip_hello :
    toFatName (displayName (toFatName [104, 101, 108, 108, 111, 46, 116, 120, 116]))
      = toFatName [104, 101, 108, 108, 111, 46, 116, 120, 116] :=
  displayName_round_trip.2.1 _ ⟨_, by decide, by decide, rfl⟩

end BlackHole
