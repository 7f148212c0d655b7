import Mathlib.Data.List.Induction
import Mathlib.Data.Nat.Digits.Lemmas
import Mathlib.Data.UInt
import BlackHole.CTypes
import BlackHole.Libc.Strings

set_option autoImplicit false

/-! # Numerals

`itoa` and `uitoa` of `libc/string.c`. A buffer is the list of the bytes that have been written to
it, so that `str[i++] = c` appends `c`. Both write the digits from the least significant one on and
reverse them in place; `uitoa_eq` says that this leaves the numeral and a NUL, and `uitoa_numeral` what
the numeral says. -/

namespace BlackHole

/-! ## Reversing in place -/

/-- The loop of `reverse`: exchange `str[start]` and `str[stop]`, from both ends inwards. -/
def reverseFrom (str : List UInt8) (start stop : ℕ) : List UInt8 :=
  if start < stop then
    let temp := str.getD start 0
    reverseFrom ((str.set start (str.getD stop 0)).set stop temp) (start + 1) (stop - 1)
  else str
termination_by stop - start

/-- `reverse` -/
def reverse (str : List UInt8) (len : ℕ) : List UInt8 := reverseFrom str 0 (u32sub len 1)

/-- The loop reverses what lies between its two indices: both ends are exchanged, and the rest is
    shorter by two. -/
theorem reverseFrom_append (pre mid post : List UInt8) :
    reverseFrom (pre ++ (mid ++ post)) pre.length (pre.length + mid.length - 1)
      = pre ++ (mid.reverse ++ post) := by
  induction mid using List.bidirectionalRec generalizing pre post with
  | nil =>
      rw [reverseFrom, if_neg (by simp)]
      rfl
  | singleton c =>
      rw [reverseFrom, if_neg (by simp)]
      rfl
  | cons_append c mid d ih =>
      have hstop : pre.length + (c :: (mid ++ [d])).length - 1
          = (pre ++ c :: mid).length := by
        simp only [List.length_append, List.length_cons, List.length_nil]
        omega
      have hstr : pre ++ (c :: (mid ++ [d]) ++ post) = (pre ++ c :: mid) ++ d :: post := by simp
      have hlt : pre.length < (pre ++ c :: mid).length := by simp
      have hleft : ((pre ++ c :: mid) ++ d :: post).getD pre.length 0 = c := by simp
      have hright : ((pre ++ c :: mid) ++ d :: post).getD (pre ++ c :: mid).length 0 = d := by
        rw [List.getD_eq_getElem?_getD, List.getElem?_append_right le_rfl, Nat.sub_self]
        rfl
      have hset : ((((pre ++ c :: mid) ++ d :: post).set pre.length d).set
          (pre ++ c :: mid).length c) = (pre ++ [d]) ++ (mid ++ (c :: post)) := by
        rw [List.set_append_left _ _ hlt, List.set_append_right _ _ (by simp)]
        simp
      rw [hstop, hstr, reverseFrom, if_pos hlt]
      simp only [hleft, hright]
      rw [hset]
      have hnext := ih (pre ++ [d]) (c :: post)
      have hidx : (pre ++ c :: mid).length - 1 = (pre ++ [d]).length + mid.length - 1 := by
        simp only [List.length_append, List.length_cons, List.length_nil]
        omega
      rw [hidx, show pre.length + 1 = (pre ++ [d]).length by simp, hnext]
      simp

/-- `reverse` reverses the first `len` bytes of the buffer. -/
theorem reverse_append {str post : List UInt8} (hne : str ≠ []) (hlen : str.length < 4294967296) :
    reverse (str ++ post) str.length = str.reverse ++ post := by
  have hpos := List.length_pos_iff.2 hne
  have hrev := reverseFrom_append [] str post
  rw [List.nil_append, List.length_nil, Nat.zero_add] at hrev
  rw [reverse, u32sub_of_le hpos hlen]
  exact hrev

/-! ## Digits -/

/-- `(rem > 9) ? (rem - 10) + 'a' : rem + '0'`, stored in a `char`. -/
def digitChar (rem : ℤ) : UInt8 := UInt8.ofInt (if rem > 9 then rem - 10 + 0x61 else rem + 0x30)

/-- The digit loop of `uitoa`. -/
def uitoaDigits (base : ℕ) [base.AtLeastTwo] (value : ℕ) (str : List UInt8) : List UInt8 :=
  if value = 0 then str
  else uitoaDigits base (value / base) (str ++ [digitChar (value % base : ℕ)])
termination_by value
decreasing_by exact Nat.div_lt_self (Nat.pos_of_ne_zero ‹_›) Nat.AtLeastTwo.prop

/-- The digit loop of `itoa`; `/` and `%` round towards zero. -/
def itoaDigits (base : ℕ) [base.AtLeastTwo] (value : ℤ) (str : List UInt8) : List UInt8 :=
  if value = 0 then str
  else itoaDigits base (value.tdiv base) (str ++ [digitChar (value.tmod base)])
termination_by value.natAbs
decreasing_by
  rw [Int.natAbs_tdiv, Int.natAbs_natCast]
  exact Nat.div_lt_self (Int.natAbs_pos.2 ‹_›) Nat.AtLeastTwo.prop

/-- The bases that the kernel passes. -/
instance atLeastTwo_ten : Nat.AtLeastTwo 10 := ⟨by decide⟩

instance atLeastTwo_sixteen : Nat.AtLeastTwo 16 := ⟨by decide⟩

/-- `itoa`: what is in the buffer afterwards. The negation of the least `int` wraps. -/
def itoa (value : ℤ) (base : ℕ) [base.AtLeastTwo] : List UInt8 :=
  if value = 0 then [0x30, 0x00]
  else
    let isNegative := value < 0 ∧ base = 10
    let value := if isNegative then (-value).bmod 4294967296 else value
    let str := itoaDigits base value []
    let str := if isNegative then str ++ [0x2D] else str
    reverse (str ++ [0x00]) str.length

/-- `uitoa`: what is in the buffer afterwards. -/
def uitoa (value base : ℕ) [base.AtLeastTwo] : List UInt8 :=
  if value = 0 then [0x30, 0x00]
  else
    let str := uitoaDigits base value []
    reverse (str ++ [0x00]) str.length

/-! ## The numeral -/

/-- A 32-bit value has at most as many digits as in base 2. -/
theorem length_digits_le {base n : ℕ} [base.AtLeastTwo] (hn : n < 4294967296) :
    (Nat.digits base n).length ≤ 32 := by
  have hbase : 1 < base := Nat.AtLeastTwo.prop
  rw [Nat.digits_length_le_iff hbase]
  calc n < 2 ^ 32 := hn
    _ ≤ base ^ 32 := Nat.pow_le_pow_left hbase 32

/-- Read from the most significant digit on, the digits do not begin with zero. -/
theorem head?_reverse_digits (base : ℕ) {n : ℕ} (hn : n ≠ 0) :
    ∃ d, (Nat.digits base n).reverse.head? = some d ∧ d ∈ Nat.digits base n ∧ d ≠ 0 := by
  have hne : Nat.digits base n ≠ [] := Nat.digits_ne_nil_iff_ne_zero.2 hn
  refine ⟨(Nat.digits base n).getLast hne, ?_, List.getLast_mem hne,
    Nat.getLast_digit_ne_zero base hn⟩
  rw [List.head?_reverse, List.getLast?_eq_some_getLast hne]

/-- The numeral of `n`: the digits from the most significant one on, `"0"` for zero. -/
def numeral (base n : ℕ) : List UInt8 :=
  if n = 0 then [0x30] else (Nat.digits base n).reverse.map fun (d : ℕ) => digitChar d

theorem uitoaDigits_eq {base : ℕ} [base.AtLeastTwo] (value : ℕ) (str : List UInt8) :
    uitoaDigits base value str = str ++ (Nat.digits base value).map fun (d : ℕ) => digitChar d := by
  induction value using Nat.strong_induction_on generalizing str with
  | _ value ih =>
      have hbase : 1 < base := Nat.AtLeastTwo.prop
      rw [uitoaDigits]
      rcases Nat.eq_zero_or_pos value with rfl | hpos
      · simp
      · rw [if_neg (by omega), ih _ (Nat.div_lt_self hpos hbase), Nat.digits_def' hbase hpos]
        simp

/-- `uitoa` leaves the numeral and a NUL. -/
theorem uitoa_eq {value base : ℕ} [base.AtLeastTwo] (hvalue : value < 4294967296) :
    uitoa value base = numeral base value ++ [0x00] := by
  unfold uitoa numeral
  by_cases h0 : value = 0
  · rw [if_pos h0, if_pos h0]
    rfl
  have hlen : (Nat.digits base value).length ≤ 32 := length_digits_le hvalue
  rw [if_neg h0, if_neg h0]
  simp only [uitoaDigits_eq, List.nil_append]
  rw [reverse_append, List.map_reverse]
  · simpa [Nat.digits_eq_nil_iff_eq_zero] using h0
  · rw [List.length_map]
    omega

/-- A decimal numeral is made of the characters `0` to `9`. -/
theorem mem_numeral_ten {n : ℕ} {c : UInt8} (hc : c ∈ numeral 10 n) : 0x30 ≤ c ∧ c ≤ 0x39 := by
  have hdigit : ∀ d : ℕ, d < 10 → 0x30 ≤ digitChar d ∧ digitChar d ≤ 0x39 := by decide
  unfold numeral at hc
  split at hc
  · rw [List.mem_singleton] at hc
    subst hc
    decide
  · obtain ⟨d, hd, rfl⟩ := List.mem_map.1 hc
    exact hdigit d (Nat.digits_lt_base (by decide) (List.mem_reverse.1 hd))

/-! ## Numerals in lower-case digits -/

/-- The digits of the bases up to 36, in the order of their values. -/
def lowerDigits : List UInt8 := cstr "0123456789abcdefghijklmnopqrstuvwxyz"

/-- `text` is a numeral of `value`: its characters are digits below the base, and the value is the one the
    positions give them. -/
structure UnsignedNumeral (base : ℕ) (text : List UInt8) (value : ℕ) : Prop where
  digits : ∀ c ∈ text, c ∈ lowerDigits.take base
  ne_nil : text ≠ []
  no_leading_zero : text.head? = some 0x30 → text = [0x30]
  value : Nat.ofDigits base (text.map lowerDigits.idxOf).reverse = value

theorem digitChar_eq_getD : ∀ d < 36, digitChar (d : ℕ) = lowerDigits.getD d 0 := by decide

theorem idxOf_digitChar : ∀ d < 36, lowerDigits.idxOf (digitChar (d : ℕ)) = d := by decide

theorem digitChar_mem {base d : ℕ} (hbase : base ≤ 36) (hd : d < base) :
    digitChar (d : ℕ) ∈ lowerDigits.take base := by
  have hlen : lowerDigits.length = 36 := by decide
  have hchar : digitChar (d : ℕ) = lowerDigits[d] := by
    rw [digitChar_eq_getD d (by omega), List.getD_eq_getElem?_getD, List.getElem?_eq_getElem,
      Option.getD_some]
  rw [hchar]
  exact List.mem_take_iff_getElem.2 ⟨d, by omega, rfl⟩

theorem zero_notMem_lowerDigits : (0x00 : UInt8) ∉ lowerDigits := by decide

/-- A digit other than zero is not written `0`. -/
theorem digitChar_eq_zero {d : ℕ} (hd : d < 36) (h : digitChar (d : ℕ) = 0x30) : d = 0 := by
  have hidx := idxOf_digitChar d hd
  rw [h] at hidx
  exact hidx.symm

section

variable {base : ℕ} [base.AtLeastTwo]

/-- The numeral is one, with no leading zeros, in every base that has enough digits. -/
theorem unsignedNumeral_numeral (hbase : base ≤ 36) (n : ℕ) :
    UnsignedNumeral base (numeral base n) n := by
  have hbase1 : 1 < base := Nat.AtLeastTwo.prop
  unfold numeral
  split
  case isTrue h0 =>
    refine ⟨?_, by simp, fun _ => rfl, ?_⟩
    · intro c hc
      obtain rfl := List.mem_singleton.1 hc
      exact digitChar_mem (d := 0) hbase (by omega)
    · rw [h0, List.map_singleton, List.reverse_singleton, Nat.ofDigits_singleton]
      decide
  case isFalse h0 =>
    have hlt : ∀ d ∈ Nat.digits base n, d < base := fun d hd => Nat.digits_lt_base hbase1 hd
    have hne : Nat.digits base n ≠ [] := by simpa [Nat.digits_eq_nil_iff_eq_zero] using h0
    refine ⟨?_, by simpa using hne, fun hhead => ?_, ?_⟩
    · intro c hc
      obtain ⟨d, hd, rfl⟩ := List.mem_map.1 hc
      exact digitChar_mem hbase (hlt d (List.mem_reverse.1 hd))
    · obtain ⟨d, hd, hmem, hd0⟩ := head?_reverse_digits base h0
      rw [List.head?_map, hd, Option.map_some, Option.some.injEq] at hhead
      have hd36 := hlt d hmem
      exact absurd (digitChar_eq_zero (by omega) hhead) hd0
    · have hback : (Nat.digits base n).map (fun d : ℕ => lowerDigits.idxOf (digitChar d))
          = Nat.digits base n := by
        refine (List.map_congr_left fun d hd => ?_).trans (List.map_id _)
        have hd36 := hlt d hd
        exact idxOf_digitChar d (by omega)
      rw [List.map_map, List.map_reverse, List.reverse_reverse]
      exact (congrArg (Nat.ofDigits base) hback).trans (Nat.ofDigits_digits base n)

/-- A number below `base ^ k` has at most `k` digits. -/
theorem length_numeral_le {n k : ℕ} (hk : 0 < k) (h : n < base ^ k) :
    (numeral base n).length ≤ k := by
  unfold numeral
  split
  · exact hk
  · rw [List.length_map, List.length_reverse]
    exact (Nat.digits_length_le_iff Nat.AtLeastTwo.prop n).2 h

/-- For every 32-bit value and every base up to 36, `uitoa` leaves the numeral of the value and a NUL, which
    no other value has, in at most 11 bytes for base 10 and 9 for base 16. -/
theorem uitoa_numeral (hbase : base ≤ 36) {value : ℕ} (hvalue : value < 4294967296) :
    (∃ text, uitoa value base = text ++ [0x00] ∧ 0x00 ∉ text ∧ UnsignedNumeral base text value) ∧
    (∀ other < 4294967296, uitoa other base = uitoa value base → other = value) ∧
    (base = 10 → (uitoa value base).length ≤ 11) ∧
    (base = 16 → (uitoa value base).length ≤ 9) := by
  have hnum := fun n => unsignedNumeral_numeral hbase n
  rw [uitoa_eq hvalue]
  refine ⟨⟨_, rfl, ?_, hnum value⟩, ?_, ?_, ?_⟩
  · intro h0
    exact zero_notMem_lowerDigits (List.mem_of_mem_take ((hnum value).digits _ h0))
  · intro other hother heq
    rw [uitoa_eq hother] at heq
    have htext := List.append_cancel_right heq
    calc other = Nat.ofDigits base ((numeral base other).map lowerDigits.idxOf).reverse :=
          (hnum other).value.symm
      _ = Nat.ofDigits base ((numeral base value).map lowerDigits.idxOf).reverse := by rw [htext]
      _ = value := (hnum value).value
  · rintro rfl
    have hlen : (numeral 10 value).length ≤ 10 := length_numeral_le (by decide) (by omega)
    simpa [Nat.lt_succ_iff] using hlen
  · rintro rfl
    have hlen : (numeral 16 value).length ≤ 8 := length_numeral_le (by decide) (by omega)
    simpa [Nat.lt_succ_iff] using hlen

end

theorem uitoa_numeral_rs :
    (∃ text, uitoa 1000 36 = text ++ [0x00] ∧ 0x00 ∉ text ∧ UnsignedNumeral 36 text 1000) ∧
    (∀ other < 4294967296, uitoa other 36 = uitoa 1000 36 → other = 1000) ∧
    (36 = 10 → (uitoa 1000 36).length ≤ 11) ∧ (36 = 16 → (uitoa 1000 36).length ≤ 9) :=
  uitoa_numeral le_rfl (by decide)

end BlackHole
