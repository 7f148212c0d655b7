import Mathlib.Data.Int.ModEq
import BlackHole.Libc.Numerals
import BlackHole.Libc.Strings

set_option autoImplicit false

/-! # Signed numerals

What `itoa` writes for an `int`. The digit loop divides towards zero, so of a negative number it
takes negative remainders: it has to be given a non-negative one. In base 10 `itoa` negates first,
which overflows for the least `int`; in base 16 it does not (`itoa_numeral_iff`). -/

namespace BlackHole

/-! ## Numerals -/

/-- The characters `0`-`9` and `a`-`f`. -/
def digitOf (d : ℕ) : UInt8 := (cstr "0123456789abcdef").getD d 0

/-- The digits `ds`, the most significant one first, with or without a minus sign. -/
def signedNumeral (neg : Bool) (ds : List ℕ) : List UInt8 :=
  (if neg then [0x2D] else []) ++ ds.map digitOf

/-- The number they stand for. -/
def signedValue (base : ℕ) (neg : Bool) (ds : List ℕ) : ℤ :=
  (if neg then -1 else 1) * ((Nat.ofDigits base ds.reverse : ℕ) : ℤ)

theorem signedValue_zero (base : ℕ) (neg : Bool) : signedValue base neg [0] = 0 := by
  simp [signedValue, Nat.ofDigits_singleton]

/-- `buf` holds a numeral for `value`, up to multiples of `2^32`, and in base 10 for just that. -/
structure NumeralOf (base : ℕ) (buf : List UInt8) (value : ℤ) (neg : Bool) (ds : List ℕ) : Prop where
  text : buf = signedNumeral neg ds ++ [0x00]
  digits : ∀ d ∈ ds, d < base
  ne_nil : ds ≠ []
  no_leading_zero : ds.head? = some 0 → ds = [0]
  value_mod : signedValue base neg ds ≡ value [ZMOD 4294967296]
  value_ten : base = 10 → signedValue base neg ds = value

def IsNumeralOf (base : ℕ) (buf : List UInt8) (value : ℤ) : Prop :=
  ∃ neg ds, NumeralOf base buf value neg ds

theorem digitChar_eq_digitOf : ∀ d < 16, digitChar ((1 : ℤ) * (d : ℕ)) = digitOf d := by decide

/-- A negative remainder becomes a character that is no digit but zero. -/
theorem digitChar_neg_le : ∀ d < 16, digitChar ((-1 : ℤ) * (d : ℕ)) ≤ 0x30 := by decide

theorem digitOf_le : ∀ d < 16, digitOf d ≤ 0x30 → d = 0 := by decide

/-! ## The digit loop -/

section

variable {base : ℕ} [base.AtLeastTwo]

/-- The digits that `itoa` takes off `σ * n` are those of `n`, with the sign `σ`. -/
theorem itoaDigits_eq {σ : ℤ} (hσ : σ = 1 ∨ σ = -1) (n : ℕ) (str : List UInt8) :
    itoaDigits base (σ * n) str
      = str ++ (Nat.digits base n).map fun (d : ℕ) => digitChar (σ * d) := by
  induction n using Nat.strong_induction_on generalizing str with
  | _ n ih =>
      have hbase : 1 < base := Nat.AtLeastTwo.prop
      rw [itoaDigits]
      rcases Nat.eq_zero_or_pos n with rfl | hpos
      · simp
      have hne : σ * (n : ℤ) ≠ 0 := by
        rcases hσ with rfl | rfl
        · omega
        · omega
      have hdiv : (σ * (n : ℤ)).tdiv base = σ * ((n / base : ℕ) : ℤ) := by
        rcases hσ with rfl | rfl
        · rw [one_mul, one_mul]
          exact Int.ofNat_tdiv n base
        · rw [neg_one_mul, neg_one_mul, Int.neg_tdiv, Int.ofNat_tdiv]
      have hmod : (σ * (n : ℤ)).tmod base = σ * ((n % base : ℕ) : ℤ) := by
        rcases hσ with rfl | rfl
        · rw [one_mul, one_mul]
          exact Int.ofNat_tmod n base
        · rw [neg_one_mul, neg_one_mul, Int.neg_tmod, Int.ofNat_tmod]
      rw [if_neg hne, hdiv, hmod, ih _ (Nat.div_lt_self hpos hbase), Nat.digits_def' hbase hpos]
      simp

/-- `itoa` writes the digits behind its sign. -/
theorem itoa_eq {value σ : ℤ} {n : ℕ} {neg : Bool} (h0 : value ≠ 0)
    (hneg : neg = true ↔ value < 0 ∧ base = 10) (hσ : σ = 1 ∨ σ = -1)
    (hvalue : (if neg then (-value).bmod 4294967296 else value) = σ * n) (hn0 : n ≠ 0)
    (hn : n < 4294967296) :
    itoa value base = (if neg then [0x2D] else []) ++
      ((Nat.digits base n).reverse.map fun (d : ℕ) => digitChar (σ * d)) ++ [0x00] := by
  have hlen : (Nat.digits base n).length ≤ 32 := length_digits_le hn
  rw [itoa, if_neg h0]
  simp only [← hneg, hvalue, itoaDigits_eq hσ, List.nil_append]
  rw [reverse_append]
  · cases neg <;> simp [List.map_reverse]
  · cases neg <;> simp [Nat.digits_eq_nil_iff_eq_zero, hn0]
  · cases neg
    · simp
      omega
    · simp
      omega

/-- The digits of a number, as a numeral. -/
theorem numeralOf_digits (hbase : base ≤ 16) {value : ℤ} (neg : Bool) {n : ℕ} (hn0 : n ≠ 0)
    (hbuf : itoa value base = (if neg then [0x2D] else []) ++
      ((Nat.digits base n).reverse.map fun (d : ℕ) => digitChar ((1 : ℤ) * d)) ++ [0x00])
    (hvalue : (if neg then -1 else 1) * (n : ℤ) = value) :
    IsNumeralOf base (itoa value base) value := by
  have hbase1 : 1 < base := Nat.AtLeastTwo.prop
  have hval : signedValue base neg (Nat.digits base n).reverse = value := by
    rw [signedValue, List.reverse_reverse, Nat.ofDigits_digits, hvalue]
  have hne : Nat.digits base n ≠ [] := by simpa [Nat.digits_eq_nil_iff_eq_zero] using hn0
  refine ⟨neg, (Nat.digits base n).reverse, ?_, fun d hd =>
    Nat.digits_lt_base hbase1 (List.mem_reverse.1 hd), by simpa using hne, fun hhead => ?_,
    by rw [hval], fun _ => hval⟩
  · rw [hbuf, signedNumeral]
    congr 2
    refine List.map_congr_left fun d hd => digitChar_eq_digitOf d ?_
    exact lt_of_lt_of_le (Nat.digits_lt_base hbase1 (List.mem_reverse.1 hd)) hbase
  · obtain ⟨d, hd, -, hd0⟩ := head?_reverse_digits base hn0
    rw [hd, Option.some.injEq] at hhead
    exact absurd hhead hd0

/-- What is written of negative remainders is no numeral: of its characters only zeros are digits. -/
theorem not_isNumeralOf_of_le (hbase : base ≤ 16) {value : ℤ} (hlo : -2147483648 ≤ value)
    (hneg : value < 0) (hbuf : ∀ c ∈ itoa value base, c ≤ 0x30) :
    ¬ IsNumeralOf base (itoa value base) value := by
  rintro ⟨neg, ds, h⟩
  have hzero : ∀ d ∈ ds, d = 0 := by
    intro d hd
    have hmem : digitOf d ∈ itoa value base := by
      rw [h.text, signedNumeral]
      exact List.mem_append_left _ (List.mem_append_right _ (List.mem_map_of_mem hd))
    exact digitOf_le d (lt_of_lt_of_le (h.digits d hd) hbase) (hbuf _ hmem)
  have hhead : ds.head? = some 0 := by
    rcases hds : ds with _ | ⟨d, ds'⟩
    · exact absurd hds h.ne_nil
    · rw [List.head?_cons, hzero d (by simp [hds])]
  have hvalue := h.value_mod
  rw [h.no_leading_zero hhead] at hvalue
  rw [signedValue_zero] at hvalue
  have hdvd := Int.ModEq.dvd hvalue
  omega

/-- A negative value that is not made positive first is written in characters up to `0`. -/
theorem itoa_le_of_neg (hbase : base ≤ 16) {value : ℤ} (hlo : -2147483648 ≤ value)
    (hneg : value < 0) (hkept : ¬ (base = 10 ∧ value ≠ -2147483648)) :
    ∀ c ∈ itoa value base, c ≤ 0x30 := by
  have hbase1 : 1 < base := Nat.AtLeastTwo.prop
  obtain ⟨n, hn⟩ : ∃ n : ℕ, value = -(n : ℤ) := ⟨(-value).toNat, by omega⟩
  have hbuf : itoa value base = (if decide (base = 10) then [0x2D] else []) ++
      ((Nat.digits base n).reverse.map fun (d : ℕ) => digitChar ((-1 : ℤ) * d)) ++ [0x00] := by
    refine itoa_eq (by omega) (by simp [hneg]) (Or.inr rfl) ?_ (by omega) (by omega)
    by_cases h10 : base = 10
    · -- the least `int` is its own negative
      have hmin : value = -2147483648 := by
        by_contra hne
        exact hkept ⟨h10, hne⟩
      obtain rfl : n = 2147483648 := by omega
      rw [if_pos (by simpa using h10), hmin]
      decide
    · rw [if_neg (by simpa using h10), hn, neg_one_mul]
  intro c hc
  rw [hbuf, List.mem_append, List.mem_append] at hc
  rcases hc with (hc | hc) | hc
  · split at hc
    · rw [List.mem_singleton.1 hc]
      decide
    · simp at hc
  · obtain ⟨d, hd, rfl⟩ := List.mem_map.1 hc
    have hlt := Nat.digits_lt_base hbase1 (List.mem_reverse.1 hd)
    exact digitChar_neg_le d (lt_of_lt_of_le hlt hbase)
  · rw [List.mem_singleton.1 hc]
    decide

/-- For every `int`, in base 10 or 16, `itoa` writes a numeral for it exactly if it is not negative, or
    the base is 10 and it is not the least one. -/
theorem itoa_numeral_iff (hbase : base = 10 ∨ base = 16) {value : ℤ} (hlo : -2147483648 ≤ value)
    (hhi : value < 2147483648) :
    IsNumeralOf base (itoa value base) value ↔ 0 ≤ value ∨ base = 10 ∧ value ≠ -2147483648 := by
  have hle : base ≤ 16 := by omega
  rcases lt_trichotomy value 0 with hneg | rfl | hpos
  · obtain ⟨n, hn⟩ : ∃ n : ℕ, value = -(n : ℤ) := ⟨(-value).toNat, by omega⟩
    by_cases hten : base = 10 ∧ value ≠ -2147483648
    · refine iff_of_true (numeralOf_digits hle true (n := n) (by omega) ?_ ?_) (Or.inr hten)
      · refine itoa_eq (by omega) (by simp [hneg, hten.1]) (Or.inl rfl) ?_ (by omega) (by omega)
        rw [if_pos rfl, one_mul, hn, neg_neg]
        exact Int.bmod_eq_of_le (by omega) (by omega)
      · simp [hn]
    · refine iff_of_false (not_isNumeralOf_of_le hle hlo hneg ?_) (by omega)
      exact itoa_le_of_neg hle hlo hneg hten
  · refine iff_of_true ⟨false, [0], ?_, by simp; omega, by simp, fun _ => rfl, ?_, fun _ => ?_⟩
      (Or.inl le_rfl)
    · rw [itoa, if_pos rfl]
      decide
    · rw [signedValue_zero]
    · rw [signedValue_zero]
  · obtain ⟨n, rfl⟩ : ∃ n : ℕ, value = (n : ℤ) := ⟨value.toNat, by omega⟩
    refine iff_of_true (numeralOf_digits hle false (n := n) (by omega) ?_ (by simp))
      (Or.inl hpos.le)
    exact itoa_eq (by omega) (by simp) (Or.inl rfl) (by simp) (by omega) (by omega)

end

theorem itoa_numeral_iff_ten :
    IsNumeralOf 10 (itoa (-120) 10) (-120) ↔ 0 ≤ (-120 : ℤ) ∨ 10 = 10 ∧ (-120 : ℤ) ≠ -2147483648 :=
  itoa_numeral_iff (Or.inl rfl) (by decide) (by decide)

/-- The least `int` in base 10, and `-1` in base 16. -/
theorem itoa_not_numeral : itoa (-2147483648) 10 = cstr "-./,),(-*,(" ++ [0x00] ∧
    ¬ IsNumeralOf 10 (itoa (-2147483648) 10) (-2147483648) ∧
    itoa (-1) 16 = cstr "/" ++ [0x00] ∧ ¬ IsNumeralOf 16 (itoa (-1) 16) (-1) := by
  have hleast : itoa (-2147483648) 10 = cstr "-./,),(-*,(" ++ [0x00] := by
    rw [itoa_eq (σ := -1) (n := 2147483648) (by decide) (by simp : true = true ↔ _) (Or.inr rfl)
      (by decide) (by decide) (by decide)]
    norm_num
    decide
  have hone : itoa (-1) 16 = cstr "/" ++ [0x00] := by
    rw [itoa_eq (σ := -1) (n := 1) (by decide) (by simp : false = true ↔ _) (Or.inr rfl)
      (by decide) (by decide) (by decide)]
    norm_num
    decide
  refine ⟨hleast, not_isNumeralOf_of_le (by decide) le_rfl (by decide) ?_, hone,
    not_isNumeralOf_of_le (by decide) (by decide) (by decide) ?_⟩
  · rw [hleast]
    exact fun c hc => of_decide_eq_true (List.all_eq_true.1
      (by decide : (cstr "-./,),(-*,(" ++ [0x00]).all fun c => decide (c ≤ 0x30)) c hc)
  · rw [hone]
    exact fun c hc => of_decide_eq_true (List.all_eq_true.1
      (by decide : (cstr "/" ++ [0x00]).all fun c => decide (c ≤ 0x30)) c hc)

end BlackHole
