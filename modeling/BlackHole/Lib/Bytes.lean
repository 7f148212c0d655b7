import Mathlib.Data.Nat.Basic
import Mathlib.Data.Fintype.Pi
import Mathlib.Data.Fintype.Basic

set_option autoImplicit false

/-! # Bytes and little-endian words

A byte store is a function from addresses to bytes. `le16`/`le32` read a little-endian word from it
and `put16`/`put32` replace one; a value that does not fit keeps its low bits. `Buf n` is a store of
exactly `n` bytes, with the same words and with the sub-buffers `slice`/`splice`. -/

namespace Bytes

variable {f g : ℕ → UInt8}

/-! ## Words in a byte store -/

/-- The little-endian 16-bit word at `i`. -/
def le16 (f : ℕ → UInt8) (i : ℕ) : ℕ := (f i).toNat + 256 * (f (i + 1)).toNat

/-- The little-endian 32-bit word at `i`. -/
def le32 (f : ℕ → UInt8) (i : ℕ) : ℕ := le16 f i + 65536 * le16 f (i + 2)

/-- Replace the 16-bit word at `i`. -/
def put16 (f : ℕ → UInt8) (i v : ℕ) : ℕ → UInt8 := fun k =>
  if k = i then UInt8.ofNat v else if k = i + 1 then UInt8.ofNat (v / 256) else f k

/-- Replace the 32-bit word at `i`. -/
def put32 (f : ℕ → UInt8) (i v : ℕ) : ℕ → UInt8 := put16 (put16 f i v) (i + 2) (v / 65536)

theorem le16_lt (f : ℕ → UInt8) (i : ℕ) : le16 f i < 65536 := by
  have h0 : (f i).toNat < 256 := UInt8.toNat_lt _
  have h1 : (f (i + 1)).toNat < 256 := UInt8.toNat_lt _
  unfold le16
  omega

theorem le32_lt (f : ℕ → UInt8) (i : ℕ) : le32 f i < 4294967296 := by
  have h0 := le16_lt f i
  have h1 := le16_lt f (i + 2)
  unfold le32
  omega

theorem le16_congr {i j : ℕ} (h0 : f i = g j) (h1 : f (i + 1) = g (j + 1)) :
    le16 f i = le16 g j := by
  simp only [le16, h0, h1]

theorem le32_congr {i j : ℕ} (h : ∀ k < 4, f (i + k) = g (j + k)) : le32 f i = le32 g j := by
  have hlow : le16 f i = le16 g j := le16_congr (h 0 (by omega)) (h 1 (by omega))
  have hhigh : le16 f (i + 2) = le16 g (j + 2) := le16_congr (h 2 (by omega)) (h 3 (by omega))
  simp only [le32, hlow, hhigh]

/-- A word determines its bytes. -/
theorem le16_inj {i j : ℕ} (h : le16 f i = le16 g j) : f i = g j ∧ f (i + 1) = g (j + 1) := by
  have hf := (f i).toNat_lt
  have hg := (g j).toNat_lt
  simp only [le16] at h
  exact ⟨UInt8.toNat_inj.1 (by omega), UInt8.toNat_inj.1 (by omega)⟩

theorem put16_of_outside (f : ℕ → UInt8) {i k : ℕ} (v : ℕ) (h : k < i ∨ i + 2 ≤ k) :
    put16 f i v k = f k := by
  unfold put16
  rw [if_neg (by omega), if_neg (by omega)]

theorem put32_of_outside (f : ℕ → UInt8) {i k : ℕ} (v : ℕ) (h : k < i ∨ i + 4 ≤ k) :
    put32 f i v k = f k := by
  unfold put32
  rw [put16_of_outside _ _ (by omega), put16_of_outside _ _ (by omega)]

@[simp] theorem le16_put16 (f : ℕ → UInt8) (i v : ℕ) : le16 (put16 f i v) i = v % 65536 := by
  have h0 : put16 f i v i = UInt8.ofNat v := by simp [put16]
  have h1 : put16 f i v (i + 1) = UInt8.ofNat (v / 256) := by simp [put16]
  simp only [le16, h0, h1, UInt8.toNat_ofNat']
  omega

theorem le16_put16_of_disjoint (f : ℕ → UInt8) {i j : ℕ} (v : ℕ) (h : i + 2 ≤ j ∨ j + 2 ≤ i) :
    le16 (put16 f i v) j = le16 f j :=
  le16_congr (put16_of_outside f v (by omega)) (put16_of_outside f v (by omega))

@[simp] theorem le32_put32 (f : ℕ → UInt8) (i v : ℕ) : le32 (put32 f i v) i = v % 4294967296 := by
  simp only [le32, put32]
  rw [le16_put16_of_disjoint _ _ (by omega), le16_put16, le16_put16]
  omega

theorem le32_put32_of_disjoint (f : ℕ → UInt8) {i j : ℕ} (v : ℕ) (h : i + 4 ≤ j ∨ j + 4 ≤ i) :
    le32 (put32 f i v) j = le32 f j :=
  le32_congr fun k hk => put32_of_outside f v (by omega)

/-- Storing the same word twice is storing it once. -/
theorem put16_put16 (f : ℕ → UInt8) (i v : ℕ) : put16 (put16 f i v) i v = put16 f i v := by
  funext k
  unfold put16
  split_ifs <;> rfl

theorem put16_congr {i v k : ℕ} (h : f k = g k) : put16 f i v k = put16 g i v k := by
  simp only [put16, h]

/-! ## Buffers of a fixed size -/

/-- Exactly `n` bytes. -/
def Buf (n : ℕ) : Type := Fin n → UInt8

namespace Buf

variable {n m : ℕ}

instance : DecidableEq (Buf n) := inferInstanceAs (DecidableEq (Fin n → UInt8))

/-- The byte at `i`; `0` behind the end. -/
def byte (b : Buf n) (i : ℕ) : UInt8 := if h : i < n then b ⟨i, h⟩ else 0

/-- The buffer whose byte `i` is `f i`. -/
def ofFn (f : ℕ → UInt8) : Buf n := fun i => f i

@[simp] theorem byte_ofFn {i : ℕ} (f : ℕ → UInt8) (h : i < n) :
    (ofFn f : Buf n).byte i = f i := by
  simp [byte, ofFn, h]

theorem ext_byte {a b : Buf n} (h : ∀ i < n, a.byte i = b.byte i) : a = b := by
  funext i
  have hi := h i i.isLt
  simpa [byte] using hi

/-- Replace the byte at `i`. -/
def setByte (b : Buf n) (i : ℕ) (v : UInt8) : Buf n :=
  ofFn fun k => if k = i then v else b.byte k

@[simp] theorem byte_setByte_self {b : Buf n} {i : ℕ} {v : UInt8} (h : i < n) :
    (b.setByte i v).byte i = v := by
  simp [setByte, h]

theorem byte_setByte_of_ne {b : Buf n} {i k : ℕ} {v : UInt8} (h : k ≠ i) :
    (b.setByte i v).byte k = b.byte k := by
  by_cases hk : k < n
  · simp [setByte, hk, h]
  · simp [byte, hk]

/-- The little-endian 16-bit word at `i`. -/
def u16 (b : Buf n) (i : ℕ) : ℕ := le16 b.byte i

/-- The little-endian 32-bit word at `i`. -/
def u32 (b : Buf n) (i : ℕ) : ℕ := le32 b.byte i

/-- Replace the 16-bit word at `i`. -/
def setU16 (b : Buf n) (i v : ℕ) : Buf n := ofFn (put16 b.byte i v)

/-- Replace the 32-bit word at `i`. -/
def setU32 (b : Buf n) (i v : ℕ) : Buf n := ofFn (put32 b.byte i v)

theorem u16_lt (b : Buf n) (i : ℕ) : b.u16 i < 65536 := le16_lt _ _

theorem u32_lt (b : Buf n) (i : ℕ) : b.u32 i < 4294967296 := le32_lt _ _

theorem byte_setU16_of_outside (b : Buf n) {i k : ℕ} (v : ℕ) (h : k < i ∨ i + 2 ≤ k) :
    (b.setU16 i v).byte k = b.byte k := by
  by_cases hk : k < n
  · rw [setU16, byte_ofFn _ hk, put16_of_outside _ _ h]
  · simp [byte, hk]

theorem byte_setU32_of_outside (b : Buf n) {i k : ℕ} (v : ℕ) (h : k < i ∨ i + 4 ≤ k) :
    (b.setU32 i v).byte k = b.byte k := by
  by_cases hk : k < n
  · rw [setU32, byte_ofFn _ hk, put32_of_outside _ _ h]
  · simp [byte, hk]

theorem u16_setU16_self (b : Buf n) {i v : ℕ} (hi : i + 2 ≤ n) :
    (b.setU16 i v).u16 i = v % 65536 := by
  rw [← le16_put16 b.byte i v]
  exact le16_congr (byte_ofFn _ (by omega)) (byte_ofFn _ (by omega))

theorem u16_setU16_of_disjoint (b : Buf n) {i j : ℕ} (v : ℕ) (h : i + 2 ≤ j ∨ j + 2 ≤ i) :
    (b.setU16 i v).u16 j = b.u16 j :=
  le16_congr (byte_setU16_of_outside b v (by omega)) (byte_setU16_of_outside b v (by omega))

theorem u32_setU32_self (b : Buf n) {i v : ℕ} (hi : i + 4 ≤ n) :
    (b.setU32 i v).u32 i = v % 4294967296 := by
  rw [← le32_put32 b.byte i v]
  exact le32_congr fun k hk => byte_ofFn _ (by omega)

theorem u16_setU32_of_disjoint (b : Buf n) {i j : ℕ} (v : ℕ) (h : i + 4 ≤ j ∨ j + 2 ≤ i) :
    (b.setU32 i v).u16 j = b.u16 j :=
  le16_congr (byte_setU32_of_outside b v (by omega)) (byte_setU32_of_outside b v (by omega))

theorem setU16_setU16 (b : Buf n) (i v : ℕ) : (b.setU16 i v).setU16 i v = b.setU16 i v := by
  apply ext_byte
  intro k hk
  simp only [setU16, byte_ofFn _ hk]
  rw [put16_congr (byte_ofFn _ hk), put16_put16]

/-! ## Sub-buffers -/

/-- The `m` bytes from `off` on. -/
def slice (m : ℕ) (b : Buf n) (off : ℕ) : Buf m := ofFn fun k => b.byte (off + k)

/-- Replace the `m` bytes from `off` on. -/
def splice (b : Buf n) (off : ℕ) (c : Buf m) : Buf n :=
  ofFn fun k => if off ≤ k ∧ k < off + m then c.byte (k - off) else b.byte k

@[simp] theorem byte_slice {b : Buf n} {off k : ℕ} (h : k < m) :
    (b.slice m off).byte k = b.byte (off + k) := by
  simp [slice, h]

theorem byte_splice_of_inside {b : Buf n} {c : Buf m} {off k : ℕ} (hk : off + k < n) (h : k < m) :
    (b.splice off c).byte (off + k) = c.byte k := by
  rw [splice, byte_ofFn _ hk, if_pos (by omega), Nat.add_sub_cancel_left]

theorem byte_splice_of_outside {b : Buf n} {c : Buf m} {off k : ℕ} (h : k < off ∨ off + m ≤ k) :
    (b.splice off c).byte k = b.byte k := by
  by_cases hk : k < n
  · rw [splice, byte_ofFn _ hk, if_neg (by omega)]
  · simp [byte, hk]

theorem slice_splice_self {b : Buf n} {c : Buf m} {off : ℕ} (h : off + m ≤ n) :
    (b.splice off c).slice m off = c := by
  apply ext_byte
  intro k hk
  rw [byte_slice hk, byte_splice_of_inside (by omega) hk]

theorem slice_splice_of_disjoint {b : Buf n} {c : Buf m} {off off' : ℕ}
    (h : off + m ≤ off' ∨ off' + m ≤ off) :
    (b.splice off c).slice m off' = b.slice m off' := by
  apply ext_byte
  intro k hk
  rw [byte_slice hk, byte_slice hk, byte_splice_of_outside (by omega)]

end Buf

end Bytes
