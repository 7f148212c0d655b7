import Mathlib.Data.Nat.Basic
import Mathlib.Data.Int.Basic

set_option autoImplicit false

/-! # C integers

The kernel is 32-bit C. Its unsigned values are natural numbers below `2 ^ 32`, and every 32-bit
operation that could leave that range is wrapped in `u32` (or is `u32sub`) where the source performs
it. -/

namespace BlackHole

/-- Conversion to `uint32_t`. -/
def u32 (n : ℕ) : ℕ := n % 4294967296

/-- `uint32_t` subtraction. -/
def u32sub (a b : ℕ) : ℕ := (a + 4294967296 - b) % 4294967296

/-- Conversion of a `uint32_t` to `int` (two's complement, as gcc does it). -/
def toInt (n : ℕ) : ℤ := if n < 2147483648 then n else (n : ℤ) - 4294967296

theorem u32_of_lt {n : ℕ} (h : n < 4294967296) : u32 n = n := Nat.mod_eq_of_lt h

theorem u32_lt (n : ℕ) : u32 n < 4294967296 := Nat.mod_lt _ (by decide)

theorem u32sub_of_le {a b : ℕ} (h : b ≤ a) (ha : a < 4294967296) : u32sub a b = a - b := by
  unfold u32sub
  omega

theorem toInt_of_lt {n : ℕ} (h : n < 2147483648) : toInt n = n := if_pos h

end BlackHole
