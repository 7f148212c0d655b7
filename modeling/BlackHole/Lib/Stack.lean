import BlackHole.Lib.Bytes

set_option autoImplicit false

/-! # Words on a stack

A stack of 32-bit words that grows downwards in a memory of bytes: what a push adds, and what is left
of it when the memory changes elsewhere. -/

namespace Bytes

/-- The words from address `a` upwards, the one on top first. -/
def WordsAt (f : ℕ → UInt8) : ℕ → List UInt32 → Prop
  | _, [] => True
  | a, w :: ws => le32 f a = w.toNat ∧ WordsAt f (a + 4) ws

variable {f g : ℕ → UInt8} {a : ℕ} {w : UInt32} {ws : List UInt32}

theorem WordsAt.congr (h : WordsAt f a ws) (hfg : ∀ x, a ≤ x → x < a + 4 * ws.length → g x = f x) :
    WordsAt g a ws := by
  induction ws generalizing a with
  | nil => trivial
  | cons w ws ih =>
      obtain ⟨hw, hws⟩ := h
      rw [List.length_cons] at hfg
      refine ⟨?_, ih hws fun x hx hlt => hfg x (by omega) (by omega)⟩
      rw [← hw]
      exact le32_congr fun k hk => hfg _ (by omega) (by omega)

/-- A push. -/
theorem WordsAt.put32 (h : WordsAt f (a + 4) ws) (w : UInt32) :
    WordsAt (put32 f a w.toNat) a (w :: ws) := by
  refine ⟨?_, h.congr fun x hx _ => put32_of_outside f _ (Or.inr hx)⟩
  rw [le32_put32]
  exact Nat.mod_eq_of_lt w.toNat_lt

/-- The word on top. -/
theorem WordsAt.top (h : WordsAt f a (w :: ws)) : UInt32.ofNat (le32 f a) = w := by
  rw [h.1, UInt32.ofNat_toNat]

/-- What lies below the top words. -/
theorem WordsAt.drop {top : List UInt32} (h : WordsAt f a (top ++ ws)) :
    WordsAt f (a + 4 * top.length) ws := by
  induction top generalizing a with
  | nil => exact h
  | cons w top ih =>
      rw [List.length_cons, show a + 4 * (top.length + 1) = a + 4 + 4 * top.length by omega]
      exact ih h.2

end Bytes
