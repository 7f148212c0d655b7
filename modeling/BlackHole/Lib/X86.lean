import Mathlib.Data.Nat.Basic
import Mathlib.Data.List.Basic

set_option autoImplicit false

/-! # Address translation and privilege on the x86

32-bit paging with 4 KB pages: a directory of 1024 entries, each with a page table of 1024 entries.
`read32` is the physical memory as the processor reads its words. Below it stand the rules for the
code privilege levels that interrupts need: the level of a descriptor, and where the frame of an
interrupt that changes to an inner level is pushed. -/

namespace X86

/-! ## Translation -/

variable {read32 : ℕ → ℕ} {cr3 v : ℕ}

/-- The directory entry for a linear address. -/
def pde (read32 : ℕ → ℕ) (cr3 v : ℕ) : ℕ :=
  read32 (cr3 / 4096 * 4096 + 4 * (v / 4194304 % 1024))

/-- The page-table entry for a linear address. -/
def pte (read32 : ℕ → ℕ) (cr3 v : ℕ) : ℕ :=
  read32 (pde read32 cr3 v / 4096 * 4096 + 4 * (v / 4096 % 1024))

def present (entry : ℕ) : Bool := entry % 2 = 1

/-- The R/W bit. -/
def rwBit (entry : ℕ) : Bool := entry / 2 % 2 = 1

/-- The U/S bit. -/
def userBit (entry : ℕ) : Bool := entry / 4 % 2 = 1

/-- The physical address, if both entries are present. -/
def walk (read32 : ℕ → ℕ) (cr3 v : ℕ) : Option ℕ :=
  if present (pde read32 cr3 v) && present (pte read32 cr3 v) then
    some (pte read32 cr3 v / 4096 * 4096 + v % 4096)
  else none

/-- The page is mapped, and both entries allow writing. -/
def writable (read32 : ℕ → ℕ) (cr3 v : ℕ) : Bool :=
  (walk read32 cr3 v).isSome && rwBit (pde read32 cr3 v) && rwBit (pte read32 cr3 v)

/-- An access at level 3: the page is mapped, and both entries allow user access. -/
def userMay (read32 : ℕ → ℕ) (cr3 v : ℕ) : Bool :=
  (walk read32 cr3 v).isSome && userBit (pde read32 cr3 v) && userBit (pte read32 cr3 v)

theorem pde_of_aligned (h : cr3 % 4096 = 0) :
    pde read32 cr3 v = read32 (cr3 + 4 * (v / 4194304 % 1024)) := by
  unfold pde
  rw [show cr3 / 4096 * 4096 = cr3 by omega]

/-- The page table is where the directory entry points, behind its flags. -/
theorem pte_of_pde {table flags : ℕ} (h : pde read32 cr3 v = table + flags)
    (htable : table % 4096 = 0) (hflags : flags < 4096) :
    pte read32 cr3 v = read32 (table + 4 * (v / 4096 % 1024)) := by
  unfold pte
  rw [h, show (table + flags) / 4096 * 4096 = table by omega]

theorem walk_eq_some (hpde : present (pde read32 cr3 v) = true)
    (hpte : present (pte read32 cr3 v) = true) :
    walk read32 cr3 v = some (pte read32 cr3 v / 4096 * 4096 + v % 4096) := by
  unfold walk
  rw [hpde, hpte, Bool.and_self, if_pos rfl]

theorem walk_eq_none_of_pde (h : present (pde read32 cr3 v) = false) : walk read32 cr3 v = none := by
  unfold walk
  rw [h, Bool.false_and, if_neg (by decide)]

theorem not_userMay_of_pde (h : userBit (pde read32 cr3 v) = false) :
    userMay read32 cr3 v = false := by
  unfold userMay
  rw [h, Bool.and_false, Bool.false_and]

/-! ## Interrupts -/

/-- The privilege level of a descriptor, from its access byte. -/
def dpl (access : ℕ) : ℕ := access / 32 % 4

/-- The five words (SS, ESP, EFLAGS, CS, EIP) that an interrupt to an inner level pushes below the
    stack pointer it has loaded. -/
def frameSlots (esp : ℕ) : List ℕ :=
  (List.range 5).map fun i => (esp + 4294967296 - 4 * (i + 1)) % 4294967296

end X86
