import BlackHole.CTypes
import BlackHole.Lib.Bytes
import BlackHole.Lib.Loop

set_option autoImplicit false

/-! # The kernel heap

`kernel/memory.c` on a byte-addressed memory. A `block_header_t` is three 32-bit words: `size`,
`is_free` and `next`. The two loops along the block list are `Loop.iterate`, so `memoryAlloc` and
`memoryFree` take an amount of fuel. -/

namespace BlackHole

open Bytes

/-- Physical memory. -/
abbrev Mem := ℕ → UInt8

/-- `HEAP_START` -/
def heapStart : ℕ := 0x100000

/-- `HEAP_SIZE` -/
def heapSize : ℕ := 0x100000

/-- `sizeof(block_header_t)` -/
def headerSize : ℕ := 12

/-! ## The fields of `block_header_t` -/

def blockSize (m : Mem) (p : ℕ) : ℕ := le32 m p

def blockIsFree (m : Mem) (p : ℕ) : ℕ := le32 m (p + 4)

def blockNext (m : Mem) (p : ℕ) : ℕ := le32 m (p + 8)

def setBlockSize (m : Mem) (p v : ℕ) : Mem := put32 m p v

def setBlockIsFree (m : Mem) (p v : ℕ) : Mem := put32 m (p + 4) v

def setBlockNext (m : Mem) (p v : ℕ) : Mem := put32 m (p + 8) v

/-! ## The interface -/

/-- `memory_init`; `free_list` is the constant `HEAP_START`. -/
def memoryInit (m : Mem) : Mem :=
  let m := setBlockSize m heapStart (heapSize - headerSize)
  let m := setBlockIsFree m heapStart 1
  setBlockNext m heapStart 0

/-- `(size + 3) & ~3` -/
def alignSize (size : ℕ) : ℕ := u32 (size + 3) / 4 * 4

/-- Split the block at `current` behind `alignedSize` bytes of payload. -/
def splitBlock (m : Mem) (current alignedSize : ℕ) : Mem :=
  let newBlock := u32 (current + headerSize + alignedSize)
  let m := setBlockSize m newBlock (u32sub (u32sub (blockSize m current) alignedSize) headerSize)
  let m := setBlockIsFree m newBlock 1
  let m := setBlockNext m newBlock (blockNext m current)
  let m := setBlockSize m current alignedSize
  setBlockNext m current newBlock

/-- One iteration of the search of `memory_alloc`: leave with the pointer and the memory, or go on
    with the next block. -/
def allocStep (m : Mem) (alignedSize current : ℕ) : (ℕ × Mem) ⊕ ℕ :=
  if current = 0 then .inl (0, m)
  else if blockIsFree m current ≠ 0 ∧ alignedSize ≤ blockSize m current then
    let m := if u32 (alignedSize + headerSize + 4) ≤ blockSize m current then
        splitBlock m current alignedSize
      else m
    .inl (u32 (current + headerSize), setBlockIsFree m current 0)
  else .inr (blockNext m current)

/-- `memory_alloc`: the pointer (`0` on failure) and the memory. -/
def memoryAlloc (fuel : ℕ) (m : Mem) (size : ℕ) : Option (ℕ × Mem) :=
  if size = 0 then some (0, m)
  else Loop.iterate (allocStep m (alignSize size)) fuel heapStart

/-- One iteration of the coalescing loop: absorb the next block, or go on to it. -/
def coalesceStep (st : ℕ × Mem) : Mem ⊕ (ℕ × Mem) :=
  let (current, m) := st
  if current = 0 then .inl m
  else if blockIsFree m current ≠ 0 ∧ blockNext m current ≠ 0 ∧
      blockIsFree m (blockNext m current) ≠ 0 then
    let m := setBlockSize m current
      (u32 (blockSize m current + u32 (headerSize + blockSize m (blockNext m current))))
    .inr (current, setBlockNext m current (blockNext m (blockNext m current)))
  else .inr (blockNext m current, m)

/-- `memory_free` -/
def memoryFree (fuel : ℕ) (m : Mem) (ptr : ℕ) : Option Mem :=
  if ptr = 0 then some m
  else Loop.iterate coalesceStep fuel (heapStart, setBlockIsFree m (u32sub ptr headerSize) 1)

end BlackHole
