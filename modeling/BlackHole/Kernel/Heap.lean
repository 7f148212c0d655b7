import Mathlib.Logic.Relation
import BlackHole.Kernel.HeapShape

set_option autoImplicit false

/-! # The heap invariant

The states of the heap that `memory_init`, `memory_alloc`, `memory_free` and the writes of the
heap's clients into their own payloads lead to. `HeapInv` ties the block list in memory to the live
pointers; one spec lemma for each function says how it moves the invariant and what it leaves
alone. -/

namespace BlackHole

open Bytes FirstFit

/-! ## The invariant -/

/-- The block list tiles the heap, no two neighbours are free, and the allocated blocks are the live
    pointers' (`live q` is the size requested for `q`). -/
structure HeapInv (m : Mem) (live : ℕ → Option ℕ) (bs : List Block) : Prop where
  list : BlockList m heapStart bs
  tiles : Tiles headerSize heapStart bs (heapStart + heapSize)
  sizes : ∀ b ∈ bs, 0 < b.size ∧ 4 ∣ b.size
  separated : Separated bs
  owned : ∀ b ∈ bs, b.free = false → live (b.addr + headerSize) ≠ none
  live : ∀ q n, live q = some n → ∃ b ∈ bs, b.free = false ∧ b.addr + headerSize = q ∧ n ≤ b.size

theorem HeapInv.shape {m : Mem} {live : ℕ → Option ℕ} {bs : List Block} (h : HeapInv m live bs) :
    HeapShape m live bs := by
  refine ⟨h.list, h.tiles, fun b hb => (h.sizes b hb).2, h.separated, h.owned, fun q n hq => ?_⟩
  obtain ⟨b, hb, hfree, hbq, -⟩ := h.live q n hq
  exact ⟨b, hb, hfree, hbq⟩

/-- What the invariant adds to the shape: no payload is empty, and each holds what was requested. -/
theorem HeapShape.inv {m : Mem} {live : ℕ → Option ℕ} {bs : List Block} (h : HeapShape m live bs)
    (hpos : ∀ b ∈ bs, 0 < b.size)
    (hlive : ∀ q n, live q = some n → ∃ b ∈ bs, b.free = false ∧ b.addr + headerSize = q ∧ n ≤ b.size) :
    HeapInv m live bs :=
  ⟨h.list, h.tiles, fun b hb => ⟨hpos b hb, h.aligned b hb⟩, h.separated, h.owned, hlive⟩

/-! ## `memory_init` -/

theorem memoryInit_inv (m : Mem) :
    HeapInv (memoryInit m) (fun _ => none) [⟨heapStart, heapSize - headerSize, true⟩] := by
  refine ⟨⟨by decide, rfl, ?_, ?_, ?_⟩, ⟨rfl, rfl⟩, ?_, List.isChain_singleton _, ?_, ?_⟩
  · simp only [memoryInit, blockSize, setBlockNext, setBlockIsFree, setBlockSize]
    rw [le32_put32_of_disjoint _ _ (by omega), le32_put32_of_disjoint _ _ (by omega), le32_put32]
    decide
  · simp only [memoryInit, blockIsFree, setBlockNext, setBlockIsFree]
    rw [le32_put32_of_disjoint _ _ (by omega), le32_put32]
    decide
  · simp only [BlockList, memoryInit, blockNext, setBlockNext]
    rw [le32_put32]
  · intro b hb
    obtain rfl := List.mem_singleton.1 hb
    decide
  · intro b hb hfree
    obtain rfl := List.mem_singleton.1 hb
    simp at hfree
  · intro q n hq
    simp at hq

/-! ## `memory_alloc` -/

/-- Rounding up to a multiple of 4 does not wrap for the sizes that can be requested. -/
theorem alignSize_spec {size : ℕ} (hpos : 0 < size) (hsize : size ≤ 0xFFFFFFFC) :
    size ≤ alignSize size ∧ 4 ∣ alignSize size ∧ 0 < alignSize size := by
  have hround : u32 (size + 3) = size + 3 := u32_of_lt (by omega)
  refine ⟨?_, Nat.dvd_mul_left 4 _, ?_⟩ <;> simp only [alignSize, hround] <;> omega

/-- `memory_alloc` returns: either `NULL`, and nothing has changed, or a new live pointer. -/
theorem memoryAlloc_spec {m : Mem} {live : ℕ → Option ℕ} {bs : List Block} (h : HeapInv m live bs)
    {size : ℕ} (hsize : size ≤ 0xFFFFFFFC) :
    ∃ q m', (∀ fuel, bs.length < fuel → memoryAlloc fuel m size = some (q, m')) ∧
      HeapKept live m m' ∧
      (q = 0 ∧ m' = m ∧ (size = 0 ∨ alloc headerSize 4 (alignSize size) bs = none) ∨
        q ≠ 0 ∧ live q = none ∧ ∃ bs', alloc headerSize 4 (alignSize size) bs = some (q, bs') ∧
          HeapInv m' (Function.update live q (some size)) bs') := by
  rcases Nat.eq_zero_or_pos size with rfl | hpos
  · exact ⟨0, m, fun fuel _ => if_pos rfl, HeapKept.refl live m, Or.inl ⟨rfl, rfl, Or.inl rfl⟩⟩
  obtain ⟨hle, -, halpos⟩ := alignSize_spec hpos hsize
  obtain ⟨q, m', hrun, hkept, hcases⟩ := memoryAlloc_shape h.shape (Nat.ne_of_gt hpos)
  refine ⟨q, m', hrun, hkept, ?_⟩
  rcases hcases with ⟨hq, hm, hnone⟩ | ⟨hq, hnew, bs', halloc, hshape, -⟩
  · exact Or.inl ⟨hq, hm, Or.inr hnone⟩
  refine Or.inr ⟨hq, hnew, bs', halloc, hshape.inv ?_ fun r n hr => ?_⟩
  · exact sizes_alloc halpos (fun s _ hs => by omega) halloc fun b hb => (h.sizes b hb).1
  · obtain ⟨c, hcn, hcfree, hcq, -, hmem⟩ := mem_alloc halloc
    rcases PartialMap.update_some_eq_some.1 hr with ⟨rfl, rfl⟩ | ⟨-, hr'⟩
    · exact ⟨c, ((hmem c).2 (Or.inl rfl)).1, hcfree, hcq, by omega⟩
    · obtain ⟨d, hd, hdfree, hdr, hdn⟩ := h.live r n hr'
      exact ⟨d, ((hmem d).2 (Or.inr ⟨hd, hdfree⟩)).1, hdfree, hdr, hdn⟩

/-- A request that the block list can serve. -/
theorem HeapInv.alloc_eq {m : Mem} {live : ℕ → Option ℕ} {bs bs' : List Block} {size q : ℕ}
    (h : HeapInv m live bs) (hpos : size ≠ 0) (hsize : size ≤ 0xFFFFFFFC)
    (halloc : alloc headerSize 4 (alignSize size) bs = some (q, bs')) :
    ∃ m', (∀ fuel, bs.length < fuel → memoryAlloc fuel m size = some (q, m')) ∧ q ≠ 0 ∧
      HeapInv m' (Function.update live q (some size)) bs' ∧ HeapKept live m m' := by
  obtain ⟨q', m', hrun, hkept, hcases⟩ := memoryAlloc_spec h hsize
  rcases hcases with ⟨-, -, h0 | hnone⟩ | ⟨hq, -, bs'', hsome, hinv⟩
  · exact absurd h0 hpos
  · rw [halloc] at hnone
    exact nomatch hnone
  · obtain ⟨rfl, rfl⟩ := Prod.mk.inj (Option.some.inj (halloc.symm.trans hsome))
    exact ⟨m', hrun, hq, hinv, hkept⟩

/-! ## `memory_free` -/

/-- `memory_free` of `NULL` does nothing; of a live pointer it returns, that pointer alone is not live
    any more, and its block has been merged with its free neighbours. -/
theorem memoryFree_spec {m : Mem} {live : ℕ → Option ℕ} {bs : List Block} (h : HeapInv m live bs)
    {ptr : ℕ} (hptr : ptr = 0 ∨ live ptr ≠ none) :
    ∃ m', (∀ fuel, bs.length < fuel → memoryFree fuel m ptr = some m') ∧
      HeapInv m' (Function.update live ptr none) (coalesce headerSize (release headerSize ptr bs)) ∧
      HeapKept (Function.update live ptr none) m m' := by
  obtain ⟨m', hrun, hshape, hkept, -⟩ := memoryFree_shape h.shape hptr
  refine ⟨m', hrun, hshape.inv ?_ fun r k hr => ?_, hkept⟩
  · exact sizes_coalesce (fun s t hs _ => by omega)
      (sizes_release (P := fun n => 0 < n) fun b hb => (h.sizes b hb).1)
  · obtain ⟨hrp, hr'⟩ := PartialMap.update_none_eq_some.1 hr
    obtain ⟨d, hd, hdfree, hdr, hdk⟩ := h.live r k hr'
    exact ⟨d, (mem_coalesce.2 (mem_release.2 ⟨hd, hdfree, by omega⟩)).1, hdfree, hdr, hdk⟩

/-! ## Client writes -/

/-- Inside the heap only bytes of live payloads have changed. -/
def ClientWrite (live : ℕ → Option ℕ) (m m' : Mem) : Prop :=
  ∀ x, heapStart ≤ x → x < heapStart + heapSize →
    (∀ q n, live q = some n → ¬ (q ≤ x ∧ x < q + n)) → m' x = m x

theorem ClientWrite.payload {m m' : Mem} {live : ℕ → Option ℕ} {bs : List Block}
    (h : HeapInv m live bs) (hw : ClientWrite live m m') : PayloadWrite live m m' := by
  refine fun x hx hlt hout => hw x hx hlt fun q n hq hxq => hout q n hq ?_
  obtain ⟨b, hb, -, rfl, hn⟩ := h.live q n hq
  rw [Nat.add_sub_cancel, ← (h.list.mem b hb).1]
  omega

theorem HeapInv.clientWrite {m m' : Mem} {live : ℕ → Option ℕ} {bs : List Block}
    (h : HeapInv m live bs) (hw : ClientWrite live m m') : HeapInv m' live bs :=
  (h.shape.payloadWrite (hw.payload h)).inv (fun b hb => (h.sizes b hb).1) h.live

end BlackHole
