import BlackHole.Kernel.HeapRuns
import BlackHole.Lib.FreeRuns

set_option autoImplicit false

/-! # What an allocation is given

The heap under requests of any 32-bit size. What `memory_alloc` returns has room for the request
unless rounding the size up wraps (`memoryAlloc_room_iff`); it takes the lowest run of space that no
live block covers (`memoryAlloc_first_run`); and freeing what it returned gives the old block list
back (`memoryAlloc_free_restores`). -/

namespace BlackHole

open Bytes FirstFit

/-! ## Runs with requests of any size -/

/-- An operation on the heap: a request of any 32-bit size, a release of a live pointer or of `NULL`,
    or a client writing to the payloads of its blocks. -/
inductive RequestStep (h : Heap) : HeapOp → Heap → Prop where
  | alloc {size q fuel : ℕ} {m' : Mem} (hsize : size < 4294967296)
      (hrun : memoryAlloc fuel h.mem size = some (q, m')) :
      RequestStep h (.alloc size)
        ⟨m', if q = 0 then h.live else Function.update h.live q (some size)⟩
  | free {ptr fuel : ℕ} {m' : Mem} (hptr : ptr = 0 ∨ h.live ptr ≠ none)
      (hrun : memoryFree fuel h.mem ptr = some m') :
      RequestStep h (.free ptr) ⟨m', Function.update h.live ptr none⟩
  | store {m' : Mem} (hw : PayloadWrite h.live h.mem m') : RequestStep h .store ⟨m', h.live⟩

def RequestReachable (h : Heap) : Prop :=
  ∃ m, Relation.ReflTransGen (fun h h' => ∃ op, RequestStep h op h') (Heap.init m) h

/-- What holds of every reachable heap: its shape, and flags that are `0` or `1`. -/
structure RequestInv (h : Heap) (bs : List Block) : Prop where
  shape : HeapShape h.mem h.live bs
  flags : FlagsExact h.mem bs

theorem Heap.init_requestInv (m : Mem) :
    RequestInv (Heap.init m) [⟨heapStart, heapSize - headerSize, true⟩] := by
  refine ⟨(memoryInit_inv m).shape, fun b hb => ?_⟩
  obtain rfl := List.mem_singleton.1 hb
  simp only [Heap.init, memoryInit, blockIsFree, setBlockNext, setBlockIsFree]
  rw [le32_put32_of_disjoint _ _ (by omega), le32_put32]

theorem RequestInv.step {h h' : Heap} {bs : List Block} (hinv : RequestInv h bs) {op : HeapOp}
    (hs : RequestStep h op h') : ∃ bs', RequestInv h' bs' := by
  cases hs with
  | @alloc size q fuel m' hsize hrun =>
      by_cases h0 : size = 0
      · rw [memoryAlloc, if_pos h0] at hrun
        simp only [Option.some.injEq, Prod.mk.injEq] at hrun
        obtain ⟨rfl, rfl⟩ := hrun
        exact ⟨bs, hinv⟩
      obtain ⟨q', m'', hall, -, hcases⟩ := memoryAlloc_shape hinv.shape h0
      have heq := (memoryAlloc_fuelMono h.mem size).unique hrun hall
      simp only [Prod.mk.injEq] at heq
      obtain ⟨rfl, rfl⟩ := heq
      rcases hcases with ⟨rfl, rfl, -⟩ | ⟨hq, -, bs', -, hshape, hflags⟩
      · exact ⟨bs, hinv⟩
      · rw [if_neg hq]
        exact ⟨bs', hshape, hflags hinv.flags⟩
  | free hptr hrun =>
      obtain ⟨m'', hall, hshape, -, hflags⟩ := memoryFree_shape hinv.shape hptr
      obtain rfl := (memoryFree_fuelMono h.mem _).unique hrun hall
      exact ⟨_, hshape, hflags hinv.flags⟩
  | store hw =>
      exact ⟨bs, hinv.shape.payloadWrite hw, hinv.flags.congr (hinv.shape.headers hw)⟩

theorem RequestReachable.inv {h : Heap} (hreach : RequestReachable h) : ∃ bs, RequestInv h bs := by
  obtain ⟨m, hrun⟩ := hreach
  induction hrun with
  | refl => exact ⟨_, Heap.init_requestInv m⟩
  | tail _ hstep ih =>
      obtain ⟨bs, hinv⟩ := ih
      obtain ⟨op, hs⟩ := hstep
      exact hinv.step hs

/-- The runs of `HeapStep`, where no size wraps and a client writes what it has requested, are among
    these. -/
theorem HeapReachable.request {h : Heap} (hreach : HeapReachable h) : RequestReachable h := by
  obtain ⟨m, hrun⟩ := hreach
  refine ⟨m, ?_⟩
  induction hrun with
  | refl => exact .refl
  | @tail h₁ h₂ hrun hstep ih =>
      obtain ⟨op, hs⟩ := hstep
      obtain ⟨bs, hinv⟩ := HeapReachable.inv ⟨m, hrun⟩
      refine ih.tail ⟨op, ?_⟩
      cases hs with
      | alloc hsize hrun => exact .alloc (by omega) hrun
      | free hptr hrun => exact .free hptr hrun
      | store hw => exact .store (hw.payload hinv)

/-! ## Room for the request -/

/-- What a client that requested `size` bytes and got `p` relies on, with `live` the other pointers. -/
structure Granted (m : Mem) (live : ℕ → Option ℕ) (p size : ℕ) : Prop where
  block : ∃ bs, BlockList m heapStart bs ∧
    (∃ b ∈ bs, b.free = false ∧ b.addr + headerSize = p ∧ size ≤ b.size) ∧
    ∀ b ∈ bs, p + size ≤ b.addr ∨ b.addr + headerSize ≤ p
  inside : heapStart ≤ p ∧ p + size ≤ heapStart + heapSize
  payloads : ∀ q n, live q = some n → q ≠ p ∧
    (p + size ≤ q ∨ q + blockSize m (q - headerSize) ≤ p)

/-- A pointer whose block is large enough is all its client relies on. -/
theorem HeapShape.granted {m : Mem} {live : ℕ → Option ℕ} {bs : List Block} {p size : ℕ}
    (h : HeapShape m (Function.update live p (some size)) bs) (hnew : live p = none)
    {c : Block} (hc : c ∈ bs) (hfree : c.free = false) (hcp : c.addr + headerSize = p)
    (hsize : size ≤ c.size) : Granted m live p size := by
  have hin := h.tiles.mem hc
  unfold Block.stop at hin
  refine ⟨⟨bs, h.list, ⟨c, hc, hfree, hcp, hsize⟩, fun b hb => ?_⟩, by omega, fun q n hq => ?_⟩
  · have hapart := h.tiles.header_payload hb hc
    omega
  · have hqp : q ≠ p := by
      rintro rfl
      simp [hnew] at hq
    obtain ⟨d, hd, -, rfl⟩ := h.live q n (PartialMap.update_some_of_eq_none hnew hq)
    rw [Nat.add_sub_cancel, ← (h.list.mem d hd).1]
    have hapart := h.tiles.payloads hd hc (by rintro rfl; exact hqp hcp)
    omega

/-- Some block on the list is free. -/
def HasFreeBlock (m : Mem) : Prop := ∃ bs, BlockList m heapStart bs ∧ ∃ b ∈ bs, b.free = true

/-- Past `0xFFFFFFFC` the size wraps to `0` when it is rounded up. -/
theorem alignSize_wraps {size : ℕ} (hlow : 0xFFFFFFFC < size) (hsize : size < 4294967296) :
    alignSize size = 0 := by
  obtain ⟨d, hd⟩ := Nat.exists_eq_add_of_lt hlow
  unfold alignSize u32
  omega

/-- In every reachable heap a request returns, and what it returns holds the request exactly if the
    size does not wrap when it is rounded up, or nothing is free. -/
theorem memoryAlloc_room_iff {h : Heap} (hreach : RequestReachable h) {size : ℕ} (hpos : 1 ≤ size)
    (hsize : size < 4294967296) :
    ∃ p m' bound, (∀ fuel, bound < fuel → memoryAlloc fuel h.mem size = some (p, m')) ∧
      ((p ≠ 0 → Granted m' h.live p size) ↔ size ≤ 0xFFFFFFFC ∨ ¬ HasFreeBlock h.mem) := by
  obtain ⟨bs, hinv⟩ := hreach.inv
  obtain ⟨p, m', hall, -, hcases⟩ := memoryAlloc_shape hinv.shape (Nat.ne_of_gt hpos)
  refine ⟨p, m', bs.length, hall, ?_⟩
  rcases hcases with ⟨hp, -, hnone⟩ | ⟨hp, hnew, bs', halloc, hshape, -⟩
  · refine iff_of_true (fun hne => absurd hp hne) ?_
    by_cases hle : size ≤ 0xFFFFFFFC
    · exact Or.inl hle
    · refine Or.inr ?_
      rintro ⟨cs, hcs, c, hc, hcfree⟩
      obtain rfl := hinv.shape.list.unique hcs
      have hlt := alloc_eq_none_iff.1 hnone c hc hcfree
      rw [alignSize_wraps (by omega) hsize] at hlt
      exact absurd hlt (Nat.not_lt_zero _)
  · obtain ⟨c, hcn, hcfree, hcp, ⟨b, hb, hbfree, -⟩, hmem⟩ := mem_alloc halloc
    have hc : c ∈ bs' := ((hmem c).2 (Or.inl rfl)).1
    constructor
    · intro hgranted
      refine Or.inl ?_
      obtain ⟨-, hin⟩ := (hgranted hp).inside
      unfold heapStart heapSize at hin
      omega
    · rintro (hle | hnone) -
      · exact hshape.granted hnew hc hcfree hcp
          (le_trans (alignSize_spec (by omega) hle).1 hcn)
      · exact absurd ⟨bs, hinv.shape.list, b, hb, hbfree⟩ hnone

theorem Heap.init_reachable (m : Mem) : RequestReachable (Heap.init m) := ⟨m, .refl⟩

/-- The fragmented heap gives 500 bytes of its second block; a request that wraps gets too little. -/
theorem memoryAlloc_room_iff_fragmented :
    ∃ h m' bound, RequestReachable h ∧ HeapInv h.mem h.live fragmentedBlocks ∧
      (∀ fuel, bound < fuel → memoryAlloc fuel h.mem 500 = some (0x10007C, m')) ∧
      Granted m' h.live 0x10007C 500 ∧
      ∃ p m'' bound, (∀ fuel, bound < fuel → memoryAlloc fuel h.mem 0xFFFFFFFD = some (p, m'')) ∧
        p ≠ 0 ∧ ¬ Granted m'' h.live p 0xFFFFFFFD := by
  obtain ⟨h, hreach, hinv, -⟩ := fragmented_reachable
  obtain ⟨p, m', bound, hall, hroom⟩ :=
    memoryAlloc_room_iff hreach.request (show 1 ≤ 500 by decide) (by decide)
  obtain ⟨rfl, hp⟩ := hinv.alloc_result (by decide) (by decide) rfl hall
  have hfree : HasFreeBlock h.mem := ⟨_, hinv.list, ⟨0x100070, 512, true⟩, by decide, rfl⟩
  obtain ⟨p, m'', bound', hall', hroom'⟩ :=
    memoryAlloc_room_iff hreach.request (show 1 ≤ 0xFFFFFFFD by decide) (by decide)
  have hshort : p ≠ 0 ∧ ¬ Granted m'' h.live p 0xFFFFFFFD :=
    Classical.not_imp.1 fun hgranted => (hroom'.1 hgranted).elim (by decide) (absurd hfree)
  exact ⟨h, _, bound, hreach.request, hinv, hall, hroom.2 (Or.inl (by decide)) hp,
    p, m'', bound', hall', hshort⟩

/-- On the fresh heap a request for `0xFFFFFFFF` bytes is granted a block without payload. -/
theorem memoryAlloc_room_wraps :
    RequestReachable (Heap.init fun _ => 0) ∧
    ∃ m', memoryAlloc 2 (Heap.init fun _ => 0).mem 0xFFFFFFFF = some (0x10000C, m') ∧
      ¬ Granted m' (Heap.init fun _ => 0).live 0x10000C 0xFFFFFFFF := by
  refine ⟨Heap.init_reachable _, _, rfl, fun h => ?_⟩
  have hin := h.inside.2
  unfold heapStart heapSize at hin
  omega

/-! ## First fit in the space that is not live -/

/-- An address of the heap that no live block covers, header included. -/
def NonLive (h : Heap) (x : ℕ) : Prop :=
  (heapStart ≤ x ∧ x < heapStart + heapSize) ∧
    ∀ q n, h.live q = some n →
      ¬ (q - headerSize ≤ x ∧ x < q + blockSize h.mem (q - headerSize))

theorem HeapShape.nonLive_iff {h : Heap} {bs : List Block} (hshape : HeapShape h.mem h.live bs)
    (x : ℕ) : NonLive h x ↔ FreeSpace headerSize heapStart (heapStart + heapSize) bs x := by
  refine and_congr_right fun _ => ⟨fun hx b hb hfree hcov => ?_, fun hx q n hq hxq => ?_⟩
  · obtain ⟨n, hn⟩ := Option.ne_none_iff_exists'.1 (hshape.owned b hb hfree)
    refine hx _ n hn ?_
    rw [Nat.add_sub_cancel, ← (hshape.list.mem b hb).1]
    exact hcov
  · obtain ⟨b, hb, hfree, rfl⟩ := hshape.live q n hq
    rw [Nat.add_sub_cancel, ← (hshape.list.mem b hb).1] at hxq
    exact hx b hb hfree hxq

/-- In every reachable heap `memory_alloc` takes the lowest maximal run of space that is not live and
    has room for a header and the rounded size; only if there is none it returns `NULL`, and then
    nothing has changed. -/
theorem memoryAlloc_first_run {h : Heap} (hreach : RequestReachable h) {size : ℕ} (hpos : 1 ≤ size)
    (hsize : size ≤ 0xFFFFFFFC) :
    ∃ p m' bound, (∀ fuel, bound < fuel → memoryAlloc fuel h.mem size = some (p, m')) ∧
      (p = 0 ↔ ∀ lo hi, MaximalRun (NonLive h) lo hi →
        ¬ lo + headerSize + (size + 3) / 4 * 4 ≤ hi) ∧
      (p = 0 → m' = h.mem) ∧
      (p ≠ 0 → ∃ lo hi, MaximalRun (NonLive h) lo hi ∧ lo + headerSize + (size + 3) / 4 * 4 ≤ hi ∧
        p = lo + headerSize ∧ ∀ lo' hi', MaximalRun (NonLive h) lo' hi' →
          lo' + headerSize + (size + 3) / 4 * 4 ≤ hi' → lo ≤ lo') := by
  obtain ⟨bs, hinv⟩ := hreach.inv
  obtain ⟨p, m', hall, -, hcases⟩ := memoryAlloc_shape hinv.shape (Nat.ne_of_gt hpos)
  have halign : alignSize size = (size + 3) / 4 * 4 := by
    rw [alignSize, u32_of_lt (by omega)]
  have hruns : ∀ lo hi, MaximalRun (NonLive h) lo hi ↔
      MaximalRun (FreeSpace headerSize heapStart (heapStart + heapSize) bs) lo hi :=
    fun lo hi => MaximalRun.congr hinv.shape.nonLive_iff
  have hnone_iff := @alloc_eq_none_iff_run headerSize 4 (alignSize size) (by decide) _ _ _ hinv.shape.tiles
    hinv.shape.separated
  simp only [hruns, ← halign, ← hnone_iff]
  refine ⟨p, m', bs.length, hall, ?_⟩
  rcases hcases with ⟨hp, hm, hnone⟩ | ⟨hp, -, bs', halloc, -, -⟩
  · exact ⟨iff_of_true hp hnone, fun _ => hm, fun hne => absurd hp hne⟩
  · refine ⟨iff_of_false hp (by simp [halloc]), fun h0 => absurd h0 hp, fun _ => ?_⟩
    exact alloc_lowest_run (by decide) hinv.shape.tiles hinv.shape.separated halloc

/-- 600 bytes do not fit between the live blocks of the fragmented heap: they come from the run behind
    them. -/
theorem memoryAlloc_first_run_fragmented :
    ∃ h m' bound, RequestReachable h ∧ HeapInv h.mem h.live fragmentedBlocks ∧
      (∀ fuel, bound < fuel → memoryAlloc fuel h.mem 600 = some (0x100424, m')) ∧
      ∃ hi, MaximalRun (NonLive h) 0x100418 hi ∧ 0x100418 + headerSize + 600 ≤ hi ∧
        ∀ lo' hi', MaximalRun (NonLive h) lo' hi' → lo' + headerSize + 600 ≤ hi' →
          0x100418 ≤ lo' := by
  obtain ⟨h, hreach, hinv, -⟩ := fragmented_reachable
  obtain ⟨p, m', bound, hall, -, -, hrun⟩ :=
    memoryAlloc_first_run hreach.request (show 1 ≤ 600 by decide) (by decide)
  obtain ⟨rfl, hp⟩ := hinv.alloc_result (by decide) (by decide) rfl hall
  obtain ⟨lo, hi, hmax, hroom, hlo, hlowest⟩ := hrun hp
  obtain rfl : 0x100418 = lo := Nat.add_right_cancel hlo
  exact ⟨h, _, bound, hreach.request, hinv, hall, hi, hmax, hroom, hlowest⟩

/-! ## Allocating and freeing -/

/-- Two memories with the same block list and flags that are `0` or `1` agree on its headers. -/
theorem BlockList.fields_eq {m m' : Mem} : ∀ {bs : List Block} {a : ℕ}, BlockList m a bs →
    BlockList m' a bs → FlagsExact m bs → FlagsExact m' bs →
    ∀ b ∈ bs, blockSize m' b.addr = blockSize m b.addr ∧
      blockIsFree m' b.addr = blockIsFree m b.addr ∧ blockNext m' b.addr = blockNext m b.addr := by
  intro bs
  induction bs with
  | nil => intro a _ _ _ _ b hb; simp at hb
  | cons c bs ih =>
      rintro _ ⟨-, rfl, hsize, hfree, hrest⟩ ⟨-, -, hsize', hfree', hrest'⟩ hflags hflags' b hb
      have hnext : blockNext m' c.addr = blockNext m c.addr := by
        cases bs with
        | nil => exact Eq.trans hrest' hrest.symm
        | cons d bs => exact hrest'.2.1.symm.trans hrest.2.1
      rcases List.mem_cons.1 hb with rfl | hb'
      · have hle := hflags b hb
        have hle' := hflags' b hb
        have hiff := hfree'.symm.trans hfree
        exact ⟨hsize'.symm.trans hsize, by omega, hnext⟩
      · rw [hnext] at hrest'
        exact ih hrest hrest' hflags.tail hflags'.tail b hb'

/-- In every reachable heap, freeing what `memory_alloc` has returned gives the old block list back:
    the same blocks with the same `size`, `is_free` and `next`. -/
theorem memoryAlloc_free_restores {h : Heap} (hreach : RequestReachable h) (size : ℕ) :
    ∃ p m' bound, (∀ fuel, bound < fuel → memoryAlloc fuel h.mem size = some (p, m')) ∧
      (p ≠ 0 → ∃ m'', (∀ fuel, bound < fuel → memoryFree fuel m' p = some m'') ∧
        ∃ bs, BlockList h.mem heapStart bs ∧ BlockList m'' heapStart bs ∧
          ∀ b ∈ bs, blockSize m'' b.addr = blockSize h.mem b.addr ∧
            blockIsFree m'' b.addr = blockIsFree h.mem b.addr ∧
            blockNext m'' b.addr = blockNext h.mem b.addr) := by
  obtain ⟨bs, hinv⟩ := hreach.inv
  by_cases h0 : size = 0
  · exact ⟨0, h.mem, 0, fun fuel _ => if_pos h0, fun hne => absurd rfl hne⟩
  obtain ⟨p, m', hall, -, hcases⟩ := memoryAlloc_shape hinv.shape h0
  rcases hcases with ⟨hp, -, -⟩ | ⟨hp, -, bs', halloc, hshape, hflags⟩
  · exact ⟨p, m', bs.length, hall, fun hne => absurd hp hne⟩
  have hlive : Function.update h.live p (some size) p ≠ none := by simp
  obtain ⟨m'', hfree, hshape', -, hflags'⟩ := memoryFree_shape hshape (Or.inr hlive)
  have hback := coalesce_release_alloc (by decide) hinv.shape.tiles hinv.shape.separated halloc
  rw [hback] at hshape' hflags'
  refine ⟨p, m', max bs.length bs'.length, fun fuel hfuel => hall fuel (by omega), fun _ =>
    ⟨m'', fun fuel hfuel => hfree fuel (by omega), bs, hinv.shape.list, hshape'.list, ?_⟩⟩
  exact hinv.shape.list.fields_eq hshape'.list hinv.flags (hflags' (hflags hinv.flags))

/-- 64 bytes are taken out of the second block of the fragmented heap and freed again. -/
theorem memoryAlloc_free_restores_fragmented :
    ∃ h m' m'' bound, RequestReachable h ∧ BlockList h.mem heapStart fragmentedBlocks ∧
      (∀ fuel, bound < fuel → memoryAlloc fuel h.mem 64 = some (0x10007C, m')) ∧
      (∀ fuel, bound < fuel → memoryFree fuel m' 0x10007C = some m'') ∧
      BlockList m'' heapStart fragmentedBlocks ∧
      ∀ b ∈ fragmentedBlocks, blockSize m'' b.addr = blockSize h.mem b.addr ∧
        blockIsFree m'' b.addr = blockIsFree h.mem b.addr ∧
        blockNext m'' b.addr = blockNext h.mem b.addr := by
  obtain ⟨h, hreach, hinv, -⟩ := fragmented_reachable
  obtain ⟨p, m', bound, hall, hrestores⟩ := memoryAlloc_free_restores hreach.request 64
  obtain ⟨rfl, hp⟩ := hinv.alloc_result (by decide) (by decide) rfl hall
  obtain ⟨m'', hfree, bs, hlist, hback, hfields⟩ := hrestores hp
  obtain rfl := hinv.list.unique hlist
  exact ⟨h, _, m'', bound, hreach.request, hlist, hall, hfree, hback, hfields⟩

end BlackHole
