import Mathlib.Logic.Function.Basic
import BlackHole.Kernel.BlockList
import BlackHole.Lib.FreeRuns
import BlackHole.Lib.PartialMap

set_option autoImplicit false

/-! # The shape of the heap

`HeapShape` ties the block list in memory to the live pointers and asks nothing of the sizes that
were requested for them, so that it is kept by requests of any size. One spec lemma for
`memory_alloc` and one for `memory_free` say how they move it and what they leave alone. -/

namespace BlackHole

open Bytes FirstFit

/-! ## The invariant -/

/-- The block list tiles the heap, no two neighbours are free, and the allocated blocks are those of
    the live pointers. -/
structure HeapShape (m : Mem) (live : ℕ → Option ℕ) (bs : List Block) : Prop where
  list : BlockList m heapStart bs
  tiles : Tiles headerSize heapStart bs (heapStart + heapSize)
  aligned : ∀ b ∈ bs, 4 ∣ b.size
  separated : Separated bs
  owned : ∀ b ∈ bs, b.free = false → live (b.addr + headerSize) ≠ none
  live : ∀ q n, live q = some n → ∃ b ∈ bs, b.free = false ∧ b.addr + headerSize = q

/-- What an operation leaves alone: the blocks of the pointers in `live`, and everything outside the
    heap. -/
structure HeapKept (live : ℕ → Option ℕ) (m m' : Mem) : Prop where
  size : ∀ q n, live q = some n → blockSize m' (q - headerSize) = blockSize m (q - headerSize)
  payload : ∀ q n, live q = some n → ∀ x, q ≤ x → x < q + blockSize m (q - headerSize) → m' x = m x
  outside : ∀ x, x < heapStart ∨ heapStart + heapSize ≤ x → m' x = m x

theorem HeapKept.refl (live : ℕ → Option ℕ) (m : Mem) : HeapKept live m m :=
  ⟨fun _ _ _ => rfl, fun _ _ _ _ _ _ => rfl, fun _ _ => rfl⟩

theorem HeapShape.live_zero {m : Mem} {live : ℕ → Option ℕ} {bs : List Block}
    (h : HeapShape m live bs) : live 0 = none := by
  rcases hl : live 0 with _ | n
  · rfl
  · obtain ⟨b, -, -, hb⟩ := h.live 0 n hl
    unfold headerSize at hb
    omega

/-- Fields of a block of the list. -/
theorem BlockList.mem {m : Mem} : ∀ {bs : List Block} {a : ℕ}, BlockList m a bs → ∀ b ∈ bs,
    b.size = blockSize m b.addr ∧ (b.free = true ↔ blockIsFree m b.addr ≠ 0) := by
  intro bs
  induction bs with
  | nil => intro a _ b hb; simp at hb
  | cons c bs ih =>
      rintro _ ⟨-, rfl, hsize, hfree, hrest⟩ b hb
      rcases List.mem_cons.1 hb with rfl | hb'
      · exact ⟨hsize, hfree⟩
      · exact ih hrest b hb'

/-- An allocated block is not touched when only free blocks change. -/
theorem OnlyFreeChanged.allocated {m m' : Mem} {bs : List Block} {a e : ℕ}
    (h : OnlyFreeChanged bs m m') (ht : Tiles headerSize a bs e) {b : Block} (hb : b ∈ bs)
    (hfree : b.free = false) {x : ℕ} (hx : b.Covers headerSize x) : m' x = m x := by
  refine h x fun c hc hcfree hcov => ?_
  rcases ht.apart hb hc with rfl | hlt | hlt
  · simp [hfree] at hcfree
  · unfold Block.Covers at hx hcov
    omega
  · unfold Block.Covers at hx hcov
    omega

theorem OnlyFreeChanged.kept {m m' : Mem} {live : ℕ → Option ℕ} {bs : List Block}
    (h : OnlyFreeChanged bs m m') (ht : Tiles headerSize heapStart bs (heapStart + heapSize))
    (hl : ∀ q n, live q = some n →
      ∃ b ∈ bs, b.free = false ∧ b.addr + headerSize = q ∧ b.size = blockSize m b.addr) :
    HeapKept live m m' := by
  have hblock : ∀ q n, live q = some n → ∃ b ∈ bs, b.addr + headerSize = q ∧
      b.size = blockSize m b.addr ∧ ∀ x, b.Covers headerSize x → m' x = m x := by
    intro q n hq
    obtain ⟨b, hb, hfree, hbq, hsize⟩ := hl q n hq
    exact ⟨b, hb, hbq, hsize, fun x hx => h.allocated ht hb hfree hx⟩
  refine ⟨fun q n hq => ?_, fun q n hq x hx hlt => ?_, fun x hx => h x fun b hb _ hcov => ?_⟩
  · obtain ⟨b, -, rfl, -, hkeep⟩ := hblock q n hq
    rw [Nat.add_sub_cancel]
    refine (header_congr fun x hx hlt => hkeep x ⟨hx, ?_⟩).1
    unfold Block.stop
    omega
  · obtain ⟨b, -, rfl, hsize, hkeep⟩ := hblock q n hq
    rw [Nat.add_sub_cancel] at hlt
    refine hkeep x ⟨by omega, ?_⟩
    unfold Block.stop
    omega
  · have hin := ht.mem hb
    unfold Block.Covers at hcov
    omega

/-! ## `memory_alloc` -/

/-- First fit hands out an address that is not live. -/
theorem HeapShape.fresh {m : Mem} {live : ℕ → Option ℕ} {bs bs' : List Block} {n q : ℕ}
    (h : HeapShape m live bs) (halloc : alloc headerSize 4 n bs = some (q, bs')) :
    q ≠ 0 ∧ live q = none := by
  obtain ⟨c, -, -, hcq, ⟨b, hb, hbfree, hbc⟩, -⟩ := mem_alloc halloc
  refine ⟨by unfold headerSize at hcq; omega, ?_⟩
  rcases hlq : live q with _ | n
  · rfl
  · obtain ⟨d, hd, hdfree, hdq⟩ := h.live q n hlq
    obtain rfl := h.tiles.eq_of_addr (by decide) hb hd (by omega)
    simp [hdfree] at hbfree

/-- Once memory holds the list first fit leaves, the pointer handed out is live, too. -/
theorem HeapShape.alloc {m m' : Mem} {live : ℕ → Option ℕ} {bs bs' : List Block} {n q : ℕ}
    (h : HeapShape m live bs) (hdvd : 4 ∣ n)
    (halloc : FirstFit.alloc headerSize 4 n bs = some (q, bs')) (hl' : BlockList m' heapStart bs')
    (size : ℕ) : HeapShape m' (Function.update live q (some size)) bs' := by
  obtain ⟨c, -, hcfree, hcq, -, hmem⟩ := mem_alloc halloc
  refine ⟨hl', h.tiles.alloc halloc, ?_, h.separated.alloc halloc, fun d hd hdfree => ?_,
    fun r n hr => ?_⟩
  · exact sizes_alloc hdvd (fun s hs _ => Nat.dvd_sub (Nat.dvd_sub hs hdvd) (by decide)) halloc
      h.aligned
  · refine PartialMap.update_some_ne_none.2 ?_
    rcases (hmem d).1 ⟨hd, hdfree⟩ with rfl | ⟨hd', -⟩
    · exact Or.inl hcq
    · exact Or.inr (h.owned d hd' hdfree)
  · rcases PartialMap.update_some_eq_some.1 hr with ⟨rfl, -⟩ | ⟨-, hr'⟩
    · exact ⟨c, ((hmem c).2 (Or.inl rfl)).1, hcfree, hcq⟩
    · obtain ⟨d, hd, hdfree, hdr⟩ := h.live r n hr'
      exact ⟨d, ((hmem d).2 (Or.inr ⟨hd, hdfree⟩)).1, hdfree, hdr⟩

/-- `memory_alloc` returns for a request of any size: either `NULL`, and nothing has changed, or the
    block that first fit carves. -/
theorem memoryAlloc_shape {m : Mem} {live : ℕ → Option ℕ} {bs : List Block}
    (h : HeapShape m live bs) {size : ℕ} (hpos : size ≠ 0) :
    ∃ q m', (∀ fuel, bs.length < fuel → memoryAlloc fuel m size = some (q, m')) ∧
      HeapKept live m m' ∧
      (q = 0 ∧ m' = m ∧ alloc headerSize 4 (alignSize size) bs = none ∨
        q ≠ 0 ∧ live q = none ∧ ∃ bs', alloc headerSize 4 (alignSize size) bs = some (q, bs') ∧
          HeapShape m' (Function.update live q (some size)) bs' ∧
          (FlagsExact m bs → FlagsExact m' bs')) := by
  simp only [memoryAlloc, if_neg hpos]
  rcases halloc : alloc headerSize 4 (alignSize size) bs with _ | ⟨q, bs'⟩
  · exact ⟨0, m, allocStep_iterate_none h.list halloc, HeapKept.refl live m,
      Or.inl ⟨rfl, rfl, rfl⟩⟩
  · obtain ⟨m', hl', hchanged, hflags, hrun⟩ :=
      allocStep_iterate_some (by decide) h.tiles h.list halloc
    obtain ⟨hq, hnew⟩ := h.fresh halloc
    refine ⟨q, m', hrun, hchanged.kept h.tiles fun r n hr => ?_, Or.inr ⟨hq, hnew, bs', rfl,
      h.alloc (Nat.dvd_mul_left 4 _) halloc hl' size, hflags⟩⟩
    obtain ⟨d, hd, hdfree, hdr⟩ := h.live r n hr
    exact ⟨d, hd, hdfree, hdr, (h.list.mem d hd).1⟩

/-! ## `memory_free` -/

/-- Setting `is_free` of the block with payload address `q` releases it. -/
theorem BlockList.release {m : Mem} {t q : ℕ} (hq : t + headerSize = q) : ∀ {bs : List Block} {a : ℕ},
    BlockList m a bs →
    (∀ b ∈ bs, b.addr = t ∨ b.addr + headerSize ≤ t ∨ t + headerSize ≤ b.addr) →
    BlockList (setBlockIsFree m t 1) a (FirstFit.release headerSize q bs) := by
  intro bs
  induction bs with
  | nil => intro a h _; exact h
  | cons b bs ih =>
      rintro _ ⟨ha, rfl, hsize, hfree, hrest⟩ hapart
      have hrest' := ih hrest fun c hc => hapart c (List.mem_cons_of_mem _ hc)
      rw [FirstFit.release, List.map_cons]
      rcases hapart b (List.mem_cons_self ..) with rfl | hapart
      · rw [if_pos hq]
        refine ⟨ha, rfl, ?_, ?_, ?_⟩
        · simp only [hsize, blockSize, setBlockIsFree]
          rw [le32_put32_of_disjoint _ _ (by omega)]
        · simp [blockIsFree, setBlockIsFree]
        · have hnext : blockNext (setBlockIsFree m b.addr 1) b.addr = blockNext m b.addr :=
            le32_put32_of_disjoint _ _ (by omega)
          rwa [hnext]
      · unfold headerSize at hapart hq
        rw [if_neg (by unfold headerSize; omega)]
        obtain ⟨h1, h2, h3⟩ := header_congr (m := m) (p := b.addr) fun x hx hlt =>
          show setBlockIsFree m t 1 x = m x from put32_of_outside m 1 (by
            unfold headerSize at hlt
            omega)
        exact ⟨ha, rfl, by rw [h1, hsize], by rw [h2, hfree], by rwa [h3]⟩

/-- The flag of the released block is `1`. -/
theorem FlagsExact.release {m : Mem} {t q : ℕ} {bs : List Block} (h : FlagsExact m bs)
    (hapart : ∀ b ∈ bs, b.addr = t ∨ b.addr + headerSize ≤ t ∨ t + headerSize ≤ b.addr) :
    FlagsExact (setBlockIsFree m t 1) (FirstFit.release headerSize q bs) := by
  intro b hb
  obtain ⟨c, hc, rfl⟩ := List.mem_map.1 hb
  have haddr : (if c.addr + headerSize = q then { c with free := true } else c).addr = c.addr := by
    split <;> rfl
  rw [haddr]
  rcases hapart c hc with rfl | hout
  · simp [blockIsFree, setBlockIsFree]
  · have hsame : blockIsFree (setBlockIsFree m t 1) c.addr = blockIsFree m c.addr :=
      le32_put32_of_disjoint _ _ (by unfold headerSize at hout; omega)
    rw [hsame]
    exact h c hc

/-- The blocks of the pointers that stay live are allocated when that of `p` is released. -/
theorem HeapShape.live_release {m : Mem} {live : ℕ → Option ℕ} {bs : List Block}
    (h : HeapShape m live bs) {p r k : ℕ} (hr : Function.update live p none r = some k) :
    ∃ d ∈ bs, d ∈ FirstFit.release headerSize p bs ∧ d.free = false ∧ d.addr + headerSize = r := by
  obtain ⟨hrp, hr'⟩ := PartialMap.update_none_eq_some.1 hr
  obtain ⟨d, hd, hdfree, hdr⟩ := h.live r k hr'
  exact ⟨d, hd, (mem_release.2 ⟨hd, hdfree, by omega⟩).1, hdfree, hdr⟩

/-- Marking a block free is a change inside the released block. -/
theorem OnlyFreeChanged.setBlockIsFree {m m' : Mem} {bs : List Block} {b : Block} (hb : b ∈ bs)
    (h : OnlyFreeChanged (FirstFit.release headerSize (b.addr + headerSize) bs)
      (setBlockIsFree m b.addr 1) m') :
    OnlyFreeChanged (FirstFit.release headerSize (b.addr + headerSize) bs) m m' := by
  intro x hx
  rw [h x hx]
  have hrel : { b with free := true } ∈ FirstFit.release headerSize (b.addr + headerSize) bs :=
    List.mem_map.2 ⟨b, hb, if_pos rfl⟩
  have hcov := hx _ hrel rfl
  simp only [Block.Covers, Block.stop, headerSize] at hcov
  exact put32_of_outside _ _ (by omega)

/-- Two headers of the list are the same or apart. -/
theorem HeapShape.headers_apart {m : Mem} {live : ℕ → Option ℕ} {bs : List Block}
    (h : HeapShape m live bs) {b : Block} (hb : b ∈ bs) : ∀ c ∈ bs,
    c.addr = b.addr ∨ c.addr + headerSize ≤ b.addr ∨ b.addr + headerSize ≤ c.addr := by
  intro c hc
  rcases h.tiles.apart hb hc with rfl | hlt | hlt
  · exact Or.inl rfl
  · unfold Block.stop at hlt
    omega
  · unfold Block.stop at hlt
    omega

/-- Once memory holds the list with the block of `p` released and coalesced, all pointers but `p` are
    live. -/
theorem HeapShape.free {m m' : Mem} {live : ℕ → Option ℕ} {bs : List Block}
    (h : HeapShape m live bs) {p : ℕ}
    (hl' : BlockList m' heapStart (coalesce headerSize (FirstFit.release headerSize p bs))) :
    HeapShape m' (Function.update live p none)
      (coalesce headerSize (FirstFit.release headerSize p bs)) := by
  refine ⟨hl', h.tiles.release.coalesce, ?_, separated_coalesce _, fun d hd hdfree => ?_,
    fun r k hr => ?_⟩
  · exact sizes_coalesce (fun s t hs ht => Nat.dvd_add hs (Nat.dvd_add (by decide) ht))
      (sizes_release (P := fun n => 4 ∣ n) h.aligned)
  · obtain ⟨hd', -, hne⟩ := mem_release.1 (mem_coalesce.1 ⟨hd, hdfree⟩)
    rw [Function.update_of_ne hne]
    exact h.owned d hd' hdfree
  · obtain ⟨d, -, hrel, hdfree, hdr⟩ := h.live_release hr
    exact ⟨d, (mem_coalesce.2 ⟨hrel, hdfree⟩).1, hdfree, hdr⟩

/-- `memory_free` of `NULL` does nothing; of a live pointer it returns, releases its block and
    coalesces. -/
theorem memoryFree_shape {m : Mem} {live : ℕ → Option ℕ} {bs : List Block}
    (h : HeapShape m live bs) {ptr : ℕ} (hptr : ptr = 0 ∨ live ptr ≠ none) :
    ∃ m', (∀ fuel, bs.length < fuel → memoryFree fuel m ptr = some m') ∧
      HeapShape m' (Function.update live ptr none)
        (coalesce headerSize (FirstFit.release headerSize ptr bs)) ∧
      HeapKept (Function.update live ptr none) m m' ∧
      (FlagsExact m bs →
        FlagsExact m' (coalesce headerSize (FirstFit.release headerSize ptr bs))) := by
  by_cases h0 : ptr = 0
  · subst h0
    have hsame : Function.update live 0 none = live := by
      rw [← h.live_zero, Function.update_eq_self]
    have hbs : coalesce headerSize (FirstFit.release headerSize 0 bs) = bs := by
      rw [release_of_ne fun b _ => by unfold headerSize; omega, coalesce_of_separated h.separated]
    rw [hsame, hbs]
    exact ⟨m, fun fuel _ => if_pos rfl, h, HeapKept.refl live m, id⟩
  obtain ⟨n, hn⟩ := Option.ne_none_iff_exists'.1 (hptr.resolve_left h0)
  obtain ⟨b, hb, hbfree, rfl⟩ := h.live ptr n hn
  have hhdr : u32sub (b.addr + headerSize) headerSize = b.addr := by
    have hin := (h.tiles.mem hb).2
    rw [u32sub_of_le (by omega), Nat.add_sub_cancel]
    unfold Block.stop heapStart heapSize at hin
    omega
  have hapart := h.headers_apart hb
  obtain ⟨m', hl', hchanged, hflags, hrun⟩ := coalesceStep_iterate (by decide) h.tiles.release
    (h.list.release rfl hapart)
  have hlen : (FirstFit.release headerSize (b.addr + headerSize) bs).length = bs.length :=
    List.length_map _
  refine ⟨m', fun fuel hfuel => ?_, h.free hl', ?_, fun h' => hflags (h'.release hapart)⟩
  · rw [memoryFree, if_neg h0, hhdr]
    exact hrun fuel (by omega)
  · -- the first write is inside the released block, the others are inside free ones
    refine (hchanged.setBlockIsFree hb).kept h.tiles.release fun r k hr => ?_
    obtain ⟨d, hd, hrel, hdfree, hdr⟩ := h.live_release hr
    exact ⟨d, hrel, hdfree, hdr, (h.list.mem d hd).1⟩

/-! ## Client writes -/

/-- Inside the heap only bytes of the payloads of live blocks have changed. -/
def PayloadWrite (live : ℕ → Option ℕ) (m m' : Mem) : Prop :=
  ∀ x, heapStart ≤ x → x < heapStart + heapSize →
    (∀ q n, live q = some n → ¬ (q ≤ x ∧ x < q + blockSize m (q - headerSize))) → m' x = m x

/-- A payload never meets a header. -/
theorem HeapShape.headers {m m' : Mem} {live : ℕ → Option ℕ} {bs : List Block}
    (h : HeapShape m live bs) (hw : PayloadWrite live m m') :
    ∀ b ∈ bs, ∀ x, b.addr ≤ x → x < b.addr + headerSize → m' x = m x := by
  intro b hb x hx hlt
  have hin := h.tiles.mem hb
  unfold Block.stop at hin
  refine hw x (by omega) (by omega) fun q n hq hxq => ?_
  obtain ⟨c, hc, -, rfl⟩ := h.live q n hq
  rw [Nat.add_sub_cancel, ← (h.list.mem c hc).1] at hxq
  have hapart := h.tiles.header_payload hb hc
  omega

theorem HeapShape.payloadWrite {m m' : Mem} {live : ℕ → Option ℕ} {bs : List Block}
    (h : HeapShape m live bs) (hw : PayloadWrite live m m') : HeapShape m' live bs :=
  ⟨h.list.congr (h.headers hw), h.tiles, h.aligned, h.separated, h.owned, h.live⟩

end BlackHole
