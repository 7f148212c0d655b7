import Mathlib.Tactic.Linarith
import BlackHole.Kernel.Memory
import BlackHole.Lib.FirstFit

set_option autoImplicit false

/-! # The block list in memory

`BlockList m a bs`: following the headers in memory from address `a` gives the blocks `bs`. On a
list that tiles the heap the loops of `memory_alloc` and `memory_free` compute first fit and
coalescing (`FirstFit.alloc`, `FirstFit.coalesce`), and they write to free blocks only. -/

namespace BlackHole

open Bytes FirstFit

/-- Following `next` from `a` visits exactly the blocks `bs` and ends with `NULL`. -/
def BlockList (m : Mem) : ℕ → List Block → Prop
  | a, [] => a = 0
  | a, b :: bs =>
      a ≠ 0 ∧ b.addr = a ∧ b.size = blockSize m a ∧ (b.free = true ↔ blockIsFree m a ≠ 0) ∧
        BlockList m (blockNext m a) bs

/-- Memory that agrees on a header has the same fields there. -/
theorem header_congr {m m' : Mem} {p : ℕ} (h : ∀ x, p ≤ x → x < p + headerSize → m' x = m x) :
    blockSize m' p = blockSize m p ∧ blockIsFree m' p = blockIsFree m p ∧
      blockNext m' p = blockNext m p := by
  unfold headerSize at h
  exact ⟨le32_congr fun k hk => h _ (by omega) (by omega),
    le32_congr fun k hk => h _ (by omega) (by omega),
    le32_congr fun k hk => h _ (by omega) (by omega)⟩

/-- The list only depends on the headers. -/
theorem BlockList.congr {m m' : Mem} : ∀ {bs : List Block} {a : ℕ}, BlockList m a bs →
    (∀ b ∈ bs, ∀ x, b.addr ≤ x → x < b.addr + headerSize → m' x = m x) → BlockList m' a bs := by
  intro bs
  induction bs with
  | nil => intro a h _; exact h
  | cons b bs ih =>
      rintro _ ⟨ha, rfl, hsize, hfree, hrest⟩ hagree
      obtain ⟨h1, h2, h3⟩ := header_congr (hagree b (List.mem_cons_self ..))
      refine ⟨ha, rfl, by rw [h1, hsize], by rw [h2, hfree], ?_⟩
      rw [h3]
      exact ih hrest fun c hc => hagree c (List.mem_cons_of_mem _ hc)

/-- A block list in memory is determined by its first address. -/
theorem BlockList.unique {m : Mem} : ∀ {bs cs : List Block} {a : ℕ}, BlockList m a bs →
    BlockList m a cs → bs = cs := by
  intro bs
  induction bs with
  | nil =>
      rintro (_ | ⟨c, cs⟩) a hb hc
      · rfl
      · exact absurd hb hc.1
  | cons b bs ih =>
      rintro (_ | ⟨c, cs⟩) a ⟨ha, hb, hbsize, hbfree, hbs⟩ hc
      · exact absurd hc ha
      · obtain ⟨-, hcaddr, hcsize, hcfree, hcs⟩ := hc
        obtain ⟨baddr, bsize, bfree⟩ := b
        obtain ⟨caddr, csize, cfree⟩ := c
        simp only at hb hbsize hbfree hcaddr hcsize hcfree
        rw [ih hbs hcs, hb, hcaddr, hbsize, hcsize, Bool.eq_iff_iff.2 (hbfree.trans hcfree.symm)]

/-- `is_free` is `0` or `1`, the two values the code writes. -/
def FlagsExact (m : Mem) (bs : List Block) : Prop := ∀ b ∈ bs, blockIsFree m b.addr ≤ 1

theorem FlagsExact.congr {m m' : Mem} {bs : List Block} (h : FlagsExact m bs)
    (hagree : ∀ b ∈ bs, ∀ x, b.addr ≤ x → x < b.addr + headerSize → m' x = m x) :
    FlagsExact m' bs := fun b hb => by
  rw [(header_congr (hagree b hb)).2.1]
  exact h b hb

/-- Nothing but free blocks of `bs` has changed. -/
def OnlyFreeChanged (bs : List Block) (m m' : Mem) : Prop :=
  ∀ x, (∀ b ∈ bs, b.free = true → ¬ b.Covers headerSize x) → m' x = m x

/-- What has changed behind a block leaves the block alone. -/
theorem OnlyFreeChanged.block {m m' : Mem} {bs : List Block} {b : Block} {e : ℕ}
    (h : OnlyFreeChanged bs m m') (ht : Tiles headerSize (b.stop headerSize) bs e) {x : ℕ}
    (hx : x < b.stop headerSize) : m' x = m x := by
  refine h x fun c hc _ hcov => ?_
  have hlo := (ht.mem hc).1
  have hcx := hcov.1
  omega

/-! ## Allocation -/

/-- What splitting a block writes: its own header and the one of the new block. -/
theorem splitBlock_spec {m : Mem} {c n : ℕ} (hc : c + headerSize + blockSize m c < 4294967296)
    (hn : n + headerSize + 4 ≤ blockSize m c) :
    blockSize (splitBlock m c n) c = n ∧
    blockIsFree (splitBlock m c n) c = blockIsFree m c ∧
    blockNext (splitBlock m c n) c = c + headerSize + n ∧
    blockSize (splitBlock m c n) (c + headerSize + n) = blockSize m c - n - headerSize ∧
    blockIsFree (splitBlock m c n) (c + headerSize + n) = 1 ∧
    blockNext (splitBlock m c n) (c + headerSize + n) = blockNext m c ∧
    ∀ x, x < c ∨ c + headerSize ≤ x ∧ x < c + headerSize + n ∨ c + headerSize + n + headerSize ≤ x →
      splitBlock m c n x = m x := by
  have hnext : blockNext m c < 4294967296 := le32_lt _ _
  have haddr : u32 (c + headerSize + n) = c + headerSize + n := u32_of_lt (by omega)
  have hinner : u32sub (blockSize m c) n = blockSize m c - n := u32sub_of_le (by omega) (by omega)
  have hrest : u32sub (u32sub (blockSize m c) n) headerSize = blockSize m c - n - headerSize := by
    rw [hinner, u32sub_of_le (by omega) (by omega)]
  simp only [splitBlock, haddr, hrest]
  simp only [setBlockSize, setBlockIsFree, setBlockNext, blockSize, blockIsFree, blockNext,
    headerSize] at *
  simp (disch := omega) only [le32_put32, le32_put32_of_disjoint]
  refine ⟨by omega, trivial, by omega, by omega, trivial, by omega, fun x hx => ?_⟩
  simp (disch := omega) only [put32_of_outside]

/-- Splitting the first block of a list gives a list with the two blocks. -/
theorem BlockList.split {m : Mem} {n e : ℕ} (he : e ≤ 4294967280) {b : Block} {bs : List Block}
    {a p : ℕ} (ht : Tiles headerSize a (b :: bs) e) (hl : BlockList m p (b :: bs))
    (hfree : b.free = true) (hn : n + headerSize + 4 ≤ b.size) :
    BlockList (splitBlock m p n) p
      ({ b with size := n } :: ⟨b.addr + headerSize + n, b.size - n - headerSize, true⟩ :: bs) ∧
      OnlyFreeChanged [b] m (splitBlock m p n) ∧ (FlagsExact m (b :: bs) → FlagsExact (splitBlock m p n)
        ({ b with size := n } :: ⟨b.addr + headerSize + n, b.size - n - headerSize, true⟩ :: bs)) := by
  obtain ⟨hp, rfl, hsize, hisfree, hrest⟩ := hl
  obtain ⟨-, ht'⟩ := ht
  have hstop := ht'.le
  unfold Block.stop at hstop
  obtain ⟨hsize', hfree', hnext', hsize₂, hfree₂, hnext₂, hout⟩ :=
    splitBlock_spec (m := m) (c := b.addr) (n := n) (by omega) (by omega)
  have hbehind : ∀ c ∈ bs, ∀ x, c.addr ≤ x → x < c.addr + headerSize →
      splitBlock m b.addr n x = m x := by
    intro c hc x hx _
    have hlo := (ht'.mem hc).1
    unfold Block.stop at hlo
    exact hout x (by omega)
  refine ⟨⟨hp, rfl, hsize'.symm, by rwa [hfree'], ?_⟩, fun x hx => hout x ?_, fun hflags => ?_⟩
  · rw [hnext']
    refine ⟨by omega, rfl, by rw [hsize₂, hsize], iff_of_true rfl (by rw [hfree₂]; decide), ?_⟩
    rw [hnext₂]
    exact hrest.congr hbehind
  · have hcov := hx b (List.mem_singleton.2 rfl) hfree
    unfold Block.Covers Block.stop at hcov
    omega
  · unfold FlagsExact at hflags ⊢
    rw [List.forall_mem_cons] at hflags
    rw [List.forall_mem_cons, List.forall_mem_cons]
    exact ⟨hfree'.symm ▸ hflags.1, le_of_eq hfree₂, FlagsExact.congr hflags.2 hbehind⟩

/-- Marking the first block of a list allocated. -/
theorem BlockList.mark {m : Mem} {e : ℕ} {b : Block} {bs : List Block} {a p : ℕ}
    (ht : Tiles headerSize a (b :: bs) e) (hl : BlockList m p (b :: bs)) :
    BlockList (setBlockIsFree m p 0) p ({ b with free := false } :: bs) ∧
      (FlagsExact m (b :: bs) → FlagsExact (setBlockIsFree m p 0) ({ b with free := false } :: bs)) := by
  obtain ⟨hp, rfl, hsize, -, hrest⟩ := hl
  obtain ⟨-, ht'⟩ := ht
  have hflag : blockIsFree (setBlockIsFree m b.addr 0) b.addr = 0 := by
    simp [blockIsFree, setBlockIsFree]
  have hbehind : ∀ c ∈ bs, ∀ x, c.addr ≤ x → x < c.addr + headerSize →
      setBlockIsFree m b.addr 0 x = m x := by
    intro c hc x hx _
    have hlo := (ht'.mem hc).1
    unfold Block.stop headerSize at hlo
    exact put32_of_outside _ _ (by omega)
  refine ⟨⟨hp, rfl, ?_, ?_, ?_⟩, fun hflags => ?_⟩
  · simp only [hsize, blockSize, setBlockIsFree]
    rw [le32_put32_of_disjoint _ _ (by omega)]
  · simp [hflag]
  · have hnext : blockNext (setBlockIsFree m b.addr 0) b.addr = blockNext m b.addr :=
      le32_put32_of_disjoint _ _ (by omega)
    rw [hnext]
    exact hrest.congr hbehind
  · unfold FlagsExact at hflags ⊢
    rw [List.forall_mem_cons] at hflags ⊢
    exact ⟨by simp only [hflag]; omega, FlagsExact.congr hflags.2 hbehind⟩

/-- Handing out a free block: its header and, if it is split, that of the rest are written. -/
theorem blockList_carve {m : Mem} {n e : ℕ} (he : e ≤ 4294967280) {b : Block} {bs : List Block}
    {a p : ℕ} (ht : Tiles headerSize a (b :: bs) e) (hl : BlockList m p (b :: bs))
    (hfree : b.free = true) (hn : n ≤ b.size) :
    ∃ m', allocStep m n p = .inl (b.addr + headerSize, m') ∧
      BlockList m' p (carve headerSize 4 n b ++ bs) ∧ OnlyFreeChanged [b] m m' ∧
      (FlagsExact m (b :: bs) → FlagsExact m' (carve headerSize 4 n b ++ bs)) := by
  have hp := hl.1
  have haddr : b.addr = p := hl.2.1
  have hsize : b.size = blockSize m p := hl.2.2.1
  have hset : blockIsFree m p ≠ 0 := hl.2.2.2.1.1 hfree
  have hstop := ht.2.le
  unfold Block.stop at hstop
  have hfit : u32 (n + headerSize + 4) = n + headerSize + 4 := by
    unfold headerSize at *
    exact u32_of_lt (by omega)
  have hptr : u32 (p + headerSize) = b.addr + headerSize := by
    rw [← haddr]
    exact u32_of_lt (by omega)
  have hstep : allocStep m n p = .inl (b.addr + headerSize, setBlockIsFree
      (if n + headerSize + 4 ≤ b.size then splitBlock m p n else m) p 0) := by
    rw [allocStep, if_neg hp, if_pos ⟨hset, by omega⟩, hfit, hptr, ← hsize]
  -- the flag is in the header of the block
  have hmark : ∀ m₁, OnlyFreeChanged [b] m m₁ → OnlyFreeChanged [b] m (setBlockIsFree m₁ p 0) := by
    intro m₁ h₁ x hx
    have hcov := hx b (List.mem_singleton.2 rfl) hfree
    unfold Block.Covers Block.stop headerSize at hcov
    rw [← h₁ x hx]
    exact put32_of_outside _ _ (by omega)
  refine ⟨_, hstep, ?_⟩
  by_cases hsplit : n + headerSize + 4 ≤ b.size
  · obtain ⟨hlist, hchanged, hflags⟩ := hl.split he ht hfree hsplit
    have htiles : Tiles headerSize a (carve headerSize 4 n b ++ bs) e := tiles_carve.2 ht
    rw [carve, if_pos hsplit] at htiles ⊢
    rw [if_pos hsplit]
    obtain ⟨hlist', hflags'⟩ := hlist.mark (b := { b with size := n }) htiles
    exact ⟨hlist', hmark _ hchanged, fun h => hflags' (hflags h)⟩
  · rw [carve, if_neg hsplit, if_neg hsplit]
    exact ⟨(hl.mark ht).1, hmark _ fun _ _ => rfl, (hl.mark ht).2⟩

theorem OnlyFreeChanged.mono {m m' : Mem} {bs cs : List Block} (h : OnlyFreeChanged bs m m')
    (hsub : ∀ b ∈ bs, b ∈ cs) : OnlyFreeChanged cs m m' :=
  fun x hx => h x fun b hb => hx b (hsub b hb)

/-- A list goes on behind its first block when only blocks behind it have changed. -/
theorem BlockList.cons_of_changed {m m' : Mem} {b : Block} {bs cs : List Block} {a p e : ℕ}
    (hl : BlockList m p (b :: bs)) (ht : Tiles headerSize a (b :: bs) e)
    (hchanged : OnlyFreeChanged bs m m') (hl' : BlockList m' (blockNext m p) cs) :
    BlockList m' p (b :: cs) := by
  obtain ⟨hp, rfl, hsize, hfree, -⟩ := hl
  have hkeep := fun x => hchanged.block ht.2 (x := x)
  unfold Block.stop at hkeep
  obtain ⟨h1, h2, h3⟩ := header_congr (p := b.addr) fun x _ hx => hkeep x (by omega)
  exact ⟨hp, rfl, by rw [h1, hsize], by rw [h2, hfree], by rwa [h3]⟩

/-- So do its flags. -/
theorem FlagsExact.cons_of_changed {m m' : Mem} {b : Block} {bs cs : List Block} {a e : ℕ}
    (ht : Tiles headerSize a (b :: bs) e) (hchanged : OnlyFreeChanged bs m m')
    (h : FlagsExact m (b :: bs)) (h' : FlagsExact m' cs) : FlagsExact m' (b :: cs) := by
  have hkeep := fun x => hchanged.block ht.2 (x := x)
  unfold Block.stop at hkeep
  unfold FlagsExact at h ⊢
  rw [List.forall_mem_cons] at h ⊢
  refine ⟨?_, h'⟩
  rw [(header_congr (p := b.addr) fun x _ hx => hkeep x (by omega)).2.1]
  exact h.1

theorem FlagsExact.tail {m : Mem} {b : Block} {bs : List Block} (h : FlagsExact m (b :: bs)) :
    FlagsExact m bs :=
  fun c hc => h c (List.mem_cons_of_mem _ hc)

/-- The search goes on behind a block that does not fit. -/
theorem allocStep_again {m : Mem} {n p : ℕ} {b : Block} {bs : List Block}
    (hl : BlockList m p (b :: bs)) (hfit : ¬ (b.free = true ∧ n ≤ b.size)) :
    allocStep m n p = .inr (blockNext m p) := by
  obtain ⟨hp, rfl, hsize, hfree, -⟩ := hl
  rw [allocStep, if_neg hp, if_neg]
  rwa [← hfree, ← hsize]

/-- When no free block is large enough the search runs to the end of the list. -/
theorem allocStep_iterate_none {m : Mem} {n : ℕ} : ∀ {bs : List Block} {p : ℕ}, BlockList m p bs →
    alloc headerSize 4 n bs = none →
    ∀ fuel, bs.length < fuel → Loop.iterate (allocStep m n) fuel p = some (0, m) := by
  intro bs
  induction bs with
  | nil => exact fun hl _ => Loop.iterate_exit_of_lt 0 (if_pos hl)
  | cons b bs ih =>
      intro p hl halloc
      rw [alloc] at halloc
      split at halloc
      · simp at halloc
      · next hfit =>
          exact Loop.iterate_again_of_lt (allocStep_again hl hfit)
            (ih hl.2.2.2.2 (by simpa using halloc))

/-- The search of `memory_alloc` is first fit: it ends with the block `FirstFit.alloc` carves. -/
theorem allocStep_iterate_some {m : Mem} {n e : ℕ} (he : e ≤ 4294967280) :
    ∀ {bs : List Block} {a p : ℕ}, Tiles headerSize a bs e → BlockList m p bs →
    ∀ {q : ℕ} {bs' : List Block}, alloc headerSize 4 n bs = some (q, bs') →
    ∃ m', BlockList m' p bs' ∧ OnlyFreeChanged bs m m' ∧ (FlagsExact m bs → FlagsExact m' bs') ∧
      ∀ fuel, bs.length < fuel → Loop.iterate (allocStep m n) fuel p = some (q, m') := by
  intro bs
  induction bs with
  | nil => intro a p _ _ q bs' halloc; simp [alloc] at halloc
  | cons b bs ih =>
      intro a p ht hl q bs' halloc
      rw [alloc] at halloc
      split at halloc
      · next hfit =>
          simp only [Option.some.injEq, Prod.mk.injEq] at halloc
          obtain ⟨rfl, rfl⟩ := halloc
          obtain ⟨m', hstep, hl', hchanged, hflags⟩ := blockList_carve he ht hl hfit.1 hfit.2
          exact ⟨m', hl', hchanged.mono (by simp), hflags, Loop.iterate_exit_of_lt _ hstep⟩
      · next hfit =>
          obtain ⟨⟨q', cs⟩, hcs, heq⟩ := Option.map_eq_some_iff.1 halloc
          simp only [Prod.mk.injEq] at heq
          obtain ⟨rfl, rfl⟩ := heq
          obtain ⟨m', hl', hchanged, hflags, hrun⟩ := ih ht.2 hl.2.2.2.2 hcs
          exact ⟨m', hl.cons_of_changed ht hchanged hl', hchanged.mono (by simp +contextual),
            fun h => h.cons_of_changed ht hchanged (hflags h.tail),
            Loop.iterate_again_of_lt (allocStep_again hl hfit) hrun⟩

/-! ## Coalescing -/

/-- What a pass that absorbs the next block writes: the size and the link of its own header. -/
theorem coalesceStep_absorb {m : Mem} {c : ℕ} (hc : c ≠ 0) (hfree : blockIsFree m c ≠ 0)
    (hnext : blockNext m c ≠ 0) (hnextFree : blockIsFree m (blockNext m c) ≠ 0)
    (hbehind : c + headerSize ≤ blockNext m c)
    (hsum : blockSize m c + (headerSize + blockSize m (blockNext m c)) < 4294967296) :
    ∃ m', coalesceStep (c, m) = .inr (c, m') ∧
      blockSize m' c = blockSize m c + (headerSize + blockSize m (blockNext m c)) ∧
      blockIsFree m' c = blockIsFree m c ∧ blockNext m' c = blockNext m (blockNext m c) ∧
      ∀ x, x < c ∨ c + headerSize ≤ x → m' x = m x := by
  have hinner : u32 (headerSize + blockSize m (blockNext m c))
      = headerSize + blockSize m (blockNext m c) := u32_of_lt (by omega)
  have hsize : u32 (blockSize m c + u32 (headerSize + blockSize m (blockNext m c)))
      = blockSize m c + (headerSize + blockSize m (blockNext m c)) := by
    rw [hinner, u32_of_lt hsum]
  have hlt : blockNext m (blockNext m c) < 4294967296 := le32_lt _ _
  refine ⟨_, by rw [coalesceStep, if_neg hc, if_pos ⟨hfree, hnext, hnextFree⟩, hsize], ?_⟩
  simp only [setBlockSize, setBlockNext, blockSize, blockIsFree, blockNext, headerSize] at *
  simp (disch := omega) only [le32_put32, le32_put32_of_disjoint]
  refine ⟨by omega, trivial, by omega, fun x hx => ?_⟩
  simp (disch := omega) only [put32_of_outside]

/-- Absorbing the next block: only the header of the first one is written. -/
theorem blockList_merge {m : Mem} {e : ℕ} (he : e ≤ 4294967280) {b c : Block} {bs : List Block}
    {a p : ℕ} (ht : Tiles headerSize a (b :: c :: bs) e) (hl : BlockList m p (b :: c :: bs))
    (hb : b.free = true) (hc : c.free = true) :
    ∃ m', coalesceStep (p, m) = .inr (p, m') ∧
      BlockList m' p ({ b with size := b.size + (headerSize + c.size) } :: bs) ∧
      OnlyFreeChanged [b] m m' ∧ (FlagsExact m (b :: c :: bs) →
        FlagsExact m' ({ b with size := b.size + (headerSize + c.size) } :: bs)) := by
  obtain ⟨hp, rfl, hbsize, hbfree, hn, hcaddr, hcsize, hcfree, hrest⟩ := hl
  obtain ⟨-, hca, hct⟩ := ht
  have hstop := hct.le
  unfold Block.stop at hca hstop
  obtain ⟨m', hstep, hsize, hisfree, hnext, hout⟩ := coalesceStep_absorb hp (hbfree.1 hb) hn
    (hcfree.1 hc) (by omega) (by omega)
  have hbehind : ∀ d ∈ bs, ∀ x, d.addr ≤ x → x < d.addr + headerSize → m' x = m x := by
    intro d hd x hx _
    have hlo := (hct.mem hd).1
    unfold Block.stop at hlo
    exact hout x (by omega)
  refine ⟨m', hstep, ⟨hp, rfl, ?_, by rw [hisfree, hbfree], ?_⟩, fun x hx => hout x ?_,
    fun hflags => ?_⟩
  · rw [hsize, hbsize, hcsize]
  · rw [hnext]
    exact hrest.congr hbehind
  · have hcov := hx b (List.mem_singleton.2 rfl) hb
    unfold Block.Covers Block.stop at hcov
    omega
  · unfold FlagsExact
    rw [List.forall_mem_cons, hisfree]
    exact ⟨hflags b (List.mem_cons_self ..), FlagsExact.congr hflags.tail.tail hbehind⟩

theorem OnlyFreeChanged.trans {m m₁ m' : Mem} {bs : List Block} (h₁ : OnlyFreeChanged bs m m₁)
    (h₂ : OnlyFreeChanged bs m₁ m') : OnlyFreeChanged bs m m' :=
  fun x hx => (h₂ x hx).trans (h₁ x hx)

/-- A merged block covers the two it was made of. -/
theorem OnlyFreeChanged.of_merged {m m' : Mem} {b c : Block} {bs : List Block}
    (hb : b.free = true) (hc : c.free = true) (hca : b.stop headerSize = c.addr)
    (h : OnlyFreeChanged ({ b with size := b.size + (headerSize + c.size) } :: bs) m m') :
    OnlyFreeChanged (b :: c :: bs) m m' := by
  intro x hx
  refine h x fun d hd hdfree => ?_
  rcases List.mem_cons.1 hd with rfl | hd
  · have hxb := hx b (by simp) hb
    have hxc := hx c (by simp) hc
    unfold Block.Covers Block.stop at hxb hxc ⊢
    unfold Block.stop at hca
    simp only
    omega
  · exact hx d (by simp [hd]) hdfree

/-- The coalescing loop of `memory_free` is one pass of `FirstFit.coalesce`. -/
theorem coalesceStep_iterate {e : ℕ} (he : e ≤ 4294967280) : ∀ {bs : List Block} {a p : ℕ} {m : Mem},
    Tiles headerSize a bs e → BlockList m p bs →
    ∃ m', BlockList m' p (coalesce headerSize bs) ∧ OnlyFreeChanged bs m m' ∧
      (FlagsExact m bs → FlagsExact m' (coalesce headerSize bs)) ∧
      ∀ fuel, bs.length < fuel → Loop.iterate coalesceStep fuel (p, m) = some m' := by
  intro bs
  -- an iteration absorbs a block or passes one, so the list is longer than the loop
  induction bs using coalesce.induct headerSize with
  | case1 =>
      intro a p m _ hl
      rw [coalesce]
      exact ⟨m, hl, fun _ _ => rfl, id, Loop.iterate_exit_of_lt 0 (if_pos hl)⟩
  | case2 b =>
      intro a p m _ hl
      rw [coalesce]
      have hnil : blockNext m p = 0 := hl.2.2.2.2
      have hstep : coalesceStep (p, m) = .inr (blockNext m p, m) := by
        simp only [coalesceStep]
        rw [if_neg hl.1, if_neg (by simp [hnil])]
      exact ⟨m, hl, fun _ _ => rfl, id,
        Loop.iterate_again_of_lt hstep (Loop.iterate_exit_of_lt 0 (if_pos hnil))⟩
  | case3 b c bs hfree ih =>
      intro a p m ht hl
      rw [coalesce, if_pos hfree]
      obtain ⟨m₁, hstep, hl₁, hchanged₁, hflags₁⟩ := blockList_merge he ht hl hfree.1 hfree.2
      obtain ⟨rfl, hca, hct⟩ := ht
      have hstop : ({ b with size := b.size + (headerSize + c.size) } : Block).stop headerSize
          = c.stop headerSize := by
        simp only [Block.stop] at hca ⊢
        omega
      obtain ⟨m', hl', hchanged, hflags, hrun⟩ := ih ⟨rfl, hstop.symm ▸ hct⟩ hl₁
      have hfirst : OnlyFreeChanged (b :: c :: bs) m m₁ := hchanged₁.mono (by simp +contextual)
      exact ⟨m', hl', hfirst.trans (hchanged.of_merged hfree.1 hfree.2 hca.symm),
        fun h => hflags (hflags₁ h), Loop.iterate_again_of_lt hstep hrun⟩
  | case4 b c bs hfree ih =>
      intro a p m ht hl
      rw [coalesce, if_neg hfree]
      obtain ⟨m', hl', hchanged, hflags, hrun⟩ := ih ht.2 hl.2.2.2.2
      have hstep : coalesceStep (p, m) = .inr (blockNext m p, m) := by
        obtain ⟨hp, rfl, -, hbfree, -, -, -, hcfree, -⟩ := hl
        simp only [coalesceStep]
        rw [if_neg hp, if_neg]
        rintro ⟨hb, -, hc⟩
        exact hfree ⟨hbfree.2 hb, hcfree.2 hc⟩
      exact ⟨m', hl.cons_of_changed ht hchanged hl', hchanged.mono (by simp +contextual),
        fun h => h.cons_of_changed ht hchanged (hflags h.tail),
        Loop.iterate_again_of_lt hstep hrun⟩

end BlackHole
