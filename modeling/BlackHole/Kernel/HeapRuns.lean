import BlackHole.Kernel.Heap

set_option autoImplicit false

/-! # Runs of the heap

Every sequence of `memory_alloc`, `memory_free` and client writes from `memory_init` on: the block
list tiles the heap and holds the live payloads apart (`heap_sound`), and no two free blocks are
left side by side (`heap_no_residue`). -/

namespace BlackHole

open Bytes FirstFit

/-- The memory and the live pointers, with the sizes that were requested for them. -/
structure Heap where
  mem : Mem
  live : ℕ → Option ℕ

inductive HeapOp where
  | alloc (size : ℕ)
  | free (ptr : ℕ)
  | store

/-- An operation on the heap: an allocation of a size that rounds up without wrapping, a release of
    a live pointer or of `NULL`, or a client writing to its own payloads. -/
inductive HeapStep (h : Heap) : HeapOp → Heap → Prop where
  | alloc {size q fuel : ℕ} {m' : Mem} (hsize : size ≤ 0xFFFFFFFC)
      (hrun : memoryAlloc fuel h.mem size = some (q, m')) :
      HeapStep h (.alloc size)
        ⟨m', if q = 0 then h.live else Function.update h.live q (some size)⟩
  | free {ptr fuel : ℕ} {m' : Mem} (hptr : ptr = 0 ∨ h.live ptr ≠ none)
      (hrun : memoryFree fuel h.mem ptr = some m') :
      HeapStep h (.free ptr) ⟨m', Function.update h.live ptr none⟩
  | store {m' : Mem} (hw : ClientWrite h.live h.mem m') : HeapStep h .store ⟨m', h.live⟩

/-- The heap as `memory_init` leaves it. -/
def Heap.init (m : Mem) : Heap := ⟨memoryInit m, fun _ => none⟩

theorem Heap.init_inv (m : Mem) : HeapInv (Heap.init m).mem (Heap.init m).live
    [⟨heapStart, heapSize - headerSize, true⟩] :=
  memoryInit_inv m

def HeapReachable (h : Heap) : Prop :=
  ∃ m, Relation.ReflTransGen (fun h h' => ∃ op, HeapStep h op h') (Heap.init m) h

/-! ## Steps -/

theorem memoryAlloc_fuelMono (m : Mem) (size : ℕ) :
    Loop.FuelMono fun fuel => memoryAlloc fuel m size := by
  unfold memoryAlloc
  split
  · exact Loop.FuelMono.const _
  · exact Loop.FuelMono.iterate _ _

theorem memoryFree_fuelMono (m : Mem) (ptr : ℕ) :
    Loop.FuelMono fun fuel => memoryFree fuel m ptr := by
  unfold memoryFree
  split
  · exact Loop.FuelMono.const _
  · exact Loop.FuelMono.iterate _ _

/-- Everything an allocation can do. -/
theorem HeapStep.alloc_inv {h h' : Heap} {bs : List Block} (hinv : HeapInv h.mem h.live bs)
    {size : ℕ} (hs : HeapStep h (.alloc size) h') :
    HeapKept h.live h.mem h'.mem ∧
      (h' = h ∨ ∃ q bs', q ≠ 0 ∧ h.live q = none ∧ h'.live = Function.update h.live q (some size) ∧
        HeapInv h'.mem h'.live bs') := by
  cases hs with
  | alloc hsize hrun =>
      obtain ⟨q, m', hall, hkept, hcases⟩ := memoryAlloc_spec hinv hsize
      have heq := (memoryAlloc_fuelMono h.mem size).unique hrun hall
      simp only [Prod.mk.injEq] at heq
      obtain ⟨rfl, rfl⟩ := heq
      refine ⟨hkept, ?_⟩
      rcases hcases with ⟨rfl, rfl, -⟩ | ⟨hq, hnew, bs', -, hinv'⟩
      · exact Or.inl rfl
      · refine Or.inr ⟨_, bs', hq, hnew, if_neg hq, ?_⟩
        simpa only [if_neg hq] using hinv'

/-- Everything a release can do. -/
theorem HeapStep.free_inv {h h' : Heap} {bs : List Block} (hinv : HeapInv h.mem h.live bs)
    {ptr : ℕ} (hs : HeapStep h (.free ptr) h') :
    h'.live = Function.update h.live ptr none ∧ HeapKept h'.live h.mem h'.mem ∧
      ∃ bs', HeapInv h'.mem h'.live bs' := by
  cases hs with
  | free hptr hrun =>
      obtain ⟨m', hall, hinv', hkept⟩ := memoryFree_spec hinv hptr
      have heq := (memoryFree_fuelMono h.mem ptr).unique hrun hall
      subst heq
      exact ⟨rfl, hkept, _, hinv'⟩

/-- Every operation keeps the invariant. -/
theorem HeapInv.step {h h' : Heap} {bs : List Block} (hinv : HeapInv h.mem h.live bs) {op : HeapOp}
    (hs : HeapStep h op h') : ∃ bs', HeapInv h'.mem h'.live bs' := by
  cases op with
  | alloc size =>
      rcases (hs.alloc_inv hinv).2 with rfl | ⟨q, bs', -, -, -, hinv'⟩
      · exact ⟨bs, hinv⟩
      · exact ⟨bs', hinv'⟩
  | free ptr => exact (hs.free_inv hinv).2.2
  | store =>
      cases hs with
      | store hw => exact ⟨bs, hinv.clientWrite hw⟩

theorem HeapReachable.inv {h : Heap} (hreach : HeapReachable h) :
    ∃ bs, HeapInv h.mem h.live bs := by
  obtain ⟨m, hrun⟩ := hreach
  induction hrun with
  | refl => exact ⟨_, Heap.init_inv m⟩
  | tail _ hstep ih =>
      obtain ⟨bs, hinv⟩ := ih
      obtain ⟨op, hs⟩ := hstep
      exact hinv.step hs

/-- Allocations and releases return. -/
theorem HeapInv.returns {h : Heap} {bs : List Block} (hinv : HeapInv h.mem h.live bs) :
    (∀ size, size ≤ 0xFFFFFFFC → ∃ h', HeapStep h (.alloc size) h') ∧
    ∀ ptr, ptr = 0 ∨ h.live ptr ≠ none → ∃ h', HeapStep h (.free ptr) h' := by
  constructor
  · intro size hsize
    obtain ⟨q, m', hall, -⟩ := memoryAlloc_spec hinv hsize
    exact ⟨_, .alloc hsize (hall _ (Nat.lt_succ_self _))⟩
  · intro ptr hptr
    obtain ⟨m', hall, -⟩ := memoryFree_spec hinv hptr
    exact ⟨_, .free hptr (hall _ (Nat.lt_succ_self _))⟩

/-- What a request that can be served makes of the block list. -/
theorem HeapInv.exists_alloc {h : Heap} {bs bs' : List Block} {size q : ℕ}
    (hinv : HeapInv h.mem h.live bs) (hpos : size ≠ 0) (hsize : size ≤ 0xFFFFFFFC)
    (halloc : alloc headerSize 4 (alignSize size) bs = some (q, bs')) :
    ∃ h', HeapStep h (.alloc size) h' ∧ h'.live = Function.update h.live q (some size) ∧
      HeapInv h'.mem h'.live bs' := by
  obtain ⟨m', hall, hq, hinv', -⟩ := hinv.alloc_eq hpos hsize halloc
  have hs : HeapStep h (.alloc size) _ := .alloc hsize (hall _ (Nat.lt_succ_self _))
  simp only [if_neg hq] at hs
  exact ⟨_, hs, rfl, hinv'⟩

/-- Where it can be served, `memory_alloc` returns what first fit gives. -/
theorem HeapInv.alloc_result {m m' : Mem} {live : ℕ → Option ℕ} {bs bs' : List Block}
    {size p q bound : ℕ} (hinv : HeapInv m live bs) (hpos : size ≠ 0) (hsize : size ≤ 0xFFFFFFFC)
    (halloc : alloc headerSize 4 (alignSize size) bs = some (q, bs'))
    (hall : ∀ fuel, bound < fuel → memoryAlloc fuel m size = some (p, m')) : p = q ∧ q ≠ 0 := by
  obtain ⟨m₁, hrun, hq, -⟩ := hinv.alloc_eq hpos hsize halloc
  have heq := (memoryAlloc_fuelMono m size).unique (hrun _ (Nat.lt_succ_self _)) hall
  exact ⟨(congrArg Prod.fst heq).symm, hq⟩

/-- What the release of a live pointer makes of the block list. -/
theorem HeapInv.exists_free {h : Heap} {bs : List Block} {ptr : ℕ}
    (hinv : HeapInv h.mem h.live bs) (hptr : h.live ptr ≠ none) :
    ∃ h', HeapStep h (.free ptr) h' ∧ h'.live = Function.update h.live ptr none ∧
      HeapInv h'.mem h'.live (coalesce headerSize (release headerSize ptr bs)) := by
  obtain ⟨m', hall, hinv', -⟩ := memoryFree_spec hinv (Or.inr hptr)
  exact ⟨_, .free (Or.inr hptr) (hall _ (Nat.lt_succ_self _)), rfl, hinv'⟩

/-! ## A fragmented heap -/

/-- A block of 100 and one of 400 bytes are live; between them lies the space of two blocks that were
    freed. -/
def fragmentedBlocks : List Block :=
  [⟨0x100000, 100, false⟩, ⟨0x100070, 512, true⟩, ⟨0x10027C, 400, false⟩, ⟨0x100418, 1047516, true⟩]

/-- Four blocks are allocated, and the second and the third freed. -/
theorem fragmented_reachable : ∃ h, HeapReachable h ∧ HeapInv h.mem h.live fragmentedBlocks ∧
    h.live 0x10000C = some 100 ∧ h.live 0x100288 = some 400 := by
  have hinit := Heap.init_inv fun _ => 0
  obtain ⟨h₁, hs₁, hl₁, hinv₁⟩ := hinit.exists_alloc (show 100 ≠ 0 by decide) (by decide) rfl
  obtain ⟨h₂, hs₂, hl₂, hinv₂⟩ := hinv₁.exists_alloc (show 200 ≠ 0 by decide) (by decide) rfl
  obtain ⟨h₃, hs₃, hl₃, hinv₃⟩ := hinv₂.exists_alloc (show 300 ≠ 0 by decide) (by decide) rfl
  obtain ⟨h₄, hs₄, hl₄, hinv₄⟩ := hinv₃.exists_alloc (show 400 ≠ 0 by decide) (by decide) rfl
  have hlive₄ := hl₄.trans (by rw [hl₃, hl₂, hl₁])
  have hblocks : HeapInv h₄.mem h₄.live [⟨0x100000, 100, false⟩, ⟨0x100070, 200, false⟩,
      ⟨0x100144, 300, false⟩, ⟨0x10027C, 400, false⟩, ⟨0x100418, 1047516, true⟩] := hinv₄
  obtain ⟨h₅, hs₅, hl₅, hinv₅⟩ := hblocks.exists_free
    (show h₄.live 0x10007C ≠ none by rw [hlive₄]; decide)
  obtain ⟨h₆, hs₆, hl₆, hinv₆⟩ := hinv₅.exists_free
    (show h₅.live 0x100150 ≠ none by rw [hl₅, hlive₄]; decide)
  have hlive₆ := hl₆.trans (by rw [hl₅, hlive₄])
  refine ⟨h₆, ⟨fun _ => 0, ?_⟩, ?_, by rw [hlive₆]; decide, by rw [hlive₆]; decide⟩
  · exact (((((Relation.ReflTransGen.single ⟨_, hs₁⟩).tail ⟨_, hs₂⟩).tail ⟨_, hs₃⟩).tail
      ⟨_, hs₄⟩).tail ⟨_, hs₅⟩).tail ⟨_, hs₆⟩
  · simpa [release, coalesce, headerSize, fragmentedBlocks] using hinv₆

/-! ## Soundness -/

/-- What the block list of a heap in order looks like in memory. -/
structure HeapSound (m : Mem) (live : ℕ → Option ℕ) (bs : List Block) : Prop where
  list : BlockList m heapStart bs
  next : ∀ pre b c post, bs = pre ++ b :: c :: post →
    blockNext m b.addr = b.addr + headerSize + blockSize m b.addr
  last : ∀ pre b, bs = pre ++ [b] → blockNext m b.addr = 0 ∧
    b.addr + headerSize + blockSize m b.addr = heapStart + heapSize
  sizes : ∀ b ∈ bs, 0 < blockSize m b.addr ∧ 4 ∣ blockSize m b.addr
  pointers : ∀ q n, live q = some n → 4 ∣ q ∧ n ≤ blockSize m (q - headerSize) ∧
    ∃ b ∈ bs, blockIsFree m b.addr = 0 ∧ q = b.addr + headerSize
  payloads : ∀ q n r k, live q = some n → live r = some k → q ≠ r →
    q + blockSize m (q - headerSize) ≤ r ∨ r + blockSize m (r - headerSize) ≤ q
  headers : ∀ q n, live q = some n → ∀ b ∈ bs,
    b.addr + headerSize ≤ q ∨ q + blockSize m (q - headerSize) ≤ b.addr

/-- Along a tiling list `next` is the end of the block, or `0` and the end of the region. -/
theorem BlockList.next_eq {m : Mem} {e : ℕ} : ∀ {bs : List Block} {a p : ℕ}, BlockList m p bs →
    Tiles headerSize a bs e → ∀ pre b post, bs = pre ++ b :: post →
    (∀ c cs, post = c :: cs → blockNext m b.addr = b.stop headerSize) ∧
    (post = [] → blockNext m b.addr = 0 ∧ b.stop headerSize = e) := by
  intro bs
  induction bs with
  | nil => intro a p _ _ pre b post heq; simp at heq
  | cons d bs ih =>
      rintro _ p ⟨-, rfl, -, -, hrest⟩ ⟨-, ht⟩ pre b post heq
      cases pre with
      | nil =>
          obtain ⟨rfl, rfl⟩ := List.cons.inj heq
          constructor
          · rintro c cs rfl
            exact hrest.2.1.symm.trans ht.1
          · rintro rfl
            exact ⟨hrest, ht⟩
      | cons x pre =>
          obtain ⟨rfl, rfl⟩ := List.cons.inj heq
          exact ih hrest ht pre b post rfl

/-- In a tiling of 4-aligned sizes from a 4-aligned address on, every address is 4-aligned. -/
theorem Tiles.aligned {e : ℕ} : ∀ {bs : List Block} {a : ℕ},
    FirstFit.Tiles headerSize a bs e → 4 ∣ a →
    (∀ b ∈ bs, 4 ∣ b.size) → ∀ b ∈ bs, 4 ∣ b.addr := by
  intro bs
  induction bs with
  | nil => intro a _ _ _ b hb; simp at hb
  | cons c bs ih =>
      rintro _ ⟨rfl, ht⟩ ha hsizes b hb
      rcases List.mem_cons.1 hb with rfl | hb'
      · exact ha
      · have hc := hsizes c (List.mem_cons_self ..)
        refine ih ht ?_ (fun d hd => hsizes d (List.mem_cons_of_mem _ hd)) b hb'
        exact Nat.dvd_add (Nat.dvd_add ha (by decide)) hc

theorem HeapInv.sound {m : Mem} {live : ℕ → Option ℕ} {bs : List Block} (h : HeapInv m live bs) :
    HeapSound m live bs := by
  have hsize : ∀ b ∈ bs, b.size = blockSize m b.addr := fun b hb => (h.list.mem b hb).1
  have hlive : ∀ q n, live q = some n → ∃ b ∈ bs, b.free = false ∧ q = b.addr + headerSize ∧
      n ≤ b.size ∧ b.size = blockSize m (q - headerSize) := by
    intro q n hq
    obtain ⟨b, hb, hfree, rfl, hn⟩ := h.live q n hq
    exact ⟨b, hb, hfree, rfl, hn, by rw [Nat.add_sub_cancel, hsize b hb]⟩
  refine ⟨h.list, fun pre b c post heq => ?_, fun pre b heq => ?_, fun b hb => ?_,
    fun q n hq => ?_, fun q n r k hq hr hne => ?_, fun q n hq c hc => ?_⟩
  · rw [(h.list.next_eq h.tiles pre b (c :: post) heq).1 c post rfl, Block.stop,
      hsize b (by simp [heq])]
  · have hlast := (h.list.next_eq h.tiles pre b [] heq).2 rfl
    rwa [Block.stop, hsize b (by simp [heq])] at hlast
  · rw [← hsize b hb]
    exact h.sizes b hb
  · obtain ⟨b, hb, hfree, rfl, hn, heq⟩ := hlive q n hq
    have halign := Tiles.aligned h.tiles (by decide) (fun d hd => (h.sizes d hd).2) b hb
    refine ⟨Nat.dvd_add halign (by decide), by omega, b, hb, ?_, rfl⟩
    by_contra hset
    rw [← ne_eq, ← (h.list.mem b hb).2, hfree] at hset
    simp at hset
  · obtain ⟨b, hb, -, rfl, -, hbs⟩ := hlive q n hq
    obtain ⟨c, hc, -, rfl, -, hcs⟩ := hlive r k hr
    rw [← hbs, ← hcs]
    exact h.tiles.payloads hb hc (by rintro rfl; exact hne rfl)
  · obtain ⟨b, hb, -, rfl, -, hbs⟩ := hlive q n hq
    rw [← hbs]
    exact h.tiles.header_payload hc hb

/-- The blocks of live pointers are not moved, resized or written to by an allocation or a release
    of another pointer. -/
theorem HeapStep.kept {h h' : Heap} {bs : List Block} (hinv : HeapInv h.mem h.live bs) {op : HeapOp}
    (hs : HeapStep h op h') (hop : op ≠ .store) {q n : ℕ} (hq : h.live q = some n)
    (hfree : op ≠ .free q) :
    h'.live q = some n ∧ blockSize h'.mem (q - headerSize) = blockSize h.mem (q - headerSize) ∧
      ∀ x, q ≤ x → x < q + blockSize h.mem (q - headerSize) → h'.mem x = h.mem x := by
  cases op with
  | alloc size =>
      obtain ⟨hkept, hcases⟩ := hs.alloc_inv hinv
      refine ⟨?_, hkept.size q n hq, hkept.payload q n hq⟩
      rcases hcases with rfl | ⟨r, -, -, hnew, hlive, -⟩
      · exact hq
      · rw [hlive]
        exact PartialMap.update_some_of_eq_none hnew hq
  | free ptr =>
      obtain ⟨hlive, hkept, -⟩ := hs.free_inv hinv
      have hq' : h'.live q = some n := by
        rw [hlive, PartialMap.update_none_eq_some]
        exact ⟨fun hqp => hfree (hqp ▸ rfl), hq⟩
      exact ⟨hq', hkept.size q n hq', hkept.payload q n hq'⟩
  | store => exact absurd rfl hop

/-- In every reachable state the heap is tiled by its block list and holds the live payloads apart,
    the operations return, and none of them touches another live block. -/
theorem heap_sound {h : Heap} (hreach : HeapReachable h) :
    (∃ bs, HeapSound h.mem h.live bs) ∧
    (∀ size, size ≤ 0xFFFFFFFC → ∃ h', HeapStep h (.alloc size) h') ∧
    (∀ ptr, ptr = 0 ∨ h.live ptr ≠ none → ∃ h', HeapStep h (.free ptr) h') ∧
    ∀ op h', HeapStep h op h' → op ≠ .store → ∀ q n, h.live q = some n → op ≠ .free q →
      h'.live q = some n ∧ blockSize h'.mem (q - headerSize) = blockSize h.mem (q - headerSize) ∧
        ∀ x, q ≤ x → x < q + blockSize h.mem (q - headerSize) → h'.mem x = h.mem x := by
  obtain ⟨bs, hinv⟩ := hreach.inv
  exact ⟨⟨bs, hinv.sound⟩, hinv.returns.1, hinv.returns.2,
    fun op h' hs hop q n hq hfree => hs.kept hinv hop hq hfree⟩

/-- 60 bytes of the fragmented heap are taken out of its second block, and the fourth block stays as
    it is. -/
theorem heap_sound_fragmented :
    ∃ h h', HeapReachable h ∧ HeapSound h.mem h.live fragmentedBlocks ∧
      HeapStep h (.alloc 60) h' ∧ h'.live 0x10007C = some 60 ∧ h'.live 0x100288 = some 400 ∧
      ∀ x, 0x100288 ≤ x → x < 0x100288 + 400 → h'.mem x = h.mem x := by
  obtain ⟨h, hreach, hinv, -, hlive⟩ := fragmented_reachable
  obtain ⟨h', hs, hl, -⟩ := hinv.exists_alloc (show 60 ≠ 0 by decide) (by decide) rfl
  obtain ⟨⟨bs, hsound⟩, -, -, hframe⟩ := heap_sound hreach
  obtain rfl := hinv.list.unique hsound.list
  have hsize : (400 : ℕ) = blockSize h.mem 0x10027C :=
    (hinv.list.mem ⟨0x10027C, 400, false⟩ (by decide)).1
  obtain ⟨hlive', -, hkept⟩ := hframe _ h' hs nofun 0x100288 400 hlive nofun
  refine ⟨h, h', hreach, hsound, hs, by rw [hl]; exact Function.update_self .., hlive', ?_⟩
  exact fun x hx hlt => hkept x hx (lt_of_lt_of_eq hlt (congrArg (0x100288 + ·) hsize))

/-- In every reachable state no two neighbouring blocks are free, and when no pointer is live any
    more the list is the single block `memory_init` has created. -/
theorem heap_no_residue {h : Heap} (hreach : HeapReachable h) :
    ∃ bs, BlockList h.mem heapStart bs ∧ Separated bs ∧
      ((∀ q, h.live q = none) → bs = [⟨heapStart, heapSize - headerSize, true⟩]) := by
  obtain ⟨bs, hinv⟩ := hreach.inv
  refine ⟨bs, hinv.list, hinv.separated, fun hnone => ?_⟩
  have hfree : ∀ b ∈ bs, b.free = true := by
    intro b hb
    rcases hbf : b.free with _ | _
    · exact absurd (hnone _) (hinv.owned b hb hbf)
    · rfl
  have hsingle := hinv.tiles.eq_singleton (by decide) hinv.separated hfree
  rwa [Nat.add_sub_cancel_left] at hsingle

/-- A block is allocated and freed again. -/
theorem heap_no_residue_alloc_free :
    ∃ h₁ h₂ q, HeapStep (Heap.init fun _ => 0) (.alloc 100) h₁ ∧ HeapStep h₁ (.free q) h₂ ∧
      BlockList h₂.mem heapStart [⟨heapStart, heapSize - headerSize, true⟩] := by
  have hinit := Heap.init_inv fun _ => 0
  obtain ⟨h₁, hs₁⟩ := hinit.returns.1 100 (by decide)
  obtain ⟨bs₁, hinv₁⟩ := hinit.step hs₁
  -- the pointer that was returned
  obtain ⟨q, hptr, hlive⟩ : ∃ q, (q = 0 ∨ h₁.live q ≠ none) ∧
      Function.update h₁.live q none = fun _ => none := by
    rcases (hs₁.alloc_inv hinit).2 with rfl | ⟨q, -, -, -, hlive, -⟩
    · exact ⟨0, Or.inl rfl, Function.update_eq_self 0 _⟩
    · refine ⟨q, Or.inr (by rw [hlive, Function.update_self]; simp), ?_⟩
      rw [hlive, Function.update_idem]
      exact Function.update_eq_self q _
  obtain ⟨h₂, hs₂⟩ := hinv₁.returns.2 q hptr
  obtain ⟨bs, hlist, -, hsingle⟩ := heap_no_residue
    ⟨_, (Relation.ReflTransGen.single ⟨_, hs₁⟩).tail ⟨_, hs₂⟩⟩
  refine ⟨h₁, h₂, q, hs₁, hs₂, hsingle (fun r => ?_) ▸ hlist⟩
  rw [(hs₂.free_inv hinv₁).1, hlive]

end BlackHole
