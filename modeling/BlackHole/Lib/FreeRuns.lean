import BlackHole.Lib.FirstFit

set_option autoImplicit false

/-! # Free space in a tiled region

First fit looks at blocks, a client at the space that no allocated block covers. Where no two
neighbours are free the free blocks are the maximal runs of that space (`Separated.maximalRun_iff`),
so that first fit takes the lowest run with room (`alloc_lowest_run`) and fails only if there is
none (`alloc_eq_none_iff_run`). Releasing what was just allocated gives the blocks back
(`coalesce_release_alloc`). -/

namespace FirstFit

variable {hdr slack n : ℕ}

/-! ## Maximal runs -/

/-- `S` holds from `lo` up to `hi`, and at neither of the two neighbours. -/
structure MaximalRun (S : ℕ → Prop) (lo hi : ℕ) : Prop where
  nonempty : lo < hi
  inside : ∀ x, lo ≤ x → x < hi → S x
  stop : ¬ S hi
  start : ∀ y, y + 1 = lo → ¬ S y

/-- Two maximal runs through one point are the same. -/
theorem MaximalRun.eq {S : ℕ → Prop} {lo hi lo' hi' x : ℕ} (h : MaximalRun S lo hi)
    (h' : MaximalRun S lo' hi') (hx : lo ≤ x ∧ x < hi) (hx' : lo' ≤ x ∧ x < hi') :
    lo = lo' ∧ hi = hi' := by
  constructor
  · rcases Nat.lt_trichotomy lo lo' with hlt | heq | hlt
    · exact absurd (h.inside (lo' - 1) (by omega) (by omega)) (h'.start _ (by omega))
    · exact heq
    · exact absurd (h'.inside (lo - 1) (by omega) (by omega)) (h.start _ (by omega))
  · rcases Nat.lt_trichotomy hi hi' with hlt | heq | hlt
    · exact absurd (h'.inside hi (by omega) hlt) h.stop
    · exact heq
    · exact absurd (h.inside hi' (by omega) hlt) h'.stop

theorem MaximalRun.congr {S T : ℕ → Prop} (hST : ∀ x, S x ↔ T x) {lo hi : ℕ} :
    MaximalRun S lo hi ↔ MaximalRun T lo hi := by
  obtain rfl : S = T := funext fun x => propext (hST x)
  rfl

/-! ## The space that is not allocated -/

/-- The addresses of the region that belong to no allocated block. -/
def FreeSpace (hdr a e : ℕ) (bs : List Block) (x : ℕ) : Prop :=
  (a ≤ x ∧ x < e) ∧ ∀ b ∈ bs, b.free = false → ¬ b.Covers hdr x

/-- A tiling leaves no address of the region out. -/
theorem Tiles.covers {a e : ℕ} {bs : List Block} (h : Tiles hdr a bs e) {x : ℕ} (hx : a ≤ x)
    (hxe : x < e) : ∃ b ∈ bs, b.Covers hdr x := by
  induction bs generalizing a with
  | nil =>
      obtain rfl : a = e := h
      omega
  | cons b bs ih =>
      obtain ⟨rfl, hrest⟩ := h
      by_cases hb : x < b.stop hdr
      · exact ⟨b, List.mem_cons_self .., hx, hb⟩
      · obtain ⟨c, hc, hcov⟩ := ih hrest (by omega)
        exact ⟨c, List.mem_cons_of_mem _ hc, hcov⟩

/-- A free block is free space. -/
theorem Tiles.freeSpace {a e : ℕ} {bs : List Block} (h : Tiles hdr a bs e) {b : Block} (hb : b ∈ bs)
    (hfree : b.free = true) {x : ℕ} (hx : b.Covers hdr x) : FreeSpace hdr a e bs x := by
  have hin := h.mem hb
  refine ⟨?_, fun c hc hcfree hcov => ?_⟩
  · unfold Block.Covers at hx
    omega
  · rcases h.apart hb hc with rfl | hlt | hlt
    · simp [hfree] at hcfree
    · unfold Block.Covers at hx hcov
      omega
    · unfold Block.Covers at hx hcov
      omega

/-- The block that covers an address of the free space is free. -/
theorem Tiles.exists_free {a e : ℕ} {bs : List Block} (h : Tiles hdr a bs e) {x : ℕ}
    (hx : FreeSpace hdr a e bs x) : ∃ b ∈ bs, b.free = true ∧ b.Covers hdr x := by
  obtain ⟨b, hb, hcov⟩ := h.covers hx.1.1 hx.1.2
  cases hfree : b.free with
  | true => exact ⟨b, hb, hfree, hcov⟩
  | false => exact absurd hcov (hx.2 b hb hfree)

/-- Two blocks that touch are neighbours in the list. -/
theorem Separated.not_both_free (hhdr : 0 < hdr) {a e : ℕ} {bs : List Block}
    (h : Tiles hdr a bs e) (hsep : Separated bs) {b c : Block} (hb : b ∈ bs) (hc : c ∈ bs)
    (htouch : b.stop hdr = c.addr) : ¬ (b.free ∧ c.free) := by
  obtain ⟨pre, post, rfl⟩ := List.append_of_mem hb
  obtain ⟨m, -, -, hpost⟩ := tiles_append.1 h
  cases post with
  | nil =>
      have hend : b.stop hdr = e := hpost
      have hin := (h.mem hc).2
      unfold Block.stop at *
      omega
  | cons d post =>
      have hdc : d = c := h.eq_of_addr hhdr (by simp) hc (hpost.1.trans htouch)
      unfold Separated at hsep
      rw [List.isChain_append, List.isChain_cons_cons, hdc] at hsep
      exact hsep.2.1.1

/-- Without free neighbours every free block is a maximal run: the block that covers an address next to
    it would be a free neighbour. -/
theorem Separated.maximalRun (hhdr : 0 < hdr) {a e : ℕ} {bs : List Block} (h : Tiles hdr a bs e)
    (hsep : Separated bs) {b : Block} (hb : b ∈ bs) (hfree : b.free = true) :
    MaximalRun (FreeSpace hdr a e bs) b.addr (b.stop hdr) := by
  refine ⟨by unfold Block.stop; omega, fun x hx hlt => h.freeSpace hb hfree ⟨hx, hlt⟩,
    fun hstop => ?_, fun y hy hstart => ?_⟩
  · obtain ⟨c, hc, hcfree, hcov⟩ := h.exists_free hstop
    have hbc : b.stop hdr = c.addr := by
      unfold Block.Covers at hcov
      rcases h.apart hb hc with rfl | hlt | hlt
      · omega
      · omega
      · unfold Block.stop at *
        omega
    exact hsep.not_both_free hhdr h hb hc hbc ⟨hfree, hcfree⟩
  · obtain ⟨c, hc, hcfree, hcov⟩ := h.exists_free hstart
    have hcb : c.stop hdr = b.addr := by
      unfold Block.Covers at hcov
      rcases h.apart hb hc with rfl | hlt | hlt
      · omega
      · unfold Block.stop at *
        omega
      · omega
    exact hsep.not_both_free hhdr h hc hb hcb ⟨hcfree, hfree⟩

/-- Without free neighbours the maximal runs of the space that is not allocated are the free
    blocks. -/
theorem Separated.maximalRun_iff (hhdr : 0 < hdr) {a e : ℕ} {bs : List Block}
    (h : Tiles hdr a bs e) (hsep : Separated bs) {lo hi : ℕ} :
    MaximalRun (FreeSpace hdr a e bs) lo hi ↔
      ∃ b ∈ bs, b.free = true ∧ lo = b.addr ∧ hi = b.stop hdr := by
  constructor
  · intro hrun
    have hlo := hrun.inside lo le_rfl hrun.nonempty
    obtain ⟨b, hb, hfree, hcov⟩ := h.exists_free hlo
    obtain ⟨hblo, hbhi⟩ := hrun.eq (hsep.maximalRun hhdr h hb hfree) ⟨le_rfl, hrun.nonempty⟩ hcov
    exact ⟨b, hb, hfree, hblo, hbhi⟩
  · rintro ⟨b, hb, hfree, rfl, rfl⟩
    exact hsep.maximalRun hhdr h hb hfree

/-! ## First fit takes the lowest run with room -/

theorem alloc_eq_none_iff {bs : List Block} :
    alloc hdr slack n bs = none ↔ ∀ b ∈ bs, b.free = true → b.size < n := by
  induction bs with
  | nil => simp [alloc]
  | cons b bs ih =>
      rw [alloc, List.forall_mem_cons]
      by_cases hfit : b.free = true ∧ n ≤ b.size
      · rw [if_pos hfit]
        refine iff_of_false (by simp) fun h => ?_
        have hlt := h.1 hfit.1
        omega
      · rw [if_neg hfit, Option.map_eq_none_iff, ih]
        refine (and_iff_right fun hfree => ?_).symm
        by_contra hge
        exact hfit ⟨hfree, by omega⟩

/-- No free block that is large enough stands before the one that is carved. -/
theorem alloc_lowest {a e p : ℕ} {bs bs' : List Block} (h : Tiles hdr a bs e)
    (halloc : alloc hdr slack n bs = some (p, bs')) :
    ∀ c ∈ bs, c.free = true → n ≤ c.size → p ≤ c.addr + hdr := by
  induction bs generalizing a bs' with
  | nil => simp
  | cons b bs ih =>
      obtain ⟨rfl, hrest⟩ := h
      intro c hc hfree hle
      rw [alloc] at halloc
      split at halloc
      · simp only [Option.some.injEq, Prod.mk.injEq] at halloc
        rw [← halloc.1]
        rcases List.mem_cons.1 hc with rfl | hc'
        · exact le_rfl
        · have hlo := (hrest.mem hc').1
          unfold Block.stop at hlo
          omega
      · next hfit =>
          obtain ⟨⟨q, cs⟩, hcs, heq⟩ := Option.map_eq_some_iff.1 halloc
          simp only [Prod.mk.injEq] at heq
          obtain ⟨rfl, -⟩ := heq
          rcases List.mem_cons.1 hc with rfl | hc'
          · exact absurd ⟨hfree, hle⟩ hfit
          · exact ih hrest hcs c hc' hfree hle

/-- First fit fails exactly if no maximal run has room for a header and `n` bytes. -/
theorem alloc_eq_none_iff_run (hhdr : 0 < hdr) {a e : ℕ} {bs : List Block} (h : Tiles hdr a bs e)
    (hsep : Separated bs) :
    alloc hdr slack n bs = none ↔
      ∀ lo hi, MaximalRun (FreeSpace hdr a e bs) lo hi → ¬ lo + hdr + n ≤ hi := by
  rw [alloc_eq_none_iff]
  constructor
  · intro hnone lo hi hrun hroom
    obtain ⟨b, hb, hfree, rfl, rfl⟩ := (hsep.maximalRun_iff hhdr h).1 hrun
    have hlt := hnone b hb hfree
    unfold Block.stop at hroom
    omega
  · intro hnone b hb hfree
    have hroom := hnone _ _ (hsep.maximalRun hhdr h hb hfree)
    unfold Block.stop at hroom
    omega

/-- When it succeeds it takes the lowest maximal run that has room. -/
theorem alloc_lowest_run (hhdr : 0 < hdr) {a e p : ℕ} {bs bs' : List Block} (h : Tiles hdr a bs e)
    (hsep : Separated bs) (halloc : alloc hdr slack n bs = some (p, bs')) :
    ∃ lo hi, MaximalRun (FreeSpace hdr a e bs) lo hi ∧ lo + hdr + n ≤ hi ∧ p = lo + hdr ∧
      ∀ lo' hi', MaximalRun (FreeSpace hdr a e bs) lo' hi' → lo' + hdr + n ≤ hi' → lo ≤ lo' := by
  obtain ⟨pre, b, post, heq, hfree, hle, rfl, -⟩ := alloc_eq_some halloc
  have hb : b ∈ bs := by simp [heq]
  refine ⟨b.addr, b.stop hdr, hsep.maximalRun hhdr h hb hfree, by unfold Block.stop; omega, rfl,
    fun lo' hi' hrun hroom => ?_⟩
  obtain ⟨c, hc, hcfree, rfl, rfl⟩ := (hsep.maximalRun_iff hhdr h).1 hrun
  have hlow := alloc_lowest h halloc c hc hcfree (by unfold Block.stop at hroom; omega)
  omega

/-! ## Two allocations in a row -/

/-- A free block that holds `n` and then `k` bytes, with a header in between, or one that holds `k`
    bytes behind one that holds `n`. -/
def RoomForTwo (hdr n k : ℕ) (bs : List Block) : Prop :=
  ∃ pre c post, bs = pre ++ c :: post ∧ c.free = true ∧
    (n + hdr + k ≤ c.size ∨ k ≤ c.size ∧ ∃ b ∈ pre, b.free = true ∧ n ≤ b.size)

/-- The first block is carved: the other payload goes into what is left of it or behind it. -/
theorem roomForTwo_cons_of_fits {k : ℕ} {b : Block} {bs : List Block} (hfree : b.free = true)
    (hfit : n ≤ b.size) :
    RoomForTwo hdr n k (b :: bs) ↔
      n + hdr + k ≤ b.size ∨ ∃ c ∈ bs, c.free = true ∧ k ≤ c.size := by
  constructor
  · rintro ⟨_ | ⟨d, pre⟩, c, post, heq, hcfree, hroom⟩
    · obtain ⟨rfl, rfl⟩ := List.cons.inj heq
      rcases hroom with hboth | ⟨-, d, hd, -⟩
      · exact Or.inl hboth
      · exact absurd hd (List.not_mem_nil)
    · obtain ⟨rfl, rfl⟩ := List.cons.inj heq
      exact Or.inr ⟨c, by simp, hcfree, by omega⟩
  · rintro (hboth | ⟨c, hc, hcfree, hk⟩)
    · exact ⟨[], b, bs, rfl, hfree, Or.inl hboth⟩
    · obtain ⟨pre, post, rfl⟩ := List.append_of_mem hc
      exact ⟨b :: pre, c, post, rfl, hcfree, Or.inr ⟨hk, b, List.mem_cons_self .., hfree, hfit⟩⟩

/-- A first block without room for the smaller payload does not matter. -/
theorem roomForTwo_cons_of_not_fits {k : ℕ} (hnk : n ≤ k) {b : Block} {bs : List Block}
    (hfit : ¬ (b.free = true ∧ n ≤ b.size)) :
    RoomForTwo hdr n k (b :: bs) ↔ RoomForTwo hdr n k bs := by
  constructor
  · rintro ⟨_ | ⟨d, pre⟩, c, post, heq, hcfree, hroom⟩
    · obtain ⟨rfl, rfl⟩ := List.cons.inj heq
      exact absurd ⟨hcfree, by omega⟩ hfit
    · obtain ⟨rfl, rfl⟩ := List.cons.inj heq
      refine ⟨pre, c, post, rfl, hcfree, hroom.imp_right fun ⟨hk, d, hd, hdfree, hdn⟩ => ?_⟩
      rcases List.mem_cons.1 hd with rfl | hd
      · exact absurd ⟨hdfree, hdn⟩ hfit
      · exact ⟨hk, d, hd, hdfree, hdn⟩
  · rintro ⟨pre, c, post, rfl, hcfree, hroom⟩
    exact ⟨b :: pre, c, post, rfl, hcfree,
      hroom.imp_right fun ⟨hk, d, hd, hdn⟩ => ⟨hk, d, List.mem_cons_of_mem _ hd, hdn⟩⟩

/-- What an allocation leaves of a block has room for `k` bytes if the block had room for both. -/
theorem exists_mem_carve_iff {k : ℕ} (hslack : slack ≤ k) {b : Block} :
    (∃ c ∈ carve hdr slack n b, c.free = true ∧ k ≤ c.size) ↔ n + hdr + k ≤ b.size := by
  unfold carve
  split
  · simp
    omega
  · simp
    omega

/-- Two allocations, the second not smaller than the first, both succeed exactly if there is room for
    the two. -/
theorem alloc_alloc_ne_none_iff {k : ℕ} (hslack : slack ≤ k) (hnk : n ≤ k) {bs : List Block} :
    ((alloc hdr slack n bs).bind fun r => alloc hdr slack k r.2) ≠ none ↔
      RoomForTwo hdr n k bs := by
  induction bs with
  | nil => simp [alloc, RoomForTwo]
  | cons b bs ih =>
      rw [alloc]
      by_cases hfit : b.free = true ∧ n ≤ b.size
      · rw [if_pos hfit, Option.bind_some, Ne, alloc_eq_none_iff,
          roomForTwo_cons_of_fits hfit.1 hfit.2, ← exists_mem_carve_iff hslack]
        simp only [List.mem_append, not_forall, not_lt, exists_prop, or_and_right, exists_or]
      · rw [if_neg hfit, roomForTwo_cons_of_not_fits hnk hfit, ← ih]
        cases alloc hdr slack n bs with
        | none => rfl
        | some r =>
            have hskip : ¬ (b.free = true ∧ k ≤ b.size) := fun h => hfit ⟨h.1, by omega⟩
            simp [alloc, hskip]

/-! ## Allocating and releasing -/

theorem coalesce_cons {b c : Block} {bs : List Block} (h : ¬ (b.free = true ∧ c.free = true)) :
    coalesce hdr (b :: c :: bs) = b :: coalesce hdr (c :: bs) := by
  rw [coalesce, if_neg h]

/-- Coalescing has nothing to do where no two neighbours are free. -/
theorem coalesce_of_separated {bs : List Block} (h : Separated bs) : coalesce hdr bs = bs := by
  induction bs with
  | nil => rw [coalesce]
  | cons b bs ih =>
      cases bs with
      | nil => rw [coalesce]
      | cons c bs =>
          unfold Separated at h ih
          rw [List.isChain_cons_cons] at h
          rw [coalesce_cons h.1, ih h.2]

/-- Behind blocks that stay as they are, coalescing merges the two parts of a split block. -/
theorem coalesce_split {b x y : Block} (haddr : x.addr = b.addr) (hx : x.free = true)
    (hy : y.free = true) (hb : b.free = true) (hsize : x.size + (hdr + y.size) = b.size)
    {pre post : List Block} (h : Separated (pre ++ b :: post)) :
    coalesce hdr (pre ++ x :: y :: post) = pre ++ b :: post := by
  induction pre with
  | nil =>
      have hmerge : ({ x with size := x.size + (hdr + y.size) } : Block) = b := by
        obtain ⟨baddr, bsize, bfree⟩ := b
        simp only at haddr hb hsize
        rw [hsize, haddr, hx, hb]
      rw [List.nil_append, coalesce, if_pos ⟨hx, hy⟩, hmerge]
      exact coalesce_of_separated h
  | cons c pre ih =>
      have htail : Separated (pre ++ b :: post) := List.IsChain.tail h
      cases pre with
      | nil =>
          unfold Separated at h
          rw [List.cons_append, List.nil_append, List.isChain_cons_cons, hb] at h
          rw [List.cons_append, List.nil_append, coalesce_cons (by rw [hx]; exact h.1)]
          exact congrArg (c :: ·) (ih htail)
      | cons d pre =>
          unfold Separated at h
          rw [List.cons_append, List.cons_append, List.isChain_cons_cons] at h
          rw [List.cons_append, List.cons_append, coalesce_cons h.1]
          exact congrArg (c :: ·) (ih htail)

theorem release_of_ne {p : ℕ} {bs : List Block} (h : ∀ b ∈ bs, b.addr + hdr ≠ p) :
    release hdr p bs = bs := by
  unfold release
  conv_rhs => rw [← List.map_id bs]
  exact List.map_congr_left fun b hb => if_neg (h b hb)

/-- Releasing the block that was just allocated gives the blocks back as they were. -/
theorem coalesce_release_alloc (hhdr : 0 < hdr) {a e p : ℕ} {bs bs' : List Block}
    (h : Tiles hdr a bs e) (hsep : Separated bs) (halloc : alloc hdr slack n bs = some (p, bs')) :
    coalesce hdr (release hdr p bs') = bs := by
  obtain ⟨pre, b, post, rfl, hfree, hle, rfl, rfl⟩ := alloc_eq_some halloc
  obtain ⟨m, hpre, rfl, hpost⟩ := tiles_append.1 h
  have hrelpre : release hdr (b.addr + hdr) pre = pre := by
    refine release_of_ne fun c hc => ?_
    have hstop := (hpre.mem hc).2
    unfold Block.stop at hstop
    omega
  have hrelpost : release hdr (b.addr + hdr) post = post := by
    refine release_of_ne fun c hc => ?_
    have hstart := (hpost.mem hc).1
    unfold Block.stop at hstart
    omega
  have hsplit : release hdr (b.addr + hdr) (pre ++ (carve hdr slack n b ++ post))
      = pre ++ (release hdr (b.addr + hdr) (carve hdr slack n b) ++ post) := by
    conv_rhs => rw [← hrelpre, ← hrelpost]
    simp only [release, List.map_append]
  rw [hsplit]
  unfold carve
  split
  next hroom =>
    have hrel : release hdr (b.addr + hdr)
          [⟨b.addr, n, false⟩, ⟨b.addr + hdr + n, b.size - n - hdr, true⟩]
        = [⟨b.addr, n, true⟩, ⟨b.addr + hdr + n, b.size - n - hdr, true⟩] := by
      simp only [release, List.map_cons, List.map_nil, if_true]
      rw [if_neg (by omega)]
    rw [hrel]
    exact coalesce_split (b := b) (x := ⟨b.addr, n, true⟩)
      (y := ⟨b.addr + hdr + n, b.size - n - hdr, true⟩) rfl rfl rfl hfree (by simp only; omega) hsep
  next =>
    have hrel : release hdr (b.addr + hdr) [{ b with free := false }] = [b] := by
      simp only [release, List.map_cons, List.map_nil, if_true]
      obtain ⟨addr, size, free⟩ := b
      simp only at hfree
      rw [hfree]
    rw [hrel]
    exact coalesce_of_separated hsep

end FirstFit
