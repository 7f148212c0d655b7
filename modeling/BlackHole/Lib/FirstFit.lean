import Mathlib.Data.List.Chain
import Mathlib.Data.Nat.Basic

set_option autoImplicit false

/-! # First-fit allocation in a tiled region

A region is tiled by blocks, each a header of `hdr` bytes and a payload. `alloc` takes the first
free block that is large enough and splits off what is left if that is worth a block of its own
(`slack` bytes of payload at least), `release` marks a block as free and `coalesce` merges
neighbouring free blocks in one pass.

The tiling is kept by all three; allocated blocks are only added by `alloc` and removed by
`release`; and if no two neighbours are free before an `alloc`, or after any `coalesce`, none are.
-/

namespace FirstFit

/-- A block: the address of its header, the size of its payload, whether it is free. -/
structure Block where
  addr : ℕ
  size : ℕ
  free : Bool
deriving DecidableEq

variable {hdr slack n : ℕ}

/-- The end of a block. -/
def Block.stop (hdr : ℕ) (b : Block) : ℕ := b.addr + hdr + b.size

/-- The blocks follow each other from `a` to `e`. -/
def Tiles (hdr : ℕ) : ℕ → List Block → ℕ → Prop
  | a, [], e => a = e
  | a, b :: bs, e => b.addr = a ∧ Tiles hdr (b.stop hdr) bs e

/-- No two neighbours are free. -/
def Separated (bs : List Block) : Prop := bs.IsChain fun b c => ¬ (b.free ∧ c.free)

/-- Address `x` belongs to block `b`, header included. -/
def Block.Covers (hdr : ℕ) (b : Block) (x : ℕ) : Prop := b.addr ≤ x ∧ x < b.stop hdr

/-! ## Tilings -/

theorem tiles_append {a e : ℕ} {bs cs : List Block} :
    Tiles hdr a (bs ++ cs) e ↔ ∃ m, Tiles hdr a bs m ∧ Tiles hdr m cs e := by
  induction bs generalizing a with
  | nil => simp [Tiles]
  | cons b bs ih => simp [Tiles, ih, and_assoc]

theorem Tiles.le {a e : ℕ} {bs : List Block} (h : Tiles hdr a bs e) : a ≤ e := by
  induction bs generalizing a with
  | nil => exact le_of_eq h
  | cons b bs ih =>
      obtain ⟨rfl, hrest⟩ := h
      have hle := ih hrest
      unfold Block.stop at hle
      omega

/-- Every block lies inside the region. -/
theorem Tiles.mem {a e : ℕ} {bs : List Block} (h : Tiles hdr a bs e) {b : Block} (hb : b ∈ bs) :
    a ≤ b.addr ∧ b.stop hdr ≤ e := by
  obtain ⟨pre, post, rfl⟩ := List.append_of_mem hb
  obtain ⟨m, hpre, rfl, hpost⟩ := tiles_append.1 h
  exact ⟨hpre.le, hpost.le⟩

/-- Two blocks of a tiling are the same or apart. -/
theorem Tiles.apart {a e : ℕ} {bs : List Block} (h : Tiles hdr a bs e) {b c : Block} (hb : b ∈ bs)
    (hc : c ∈ bs) : b = c ∨ b.stop hdr ≤ c.addr ∨ c.stop hdr ≤ b.addr := by
  induction bs generalizing a with
  | nil => simp at hb
  | cons d bs ih =>
      obtain ⟨-, hrest⟩ := h
      rcases List.mem_cons.1 hb with rfl | hb'
      · rcases List.mem_cons.1 hc with rfl | hc'
        · exact Or.inl rfl
        · exact Or.inr (Or.inl (hrest.mem hc').1)
      · rcases List.mem_cons.1 hc with rfl | hc'
        · exact Or.inr (Or.inr (hrest.mem hb').1)
        · exact ih hrest hb' hc'

/-- A payload never meets a header. -/
theorem Tiles.header_payload {a e : ℕ} {bs : List Block} (h : Tiles hdr a bs e) {b c : Block}
    (hb : b ∈ bs) (hc : c ∈ bs) :
    b.addr + hdr ≤ c.addr + hdr ∨ c.addr + hdr + c.size ≤ b.addr := by
  rcases h.apart hb hc with rfl | hlt | hlt
  · exact Or.inl le_rfl
  · unfold Block.stop at hlt
    omega
  · exact Or.inr hlt

/-- Two payloads are the same or apart. -/
theorem Tiles.payloads {a e : ℕ} {bs : List Block} (h : Tiles hdr a bs e) {b c : Block}
    (hb : b ∈ bs) (hc : c ∈ bs) (hne : b ≠ c) :
    b.addr + hdr + b.size ≤ c.addr + hdr ∨ c.addr + hdr + c.size ≤ b.addr + hdr := by
  rcases (h.apart hb hc).resolve_left hne with hlt | hlt
  · exact Or.inl (le_trans hlt (Nat.le_add_right _ _))
  · exact Or.inr (le_trans hlt (Nat.le_add_right _ _))

/-- A block of a tiling is determined by its address. -/
theorem Tiles.eq_of_addr (hhdr : 0 < hdr) {a e : ℕ} {bs : List Block} (h : Tiles hdr a bs e)
    {b c : Block} (hb : b ∈ bs) (hc : c ∈ bs) (heq : b.addr = c.addr) : b = c := by
  rcases h.apart hb hc with rfl | hlt | hlt
  · rfl
  · unfold Block.stop at hlt
    omega
  · unfold Block.stop at hlt
    omega

/-! ## Allocation -/

/-- The blocks a free block `b` is replaced by when `n` bytes of it are allocated. -/
def carve (hdr slack n : ℕ) (b : Block) : List Block :=
  if n + hdr + slack ≤ b.size then
    [⟨b.addr, n, false⟩, ⟨b.addr + hdr + n, b.size - n - hdr, true⟩]
  else [{ b with free := false }]

/-- First fit: the payload address of the allocated block and the new blocks. -/
def alloc (hdr slack n : ℕ) : List Block → Option (ℕ × List Block)
  | [] => none
  | b :: bs =>
      if b.free ∧ n ≤ b.size then some (b.addr + hdr, carve hdr slack n b ++ bs)
      else (alloc hdr slack n bs).map fun r => (r.1, b :: r.2)

/-- Everything an allocation can do: it carves the first free block that is large enough. -/
theorem alloc_eq_some {bs bs' : List Block} {p : ℕ} (h : alloc hdr slack n bs = some (p, bs')) :
    ∃ pre b post, bs = pre ++ b :: post ∧ b.free ∧ n ≤ b.size ∧ p = b.addr + hdr ∧
      bs' = pre ++ (carve hdr slack n b ++ post) := by
  induction bs generalizing bs' with
  | nil => simp [alloc] at h
  | cons b bs ih =>
      rw [alloc] at h
      split at h
      · next hfit =>
          simp only [Option.some.injEq, Prod.mk.injEq] at h
          exact ⟨[], b, bs, rfl, hfit.1, hfit.2, h.1.symm, h.2.symm⟩
      · obtain ⟨⟨q, cs⟩, hcs, heq⟩ := Option.map_eq_some_iff.1 h
        simp only [Prod.mk.injEq] at heq
        obtain ⟨rfl, rfl⟩ := heq
        obtain ⟨pre, c, post, rfl, hfree, hle, rfl, rfl⟩ := ih hcs
        exact ⟨b :: pre, c, post, rfl, hfree, hle, rfl, rfl⟩

/-- An allocation splits at most one block. -/
theorem alloc_length_le {bs bs' : List Block} {p : ℕ} (h : alloc hdr slack n bs = some (p, bs')) :
    bs'.length ≤ bs.length + 1 := by
  obtain ⟨pre, b, post, rfl, -, -, -, rfl⟩ := alloc_eq_some h
  have hcarve : (carve hdr slack n b).length ≤ 2 := by
    unfold carve
    split <;> simp
  simp only [List.length_append, List.length_cons]
  omega

/-- The block that is handed out, and the rest of the carved block. -/
theorem carve_eq (hdr slack n : ℕ) {b : Block} (hle : n ≤ b.size) :
    ∃ size rest, carve hdr slack n b = ⟨b.addr, size, false⟩ :: rest ∧ n ≤ size ∧
      (size = n ∨ size = b.size) ∧ (rest = [] ∧ size = b.size ∨
        n + hdr + slack ≤ b.size ∧ size = n ∧
          rest = [⟨b.addr + hdr + n, b.size - n - hdr, true⟩]) := by
  unfold carve
  split
  · next hsplit => exact ⟨n, _, rfl, le_rfl, Or.inl rfl, Or.inr ⟨hsplit, rfl, rfl⟩⟩
  · exact ⟨b.size, [], rfl, hle, Or.inr rfl, Or.inl ⟨rfl, rfl⟩⟩

/-- Carving tiles the carved block. -/
theorem tiles_carve {a e : ℕ} {b : Block} {post : List Block} :
    Tiles hdr a (carve hdr slack n b ++ post) e ↔ Tiles hdr a (b :: post) e := by
  unfold carve
  split
  · next hsplit =>
      have hstop : b.addr + hdr + n + hdr + (b.size - n - hdr) = b.addr + hdr + b.size := by omega
      simp only [List.cons_append, List.nil_append, Tiles, Block.stop, hstop]
      tauto
  · rfl

theorem Tiles.alloc {a e p : ℕ} {bs bs' : List Block} (h : Tiles hdr a bs e)
    (halloc : alloc hdr slack n bs = some (p, bs')) : Tiles hdr a bs' e := by
  obtain ⟨pre, b, post, rfl, -, -, -, rfl⟩ := alloc_eq_some halloc
  obtain ⟨m, hpre, hpost⟩ := tiles_append.1 h
  exact tiles_append.2 ⟨m, hpre, tiles_carve.2 hpost⟩

/-- The allocated blocks after an allocation: those before it, and one at `p`. -/
theorem mem_alloc {bs bs' : List Block} {p : ℕ} (h : alloc hdr slack n bs = some (p, bs')) :
    ∃ c, n ≤ c.size ∧ c.free = false ∧ c.addr + hdr = p ∧
      (∃ b ∈ bs, b.free ∧ b.addr = c.addr) ∧
      ∀ d, d ∈ bs' ∧ d.free = false ↔ d = c ∨ d ∈ bs ∧ d.free = false := by
  obtain ⟨pre, b, post, rfl, hfree, hle, rfl, rfl⟩ := alloc_eq_some h
  obtain ⟨size, rest, hcarve, hsize, -, hrest⟩ := carve_eq hdr slack n hle
  refine ⟨⟨b.addr, size, false⟩, hsize, rfl, rfl, ⟨b, by simp, hfree, rfl⟩, fun d => ?_⟩
  have hfreerest : ∀ x ∈ rest, x.free = true := by
    rcases hrest with ⟨rfl, -⟩ | ⟨-, -, rfl⟩ <;> simp
  simp only [hcarve, List.cons_append, List.mem_append, List.mem_cons]
  constructor
  · rintro ⟨hd | rfl | hd | hd, hdf⟩
    · exact Or.inr ⟨Or.inl hd, hdf⟩
    · exact Or.inl rfl
    · exact absurd (hfreerest d hd) (by simp [hdf])
    · exact Or.inr ⟨Or.inr (Or.inr hd), hdf⟩
  · rintro (rfl | ⟨hd | rfl | hd, hdf⟩)
    · exact ⟨Or.inr (Or.inl rfl), rfl⟩
    · exact ⟨Or.inl hd, hdf⟩
    · exact absurd hfree (by simp [hdf])
    · exact ⟨Or.inr (Or.inr (Or.inr hd)), hdf⟩

/-- What holds of all sizes stays true of them if it holds of the size allocated and of what is
    split off. -/
theorem sizes_alloc {P : ℕ → Prop} (hn : P n)
    (hrest : ∀ size, P size → n + hdr + slack ≤ size → P (size - n - hdr)) {bs bs' : List Block}
    {p : ℕ} (h : alloc hdr slack n bs = some (p, bs')) (hbs : ∀ b ∈ bs, P b.size) :
    ∀ b ∈ bs', P b.size := by
  obtain ⟨pre, b, post, rfl, -, hle, -, rfl⟩ := alloc_eq_some h
  have hb := hbs b (by simp)
  obtain ⟨size, rest, hcarve, -, hsize, hcases⟩ := carve_eq hdr slack n hle
  intro c hc
  simp only [hcarve, List.cons_append, List.mem_append, List.mem_cons] at hc
  rcases hc with hc | rfl | hc | hc
  · exact hbs c (by simp [hc])
  · rcases hsize with rfl | rfl
    · exact hn
    · exact hb
  · rcases hcases with ⟨rfl, -⟩ | ⟨hsplit, -, rfl⟩
    · simp at hc
    · obtain rfl := List.mem_singleton.1 hc
      exact hrest _ hb hsplit
  · exact hbs c (by simp [hc])

/-- An allocation leaves no two neighbours free: what is split off lies behind an allocated block
    and, as the carved block was free, in front of one. -/
theorem Separated.alloc {bs bs' : List Block} {p : ℕ} (h : Separated bs)
    (halloc : alloc hdr slack n bs = some (p, bs')) : Separated bs' := by
  obtain ⟨pre, b, post, rfl, hfree, hle, -, rfl⟩ := alloc_eq_some halloc
  obtain ⟨size, rest, hcarve, -, -, hrest⟩ := carve_eq hdr slack n hle
  unfold Separated at h ⊢
  rw [hcarve]
  rw [List.isChain_append] at h ⊢
  obtain ⟨hpre, hpost, -⟩ := h
  refine ⟨hpre, ?_, by simp⟩
  rcases hrest with ⟨rfl, -⟩ | ⟨-, -, rfl⟩
  · cases post with
    | nil => simp
    | cons c post =>
        rw [List.isChain_cons_cons] at hpost
        simpa using hpost.2
  · cases post with
    | nil => simp
    | cons c post =>
        rw [List.isChain_cons_cons] at hpost
        simp only [List.cons_append, List.nil_append, List.isChain_cons_cons]
        refine ⟨by simp, ?_, hpost.2⟩
        simpa [hfree] using hpost.1

/-! ## Release -/

/-- Mark the block with the payload address `p` as free. -/
def release (hdr p : ℕ) (bs : List Block) : List Block :=
  bs.map fun b => if b.addr + hdr = p then { b with free := true } else b

theorem Tiles.release {a e p : ℕ} {bs : List Block} (h : Tiles hdr a bs e) :
    Tiles hdr a (release hdr p bs) e := by
  induction bs generalizing a with
  | nil => exact h
  | cons b bs ih =>
      obtain ⟨rfl, hrest⟩ := h
      rw [FirstFit.release, List.map_cons]
      split
      · exact ⟨rfl, ih hrest⟩
      · exact ⟨rfl, ih hrest⟩

/-- The allocated blocks after a release: all but the one released. -/
theorem mem_release {p : ℕ} {bs : List Block} {b : Block} :
    b ∈ release hdr p bs ∧ b.free = false ↔ b ∈ bs ∧ b.free = false ∧ b.addr + hdr ≠ p := by
  simp only [release, List.mem_map]
  constructor
  · rintro ⟨⟨c, hc, rfl⟩, hfree⟩
    by_cases hp : c.addr + hdr = p
    · rw [if_pos hp] at hfree
      simp at hfree
    · rw [if_neg hp] at hfree ⊢
      exact ⟨hc, hfree, hp⟩
  · rintro ⟨hb, hfree, hp⟩
    exact ⟨⟨b, hb, if_neg hp⟩, hfree⟩

theorem sizes_release {p : ℕ} {P : ℕ → Prop} {bs : List Block} (hbs : ∀ b ∈ bs, P b.size) :
    ∀ b ∈ release hdr p bs, P b.size := by
  intro b hb
  obtain ⟨c, hc, rfl⟩ := List.mem_map.1 hb
  split <;> exact hbs c hc

/-! ## Coalescing -/

/-- One pass that merges every free block with the free blocks right behind it. -/
def coalesce (hdr : ℕ) : List Block → List Block
  | [] => []
  | [b] => [b]
  | b :: c :: bs =>
      if b.free ∧ c.free then coalesce hdr ({ b with size := b.size + (hdr + c.size) } :: bs)
      else b :: coalesce hdr (c :: bs)
termination_by bs => bs.length

theorem Tiles.coalesce {a e : ℕ} {bs : List Block} (h : Tiles hdr a bs e) :
    Tiles hdr a (coalesce hdr bs) e := by
  induction bs using coalesce.induct hdr generalizing a with
  | case1 => rwa [FirstFit.coalesce]
  | case2 b => rwa [FirstFit.coalesce]
  | case3 b c bs hfree ih =>
      rw [FirstFit.coalesce, if_pos hfree]
      obtain ⟨rfl, hc, hrest⟩ := h
      refine ih ⟨rfl, ?_⟩
      have hstop : ({ b with size := b.size + (hdr + c.size) } : Block).stop hdr = c.stop hdr := by
        simp only [Block.stop] at hc ⊢
        omega
      rwa [hstop]
  | case4 b c bs hfree ih =>
      rw [FirstFit.coalesce, if_neg hfree]
      exact ⟨h.1, ih h.2⟩

/-- The first block keeps its address, so the predecessor still points to it. -/
theorem coalesce_head {b : Block} {bs : List Block} :
    ∃ c cs, coalesce hdr (b :: bs) = c :: cs ∧ c.addr = b.addr ∧ c.free = b.free := by
  generalize hl : b :: bs = l
  induction l using coalesce.induct hdr generalizing b bs with
  | case1 => simp at hl
  | case2 d =>
      obtain ⟨rfl, -⟩ := List.cons.inj hl
      exact ⟨b, [], by rw [coalesce], rfl, rfl⟩
  | case3 d c cs hfree ih =>
      obtain ⟨rfl, -⟩ := List.cons.inj hl
      rw [coalesce, if_pos hfree]
      exact ih (b := { b with size := b.size + (hdr + c.size) }) rfl
  | case4 d c cs hfree ih =>
      obtain ⟨rfl, -⟩ := List.cons.inj hl
      exact ⟨b, _, by rw [coalesce, if_neg hfree], rfl, rfl⟩

/-- One pass suffices: no two neighbours are free afterwards. -/
theorem separated_coalesce (bs : List Block) : Separated (coalesce hdr bs) := by
  induction bs using coalesce.induct hdr with
  | case1 => simp [coalesce, Separated]
  | case2 b => simp [coalesce, Separated]
  | case3 b c bs hfree ih => rwa [coalesce, if_pos hfree]
  | case4 b c bs hfree ih =>
      rw [coalesce, if_neg hfree]
      obtain ⟨d, ds, hd, -, hdfree⟩ : ∃ d ds, coalesce hdr (c :: bs) = d :: ds ∧
          d.addr = c.addr ∧ d.free = c.free := coalesce_head
      unfold Separated at ih ⊢
      rw [hd] at ih ⊢
      rw [List.isChain_cons_cons]
      exact ⟨by rwa [hdfree], ih⟩

/-- Coalescing only touches free blocks. -/
theorem mem_coalesce {bs : List Block} {d : Block} :
    d ∈ coalesce hdr bs ∧ d.free = false ↔ d ∈ bs ∧ d.free = false := by
  induction bs using coalesce.induct hdr with
  | case1 => rw [coalesce]
  | case2 b => rw [coalesce]
  | case3 b c bs hfree ih =>
      rw [coalesce, if_pos hfree, ih]
      simp only [List.mem_cons]
      constructor
      · rintro ⟨rfl | hd, hdf⟩
        · simp [hfree.1] at hdf
        · exact ⟨Or.inr (Or.inr hd), hdf⟩
      · rintro ⟨rfl | rfl | hd, hdf⟩
        · simp [hfree.1] at hdf
        · simp [hfree.2] at hdf
        · exact ⟨Or.inr hd, hdf⟩
  | case4 b c bs hfree ih =>
      rw [coalesce, if_neg hfree, List.mem_cons, List.mem_cons, or_and_right, or_and_right, ih]

theorem sizes_coalesce {P : ℕ → Prop} (hmerge : ∀ s t, P s → P t → P (s + (hdr + t)))
    {bs : List Block} (hbs : ∀ b ∈ bs, P b.size) : ∀ b ∈ coalesce hdr bs, P b.size := by
  induction bs using coalesce.induct hdr with
  | case1 => rwa [coalesce]
  | case2 b => rwa [coalesce]
  | case3 b c bs hfree ih =>
      rw [coalesce, if_pos hfree]
      refine ih fun d hd => ?_
      rcases List.mem_cons.1 hd with rfl | hd
      · exact hmerge _ _ (hbs b (by simp)) (hbs c (by simp))
      · exact hbs d (by simp [hd])
  | case4 b c bs hfree ih =>
      rw [coalesce, if_neg hfree]
      intro d hd
      rcases List.mem_cons.1 hd with rfl | hd
      · exact hbs d (by simp)
      · exact ih (fun x hx => hbs x (List.mem_cons_of_mem _ hx)) d hd

/-- A tiling without allocated blocks and without free neighbours is a single free block. -/
theorem Tiles.eq_singleton {a e : ℕ} {bs : List Block} (h : Tiles hdr a bs e) (hae : a ≠ e)
    (hsep : Separated bs) (hfree : ∀ b ∈ bs, b.free = true) :
    bs = [⟨a, e - a - hdr, true⟩] := by
  rcases bs with _ | ⟨b, _ | ⟨c, bs⟩⟩
  · exact absurd h hae
  · obtain ⟨rfl, rfl⟩ := h
    have hb := hfree b (by simp)
    obtain ⟨addr, size, free⟩ := b
    simp only at hb
    subst hb
    simp only [Block.stop, List.cons.injEq, Block.mk.injEq, and_true, true_and]
    omega
  · unfold Separated at hsep
    rw [List.isChain_cons_cons] at hsep
    exact absurd ⟨hfree b (by simp), hfree c (by simp)⟩ hsep.1

end FirstFit
