import BlackHole.CTypes
import BlackHole.Kernel.Memory
import BlackHole.Lib.X86

set_option autoImplicit false

/-! # Paging

`kernel/paging.c`: one page directory, whose first entry points to one page table that maps the first
4 MB to themselves. Both tables lie in static arrays of 8192 bytes, at the first page boundary. -/

namespace BlackHole

open Bytes

/-- `(raw + 4095) & ~4095` -/
def alignPage (raw : ℕ) : ℕ := u32 (raw + 4095) / 4096 * 4096

/-- The loops that fill a table of 1024 words. -/
def fillTable (m : Mem) (table : ℕ) (entry : ℕ → ℕ) : Mem :=
  (List.range 1024).foldl (fun m i => put32 m (table + 4 * i) (entry i)) m

/-- `paging_init`: the memory and the value loaded into CR3. The arguments are the addresses of the
    two arrays. -/
def pagingInit (pageDirectoryRaw firstPageTableRaw : ℕ) (m : Mem) : Mem × ℕ :=
  let pageDirectory := alignPage pageDirectoryRaw
  let firstPageTable := alignPage firstPageTableRaw
  let m := fillTable m pageDirectory fun _ => 0x00000002
  let m := fillTable m firstPageTable fun i => (i * 4096) ||| 3
  let m := put32 m pageDirectory (firstPageTable ||| 3)
  (m, pageDirectory)

/-! ## The tables -/

theorem alignPage_range {raw : ℕ} (h : raw + 8192 ≤ 4294967296) :
    raw ≤ alignPage raw ∧ alignPage raw + 4096 ≤ raw + 8192 ∧ alignPage raw % 4096 = 0 := by
  unfold alignPage
  rw [u32_of_lt (by omega)]
  omega

theorem page_or_three {a : ℕ} (h : a % 4096 = 0) : a ||| 3 = a + 3 := by
  obtain ⟨k, rfl⟩ : ∃ k, a = k <<< 12 := ⟨a / 4096, by rw [Nat.shiftLeft_eq]; omega⟩
  rw [Nat.shiftLeft_add_eq_or_of_lt (by decide)]

/-- The filled table, and the memory around it. -/
theorem fillTable_spec (m : Mem) (table : ℕ) (entry : ℕ → ℕ) :
    (∀ i < 1024, le32 (fillTable m table entry) (table + 4 * i) = entry i % 4294967296)
      ∧ ∀ k, k < table ∨ table + 4096 ≤ k → fillTable m table entry k = m k := by
  have hloop := Loop.foldl_range_invariant (n := 1024) (s := m)
    (f := fun m i => put32 m (table + 4 * i) (entry i))
    (fun n m' => (∀ i < n, le32 m' (table + 4 * i) = entry i % 4294967296)
      ∧ ∀ k, k < table ∨ table + 4 * n ≤ k → m' k = m k) ?_ ?_
  · exact hloop
  · exact ⟨fun i hi => absurd hi (by omega), fun _ _ => rfl⟩
  · rintro n m' hn ⟨hentries, houtside⟩
    refine ⟨fun i hi => ?_, fun k hk => ?_⟩
    · rcases Nat.lt_or_eq_of_le (Nat.lt_succ_iff.1 hi) with hlt | rfl
      · rw [le32_put32_of_disjoint _ _ (by omega), hentries i hlt]
      · rw [le32_put32]
    · rw [put32_of_outside _ _ (by omega)]
      exact houtside k (by omega)

variable {directoryRaw tableRaw : ℕ}

/-- The entries that `paging_init` leaves in the two tables. -/
theorem pagingInit_tables (m : Mem) (hd : directoryRaw + 8192 ≤ 4294967296)
    (ht : tableRaw + 8192 ≤ 4294967296)
    (hapart : directoryRaw + 8192 ≤ tableRaw ∨ tableRaw + 8192 ≤ directoryRaw) :
    (∀ i < 1024, le32 (pagingInit directoryRaw tableRaw m).1 (alignPage directoryRaw + 4 * i)
        = if i = 0 then alignPage tableRaw + 3 else 2)
      ∧ ∀ i < 1024, le32 (pagingInit directoryRaw tableRaw m).1 (alignPage tableRaw + 4 * i)
        = i * 4096 + 3 := by
  have hdir := alignPage_range hd
  have htab := alignPage_range ht
  unfold pagingInit
  simp only []
  set m1 := fillTable m (alignPage directoryRaw) fun _ => 0x00000002 with hm1
  set m2 := fillTable m1 (alignPage tableRaw) fun i => (i * 4096) ||| 3 with hm2
  obtain ⟨hentries1, -⟩ := fillTable_spec m (alignPage directoryRaw) fun _ => 0x00000002
  obtain ⟨hentries2, houtside2⟩ := fillTable_spec m1 (alignPage tableRaw) fun i => (i * 4096) ||| 3
  refine ⟨fun i hi => ?_, fun i hi => ?_⟩
  · by_cases h0 : i = 0
    · rw [if_pos h0, h0, Nat.mul_zero, Nat.add_zero, le32_put32, page_or_three htab.2.2]
      omega
    · rw [if_neg h0, le32_put32_of_disjoint _ _ (by omega)]
      have hkeep : le32 m2 (alignPage directoryRaw + 4 * i)
          = le32 m1 (alignPage directoryRaw + 4 * i) :=
        le32_congr fun k hk => houtside2 _ (by omega)
      rw [hkeep, hentries1 i hi]
  · rw [le32_put32_of_disjoint _ _ (by omega), hentries2 i hi, page_or_three (by omega)]
    omega

/-! ## The walk -/

/-- A directory whose first entry points to a table of the first 4 MB, and whose other entries are not
    present. -/
structure IdentityTables (read32 : ℕ → ℕ) (directory table : ℕ) : Prop where
  directory_aligned : directory % 4096 = 0
  table_aligned : table % 4096 = 0
  directory_entry : ∀ i < 1024, read32 (directory + 4 * i) = if i = 0 then table + 3 else 2
  table_entry : ∀ i < 1024, read32 (table + 4 * i) = i * 4096 + 3

section

variable {read32 : ℕ → ℕ} {directory table v : ℕ}

theorem IdentityTables.pde_eq (h : IdentityTables read32 directory table) (v : ℕ) :
    X86.pde read32 directory v = if v / 4194304 % 1024 = 0 then table + 3 else 2 := by
  rw [X86.pde_of_aligned h.directory_aligned]
  exact h.directory_entry _ (Nat.mod_lt _ (by decide))

theorem IdentityTables.pde_eq_of_lt (h : IdentityTables read32 directory table)
    (hv : v < 4194304) : X86.pde read32 directory v = table + 3 := by
  rw [h.pde_eq, if_pos (by omega)]

/-- Below 4 MB the bits 12 to 21 of an address number its page. -/
theorem IdentityTables.pte_eq_of_lt (h : IdentityTables read32 directory table)
    (hv : v < 4194304) : X86.pte read32 directory v = v / 4096 * 4096 + 3 := by
  rw [X86.pte_of_pde (h.pde_eq_of_lt hv) h.table_aligned (by decide),
    h.table_entry _ (Nat.mod_lt _ (by decide)), Nat.mod_eq_of_lt (by omega)]

theorem IdentityTables.walk_eq_some (h : IdentityTables read32 directory table)
    (hv : v < 4194304) : X86.walk read32 directory v = some v := by
  have htable := h.table_aligned
  have hpde := h.pde_eq_of_lt hv
  have hpte := h.pte_eq_of_lt hv
  rw [X86.walk_eq_some, hpte]
  · congr 1
    omega
  · rw [hpde]
    exact decide_eq_true (by omega)
  · rw [hpte]
    exact decide_eq_true (by omega)

theorem IdentityTables.writable (h : IdentityTables read32 directory table)
    (hv : v < 4194304) : X86.writable read32 directory v = true := by
  have htable := h.table_aligned
  have hpde : X86.rwBit (X86.pde read32 directory v) = true := by
    rw [h.pde_eq_of_lt hv]
    exact decide_eq_true (by omega)
  have hpte : X86.rwBit (X86.pte read32 directory v) = true := by
    rw [h.pte_eq_of_lt hv]
    exact decide_eq_true (by omega)
  unfold X86.writable
  rw [h.walk_eq_some hv, hpde, hpte]
  rfl

theorem IdentityTables.walk_eq_none (h : IdentityTables read32 directory table)
    (hv : v / 4194304 % 1024 ≠ 0) : X86.walk read32 directory v = none := by
  rw [X86.walk_eq_none_of_pde]
  rw [h.pde_eq, if_neg hv]
  rfl

end

theorem pagingInit_identityTables (m : Mem) (hd : directoryRaw + 8192 ≤ 4294967296)
    (ht : tableRaw + 8192 ≤ 4294967296)
    (hapart : directoryRaw + 8192 ≤ tableRaw ∨ tableRaw + 8192 ≤ directoryRaw) :
    IdentityTables (le32 (pagingInit directoryRaw tableRaw m).1) (alignPage directoryRaw)
      (alignPage tableRaw) := by
  obtain ⟨hdirectory, htable⟩ := pagingInit_tables m hd ht hapart
  exact ⟨(alignPage_range hd).2.2, (alignPage_range ht).2.2, hdirectory, htable⟩

/-- Wherever the linker puts the two arrays below 4 GB, one apart from the other, both tables are aligned
    and lie in their arrays, and the translation over them is the identity on the first 4 MB, writable,
    and maps nothing else. -/
theorem pagingInit_translation (m : Mem) (hd : directoryRaw + 8192 ≤ 4294967296)
    (ht : tableRaw + 8192 ≤ 4294967296)
    (hapart : directoryRaw + 8192 ≤ tableRaw ∨ tableRaw + 8192 ≤ directoryRaw) :
    let m' := (pagingInit directoryRaw tableRaw m).1
    let cr3 := (pagingInit directoryRaw tableRaw m).2
    let table := X86.pde (le32 m') cr3 0 / 4096 * 4096
    cr3 % 4096 = 0 ∧ directoryRaw ≤ cr3 ∧ cr3 + 4096 ≤ directoryRaw + 8192 ∧
    table % 4096 = 0 ∧ tableRaw ≤ table ∧ table + 4096 ≤ tableRaw + 8192 ∧
    (∀ v < 0x400000, X86.walk (le32 m') cr3 v = some v ∧ X86.writable (le32 m') cr3 v = true) ∧
    ∀ v < 4294967296, 0x400000 ≤ v → X86.walk (le32 m') cr3 v = none := by
  have hdir := alignPage_range hd
  have htab := alignPage_range ht
  have htables := pagingInit_identityTables m hd ht hapart
  intro m' cr3 table
  have hcr3 : cr3 = alignPage directoryRaw := rfl
  have htable : table = alignPage tableRaw := by
    show X86.pde (le32 m') (alignPage directoryRaw) 0 / 4096 * 4096 = alignPage tableRaw
    rw [htables.pde_eq_of_lt (by decide)]
    omega
  rw [hcr3, htable]
  refine ⟨hdir.2.2, hdir.1, hdir.2.1, htab.2.2, htab.1, htab.2.1, fun v hv => ?_,
    fun v hv hhigh => ?_⟩
  · exact ⟨htables.walk_eq_some hv, htables.writable hv⟩
  · exact htables.walk_eq_none (by omega)

/-- Arrays that begin in the middle of a page. -/
theorem pagingInit_translation_unaligned :
    let m' := (pagingInit 0x8010 0xA010 fun _ => 0).1
    let cr3 := (pagingInit 0x8010 0xA010 fun _ => 0).2
    let table := X86.pde (le32 m') cr3 0 / 4096 * 4096
    cr3 % 4096 = 0 ∧ 0x8010 ≤ cr3 ∧ cr3 + 4096 ≤ 0x8010 + 8192 ∧
    table % 4096 = 0 ∧ 0xA010 ≤ table ∧ table + 4096 ≤ 0xA010 + 8192 ∧
    (∀ v < 0x400000, X86.walk (le32 m') cr3 v = some v ∧ X86.writable (le32 m') cr3 v = true) ∧
    ∀ v < 4294967296, 0x400000 ≤ v → X86.walk (le32 m') cr3 v = none :=
  pagingInit_translation (fun _ => 0) (by decide) (by decide) (by decide)

end BlackHole
