import BlackHole.Kernel.Task

set_option autoImplicit false

/-! # The context switch

What a call of `switch_task` does: it leaves a frame of five words on the old stack, stores the
stack pointer below it in the old task, and loads the registers from the frame the new stack
pointer points to (`callSwitchTask_spec`). -/

namespace BlackHole

open Bytes

/-! ## Words and 32-bit addresses -/

theorem toNat_sub_four {x : UInt32} (h : 4 ≤ x.toNat) : (x - 4).toNat = x.toNat - 4 :=
  UInt32.toNat_sub_of_le x 4 (UInt32.le_iff_toNat_le.2 h)

theorem toNat_add_of_lt {x k : UInt32} (h : x.toNat + k.toNat < 4294967296) :
    (x + k).toNat = x.toNat + k.toNat := by
  rw [UInt32.toNat_add]
  exact Nat.mod_eq_of_lt h

theorem toNat_loadWord (m : Mem) (a : UInt32) : (loadWord m a).toNat = le32 m a.toNat :=
  Nat.mod_eq_of_lt (le32_lt m a.toNat)

/-- A word that was stored is read back. -/
theorem le32_storeWord (m : Mem) (a v : UInt32) : le32 (storeWord m a v) a.toNat = v.toNat := by
  rw [storeWord, le32_put32]
  exact Nat.mod_eq_of_lt v.toNat_lt

/-! ## Frames -/

/-- The registers a task goes on with. -/
structure Context where
  edi : UInt32
  esi : UInt32
  ebx : UInt32
  ebp : UInt32
  eip : UInt32
  esp : UInt32

/-- The context a machine is in. -/
def Machine.context (s : Machine) : Context := ⟨s.edi, s.esi, s.ebx, s.ebp, s.eip, s.esp⟩

/-- The frame at `v`: what `switch_task` pops to go on in the context. -/
structure FrameAt (m : Mem) (v : ℕ) (c : Context) : Prop where
  edi : le32 m v = c.edi.toNat
  esi : le32 m (v + 4) = c.esi.toNat
  ebx : le32 m (v + 8) = c.ebx.toNat
  ebp : le32 m (v + 12) = c.ebp.toNat
  eip : le32 m (v + 16) = c.eip.toNat
  esp : v + 20 = c.esp.toNat

theorem FrameAt.congr {m m' : Mem} {v : ℕ} {c : Context} (h : FrameAt m v c)
    (hm : ∀ x, v ≤ x → x < v + 20 → m' x = m x) : FrameAt m' v c := by
  have hword : ∀ k, k ≤ 16 → le32 m' (v + k) = le32 m (v + k) := fun k hk =>
    le32_congr fun j hj => hm _ (by omega) (by omega)
  exact ⟨(hword 0 (by omega)).trans h.edi, (hword 4 (by omega)).trans h.esi,
    (hword 8 (by omega)).trans h.ebx, (hword 12 (by omega)).trans h.ebp,
    (hword 16 (by omega)).trans h.eip, h.esp⟩

/-! ## The two halves of `switch_task` -/

/-- The first half: four registers are pushed on the old stack. -/
def pushRegisters (s : Machine) : Machine :=
  let s := s.push s.ebp
  let s := s.push s.ebx
  let s := s.push s.esi
  s.push s.edi

/-- The second half: the four registers and the return address are popped from the new stack. -/
def popRegisters (s : Machine) : Machine :=
  let p := s.pop
  let s := { p.2 with edi := p.1 }
  let p := s.pop
  let s := { p.2 with esi := p.1 }
  let p := s.pop
  let s := { p.2 with ebx := p.1 }
  let p := s.pop
  let s := { p.2 with ebp := p.1 }
  let p := s.pop
  { p.2 with eip := p.1 }

theorem switchTask_eq (s : Machine) :
    switchTask s =
      let s := pushRegisters s
      let s := { s with eax := loadWord s.mem (s.esp + 20) }
      let s := { s with mem := storeWord s.mem s.eax s.esp }
      popRegisters { s with esp := loadWord s.mem (s.esp + 24) } :=
  rfl

/-- Popping a frame goes on in its context. -/
theorem popRegisters_context {s : Machine} {c : Context} (h : FrameAt s.mem s.esp.toNat c) :
    (popRegisters s).context = c ∧ (popRegisters s).mem = s.mem := by
  obtain ⟨hedi, hesi, hebx, hebp, heip, hesp⟩ := h
  have hlt := c.esp.toNat_lt
  have h4 : (s.esp + 4).toNat = s.esp.toNat + 4 := toNat_add_of_lt (by simp; omega)
  have h8 : (s.esp + 4 + 4).toNat = s.esp.toNat + 8 := by
    rw [toNat_add_of_lt (by simp [h4]; omega), h4]
    rfl
  have h12 : (s.esp + 4 + 4 + 4).toNat = s.esp.toNat + 12 := by
    rw [toNat_add_of_lt (by simp [h8]; omega), h8]
    rfl
  have h16 : (s.esp + 4 + 4 + 4 + 4).toNat = s.esp.toNat + 16 := by
    rw [toNat_add_of_lt (by simp [h12]; omega), h12]
    rfl
  have h20 : (s.esp + 4 + 4 + 4 + 4 + 4).toNat = s.esp.toNat + 20 := by
    rw [toNat_add_of_lt (by simp [h16]; omega), h16]
    rfl
  have hword : ∀ {a r : UInt32} {k : ℕ}, a.toNat = s.esp.toNat + k →
      le32 s.mem (s.esp.toNat + k) = r.toNat → loadWord s.mem a = r := by
    intro a r k ha hr
    rw [← UInt32.toNat_inj, toNat_loadWord, ha, hr]
  obtain ⟨edi, esi, ebx, ebp, eip, esp⟩ := c
  refine ⟨?_, rfl⟩
  simp only [popRegisters, Machine.pop, Machine.context, Context.mk.injEq]
  exact ⟨hword (k := 0) rfl hedi, hword h4 hesi, hword h8 hebx, hword h12 hebp, hword h16 heip,
    UInt32.toNat_inj.1 (h20.trans hesp)⟩

/-- Pushing the return address and the registers leaves a frame below the stack pointer of the call,
    and changes nothing else. -/
theorem pushRegisters_frame {s : Machine} {v : ℕ} (ret : UInt32) (hesp : s.esp.toNat = v + 20) :
    (pushRegisters (s.push ret)).esp.toNat = v ∧
    FrameAt (pushRegisters (s.push ret)).mem v { s.context with eip := ret } ∧
    ∀ x, x < v ∨ v + 20 ≤ x → (pushRegisters (s.push ret)).mem x = s.mem x := by
  have h4 : (s.esp - 4).toNat = v + 16 := by
    rw [toNat_sub_four (by omega), hesp]
    omega
  have h8 : (s.esp - 4 - 4).toNat = v + 12 := by
    rw [toNat_sub_four (by omega), h4]
    omega
  have h12 : (s.esp - 4 - 4 - 4).toNat = v + 8 := by
    rw [toNat_sub_four (by omega), h8]
    omega
  have h16 : (s.esp - 4 - 4 - 4 - 4).toNat = v + 4 := by
    rw [toNat_sub_four (by omega), h12]
    omega
  have h20 : (s.esp - 4 - 4 - 4 - 4 - 4).toNat = v := by
    rw [toNat_sub_four (by omega), h16]
    omega
  have hword : ∀ r : UInt32, r.toNat % 4294967296 = r.toNat := fun r => Nat.mod_eq_of_lt r.toNat_lt
  simp only [pushRegisters, Machine.push, storeWord, h4, h8, h12, h16, h20]
  refine ⟨trivial, ⟨?_, ?_, ?_, ?_, ?_, hesp.symm⟩, fun x hx => ?_⟩
  · rw [le32_put32, hword]
    rfl
  · rw [le32_put32_of_disjoint _ _ (by omega), le32_put32, hword]
    rfl
  · rw [le32_put32_of_disjoint _ _ (by omega), le32_put32_of_disjoint _ _ (by omega), le32_put32,
      hword]
    rfl
  · rw [le32_put32_of_disjoint _ _ (by omega), le32_put32_of_disjoint _ _ (by omega),
      le32_put32_of_disjoint _ _ (by omega), le32_put32, hword]
    rfl
  · rw [le32_put32_of_disjoint _ _ (by omega), le32_put32_of_disjoint _ _ (by omega),
      le32_put32_of_disjoint _ _ (by omega), le32_put32_of_disjoint _ _ (by omega), le32_put32,
      hword]
  · simp (disch := omega) only [put32_of_outside]

/-- A call of `switch_task`: below the stack pointer of the call there is a frame to come back to,
    the old task's `esp` points to it, and the machine goes on in the context of the frame the new
    stack pointer points to. The arguments are read where the four pushes have left them. -/
theorem callSwitchTask_spec {s : Machine} {v oldEsp newEsp : ℕ} (ret : UInt32)
    (hesp : s.esp.toNat = v + 20) (hlt : v + 28 ≤ 4294967296) (hold : le32 s.mem (v + 20) = oldEsp)
    (hnew : le32 s.mem (v + 24) = newEsp) (hapart : oldEsp + 4 ≤ v ∨ v + 28 ≤ oldEsp) :
    ∃ m', FrameAt m' v { s.context with eip := ret } ∧ le32 m' oldEsp = v ∧
      (∀ x, x < v ∨ v + 20 ≤ x → x < oldEsp ∨ oldEsp + 4 ≤ x → m' x = s.mem x) ∧
      (callSwitchTask ret s).mem = m' ∧
      ∀ c, FrameAt m' newEsp c → (callSwitchTask ret s).context = c := by
  obtain ⟨hp, hframe, hkeep⟩ := pushRegisters_frame ret hesp
  generalize hs' : pushRegisters (s.push ret) = s' at hp hframe hkeep
  have h20 : (20 : UInt32).toNat = 20 := rfl
  have h24 : (24 : UInt32).toNat = 24 := rfl
  have hptr : (loadWord s'.mem (s'.esp + 20)).toNat = oldEsp := by
    rw [toNat_loadWord, toNat_add_of_lt (by omega), hp, h20, ← hold]
    exact le32_congr fun j hj => hkeep _ (by omega)
  generalize hm : storeWord s'.mem (loadWord s'.mem (s'.esp + 20)) s'.esp = m'
  have hout : ∀ x, x < oldEsp ∨ oldEsp + 4 ≤ x → m' x = s'.mem x := by
    intro x hx
    rw [← hm, storeWord, hptr]
    exact put32_of_outside _ _ hx
  have hpop : callSwitchTask ret s
      = popRegisters { s' with
          eax := loadWord s'.mem (s'.esp + 20), mem := m', esp := loadWord m' (s'.esp + 24) } := by
    rw [callSwitchTask, switchTask_eq, hs', ← hm]
  have hload : (loadWord m' (s'.esp + 24)).toNat = newEsp := by
    rw [toNat_loadWord, toNat_add_of_lt (by omega), hp, h24, ← hnew]
    exact le32_congr fun j hj => (hout _ (by omega)).trans (hkeep _ (by omega))
  refine ⟨m', hframe.congr fun x hx hx' => hout x (by omega), ?_, fun x hx hx' => ?_, ?_,
    fun c hc => ?_⟩
  · rw [← hm, ← hptr, le32_storeWord, hp]
  · rw [hout x hx', hkeep x hx]
  · rw [hpop]
    rfl
  · rw [hpop]
    exact (popRegisters_context (by rwa [hload])).1

end BlackHole
