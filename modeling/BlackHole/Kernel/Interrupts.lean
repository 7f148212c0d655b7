import BlackHole.Kernel.Switch
import BlackHole.Lib.Machine
import BlackHole.Lib.Stack

set_option autoImplicit false

/-! # The interrupt stubs

`isr_stub.S` instruction by instruction, between the gate and the `iret`. The handlers are compiled C
code, of which the stubs need what the calling convention promises (`Cdecl`). A program does not notice
its interrupts, and the kernel gets its system calls with their arguments (`interrupts_invisible`). -/

namespace BlackHole

open Bytes

/-! ## The processor -/

/-- The general registers. -/
structure Registers where
  eax : UInt32
  ecx : UInt32
  edx : UInt32
  ebx : UInt32
  ebp : UInt32
  esi : UInt32
  edi : UInt32

/-- The registers, the stack pointer that the TSS holds for level 0, and the memory. -/
structure Cpu extends Registers where
  esp : UInt32
  eip : UInt32
  eflags : UInt32
  cs : UInt32
  ss : UInt32
  esp0 : UInt32
  mem : Mem

namespace Cpu

/-- The current privilege level. -/
def cpl (s : Cpu) : ℕ := s.cs.toNat % 4

/-- IF -/
def intr (s : Cpu) : Bool := s.eflags &&& 0x200 ≠ 0

def push (s : Cpu) (v : UInt32) : Cpu :=
  { s with esp := s.esp - 4, mem := storeWord s.mem (s.esp - 4) v }

/-- The word on top of the stack, and the processor without it. -/
def pop (s : Cpu) : UInt32 × Cpu := (loadWord s.mem s.esp, { s with esp := s.esp + 4 })

/-- `pusha`; the fifth word is the stack pointer from before. -/
def pusha (s : Cpu) : Cpu :=
  let temp := s.esp
  let s := s.push s.eax
  let s := s.push s.ecx
  let s := s.push s.edx
  let s := s.push s.ebx
  let s := s.push temp
  let s := s.push s.ebp
  let s := s.push s.esi
  s.push s.edi

/-- `popa`; the word for the stack pointer is skipped. -/
def popa (s : Cpu) : Cpu :=
  let p := s.pop
  let s := { p.2 with edi := p.1 }
  let p := s.pop
  let s := { p.2 with esi := p.1 }
  let p := s.pop
  let s := { p.2 with ebp := p.1 }
  let s := s.pop.2
  let p := s.pop
  let s := { p.2 with ebx := p.1 }
  let p := s.pop
  let s := { p.2 with edx := p.1 }
  let p := s.pop
  let s := { p.2 with ecx := p.1 }
  let p := s.pop
  { p.2 with eax := p.1 }

def cli (s : Cpu) : Cpu := { s with eflags := s.eflags &&& 0xFFFFFDFF }

def sti (s : Cpu) : Cpu := { s with eflags := s.eflags ||| 0x200 }

/-- An interrupt through a gate of the kernel: from an outer level it goes over to the stack of the
    TSS, and clears TF, IF, NT, RF and VM behind the frame. -/
def interrupt (s : Cpu) (handler : UInt32) : Cpu :=
  let t := if s.cpl = 0 then s else ({ s with esp := s.esp0, ss := 0x10 }.push s.ss).push s.esp
  let t := t.push s.eflags
  let t := t.push s.cs
  let t := t.push s.eip
  { t with eip := handler, cs := 0x08, eflags := s.eflags &&& 0xFFFCBCFF }

/-- `iret` at level 0; to an outer level it goes back to the stack there. -/
def iret (s : Cpu) : Cpu :=
  let p := s.pop
  let s := { p.2 with eip := p.1 }
  let p := s.pop
  let s := { p.2 with cs := p.1 }
  let p := s.pop
  let s : Cpu := { p.2 with eflags := p.1 }
  if s.cpl = 0 then s
  else
    let esp := s.pop
    let ss := esp.2.pop
    { ss.2 with esp := esp.1, ss := ss.1 }

end Cpu

/-! ## The stubs -/

/-- `_isr_irq0` and `_isr_irq1`: `pusha`, the call of the handler that is to return to `ret`, `popa`,
    `iret`. -/
def isrIrq (irqHandler : Cpu → Cpu) (ret : UInt32) (s : Cpu) : Cpu :=
  let s := s.pusha
  let s := irqHandler (s.push ret)
  let s := s.popa
  s.iret

/-- `_isr_128` up to the first instruction of `isr128_handler`. -/
def isr128Call (ret : UInt32) (s : Cpu) : Cpu :=
  let s := s.cli
  let s := s.pusha
  let s := s.push s.ecx
  let s := s.push s.ebx
  let s := s.push s.eax
  s.push ret

/-- `_isr_128` -/
def isr128 (isr128Handler : Cpu → Cpu) (ret : UInt32) (s : Cpu) : Cpu :=
  let s := isr128Handler (isr128Call ret s)
  let s := { s with esp := s.esp + 12 }
  let s := s.popa
  let s := s.sti
  s.iret

/-- The arguments that C code finds above its return address. -/
def Cpu.args (s : Cpu) : UInt32 × UInt32 × UInt32 :=
  (loadWord s.mem (s.esp + 4), loadWord s.mem (s.esp + 8), loadWord s.mem (s.esp + 12))

/-- What a compiled C function with `n` words of arguments promises, if there are `depth` bytes of
    stack above `lo`: it returns with the registers its caller keeps, and writes to `own` and to the
    stack up to its arguments only. -/
structure Cdecl (own : ℕ → Prop) (lo depth n : ℕ) (f : Cpu → Cpu) : Prop where
  esp : ∀ s, lo + depth ≤ s.esp.toNat → (f s).esp = s.esp + 4
  saved : ∀ s, lo + depth ≤ s.esp.toNat →
    (f s).ebx = s.ebx ∧ (f s).ebp = s.ebp ∧ (f s).esi = s.esi ∧ (f s).edi = s.edi
  system : ∀ s, lo + depth ≤ s.esp.toNat →
    (f s).cs = s.cs ∧ (f s).ss = s.ss ∧ (f s).esp0 = s.esp0
  mem : ∀ s, lo + depth ≤ s.esp.toNat → ∀ x, ¬ own x →
    x < lo ∨ s.esp.toNat + 4 + 4 * n ≤ x → (f s).mem x = s.mem x

/-! ## The stack of an interrupt -/

/-- The words are on the stack of `t` below `top`, and memory is as in `m` outside `own` and the stack
    from `lo` to `top`. -/
structure Stacked (own : ℕ → Prop) (lo top : ℕ) (m : Mem) (t : Cpu) (ws : List UInt32) : Prop where
  esp : t.esp.toNat + 4 * ws.length = top
  words : WordsAt t.mem t.esp.toNat ws
  mem : ∀ x, ¬ own x → x < lo ∨ top ≤ x → t.mem x = m x

section

variable {own : ℕ → Prop} {lo top : ℕ} {m : Mem} {t : Cpu} {w : UInt32} {ws : List UInt32}

theorem Stacked.push (h : Stacked own lo top m t ws) (hlo : lo + 4 * (ws.length + 1) ≤ top)
    (w : UInt32) : Stacked own lo top m (t.push w) (w :: ws) := by
  obtain ⟨hesp, hwords, hmem⟩ := h
  have hsub : (t.esp - 4).toNat = t.esp.toNat - 4 := toNat_sub_four (by omega)
  have hadd : t.esp.toNat - 4 + 4 = t.esp.toNat := by omega
  refine ⟨?_, ?_, fun x hx hout => ?_⟩
  · show (t.esp - 4).toNat + 4 * (w :: ws).length = top
    rw [hsub, List.length_cons]
    omega
  · show WordsAt (storeWord t.mem (t.esp - 4) w) (t.esp - 4).toNat (w :: ws)
    rw [storeWord, hsub]
    exact WordsAt.put32 (by rwa [hadd]) w
  · show put32 t.mem (t.esp - 4).toNat w.toNat x = m x
    rw [put32_of_outside _ _ (by omega)]
    exact hmem x hx hout

theorem Stacked.pop (h : Stacked own lo top m t (w :: ws)) (htop : top < 4294967296) :
    t.pop = (w, { t with esp := t.esp + 4 }) ∧
      Stacked own lo top m { t with esp := t.esp + 4 } ws := by
  obtain ⟨hesp, hwords, hmem⟩ := h
  rw [List.length_cons] at hesp
  have hadd : (t.esp + 4).toNat = t.esp.toNat + 4 := toNat_add_of_lt (show _ + 4 < _ by omega)
  refine ⟨congrArg (·, _) hwords.top, ?_, ?_, hmem⟩
  · show (t.esp + 4).toNat + 4 * ws.length = top
    omega
  · show WordsAt t.mem (t.esp + 4).toNat ws
    rw [hadd]
    exact hwords.2

@[simp] theorem Cpu.push_toRegisters (s : Cpu) (v : UInt32) :
    (s.push v).toRegisters = s.toRegisters := by
  unfold Cpu.push
  rfl

theorem Cpu.pusha_eq (t : Cpu) : t.pusha
    = (((((((t.push t.eax).push t.ecx).push t.edx).push t.ebx).push t.esp).push t.ebp).push
        t.esi).push t.edi := by
  simp only [Cpu.pusha, Cpu.push_toRegisters]

theorem Stacked.pusha (h : Stacked own lo top m t ws) (hlo : lo + 4 * (ws.length + 8) ≤ top) :
    Stacked own lo top m t.pusha
      (t.edi :: t.esi :: t.ebp :: t.esp :: t.ebx :: t.edx :: t.ecx :: t.eax :: ws) := by
  rw [Cpu.pusha_eq]
  have h₁ := h.push (by omega) t.eax
  have h₂ := h₁.push (by simp only [List.length_cons]; omega) t.ecx
  have h₃ := h₂.push (by simp only [List.length_cons]; omega) t.edx
  have h₄ := h₃.push (by simp only [List.length_cons]; omega) t.ebx
  have h₅ := h₄.push (by simp only [List.length_cons]; omega) t.esp
  have h₆ := h₅.push (by simp only [List.length_cons]; omega) t.ebp
  have h₇ := h₆.push (by simp only [List.length_cons]; omega) t.esi
  exact h₇.push (by simp only [List.length_cons]; omega) t.edi

/-- `popa` undoes a `pusha` of `s`, whatever the registers are in between. -/
theorem Stacked.popa {s : Cpu} (htop : top < 4294967296) (h : Stacked own lo top m t
      (s.edi :: s.esi :: s.ebp :: s.esp :: s.ebx :: s.edx :: s.ecx :: s.eax :: ws)) :
    ∃ esp, t.popa = { t with toRegisters := s.toRegisters, esp := esp } ∧
      Stacked own lo top m { t with esp := esp } ws := by
  obtain ⟨h₁, hs₁⟩ := h.pop htop
  obtain ⟨h₂, hs₂⟩ := hs₁.pop htop
  obtain ⟨h₃, hs₃⟩ := hs₂.pop htop
  obtain ⟨h₄, hs₄⟩ := hs₃.pop htop
  obtain ⟨h₅, hs₅⟩ := hs₄.pop htop
  obtain ⟨h₆, hs₆⟩ := hs₅.pop htop
  obtain ⟨h₇, hs₇⟩ := hs₆.pop htop
  obtain ⟨h₈, hs₈⟩ := hs₇.pop htop
  refine ⟨_, ?_, hs₈⟩
  simp only [Cpu.pop, Prod.mk.injEq, and_true] at h₁ h₂ h₃ h₄ h₅ h₆ h₇ h₈
  simp only [Cpu.popa, Cpu.pop, h₁, h₂, h₃, h₅, h₆, h₇, h₈]

/-- A compiled function that is called with its arguments on the stack pops its return address. -/
theorem Stacked.called_esp {depth : ℕ} {f : Cpu → Cpu} {ret : UInt32} (args : List UInt32)
    (h : Stacked own lo top m t (ret :: (args ++ ws))) (hf : Cdecl own lo depth args.length f)
    (htop : top < 4294967296) (hroom : lo + depth + 4 * (ws.length + args.length + 1) ≤ top) :
    (f t).esp.toNat = t.esp.toNat + 4 := by
  have hesp := h.esp
  rw [List.length_cons, List.length_append] at hesp
  rw [hf.esp t (by omega)]
  exact toNat_add_of_lt (show t.esp.toNat + 4 < 4294967296 by omega)

/-- When its caller has popped the arguments, the stack is as before. -/
theorem Stacked.called {depth : ℕ} {f : Cpu → Cpu} {ret : UInt32} (args : List UInt32)
    (h : Stacked own lo top m t (ret :: (args ++ ws))) (hf : Cdecl own lo depth args.length f)
    (hown : ∀ x, lo ≤ x → x < top → ¬ own x)
    (hroom : lo + depth + 4 * (ws.length + args.length + 1) ≤ top) {u : Cpu}
    (hmem : u.mem = (f t).mem) (hesp : u.esp.toNat = t.esp.toNat + 4 + 4 * args.length) :
    Stacked own lo top m u ws := by
  obtain ⟨htop, hwords, hout⟩ := h
  rw [List.length_cons, List.length_append] at htop
  have hkeep := hf.mem t (by omega)
  refine ⟨by omega, ?_, fun x hx hlt => ?_⟩
  · rw [hmem, hesp]
    exact hwords.2.drop.congr fun x hx hlt =>
      hkeep x (hown x (by omega) (by omega)) (Or.inr (by omega))
  · rw [hmem, ← hout x hx hlt]
    exact hkeep x hx (by omega)

end

/-! ## The frame of an interrupt -/

/-- Where the processor pushes the frame of an interrupt. -/
def Cpu.stackTop (s : Cpu) : ℕ := (if s.cpl = 0 then s.esp else s.esp0).toNat

/-- The frame. -/
def Cpu.frame (s : Cpu) : List UInt32 :=
  s.eip :: s.cs :: s.eflags :: if s.cpl = 0 then [] else [s.esp, s.ss]

theorem Cpu.length_frame_le (s : Cpu) : s.frame.length ≤ 5 := by
  unfold Cpu.frame
  split <;> simp

@[simp] theorem Cpu.interrupt_toRegisters (s : Cpu) (handler : UInt32) :
    (s.interrupt handler).toRegisters = s.toRegisters := by
  unfold Cpu.interrupt
  by_cases h : s.cpl = 0
  · simp only [if_pos h, Cpu.push_toRegisters]
  · simp only [if_neg h, Cpu.push_toRegisters]

section

variable {own : ℕ → Prop} {lo : ℕ} {s : Cpu}

/-- The stack of the interrupt before the frame is pushed. -/
theorem Stacked.empty {t : Cpu} (hesp : t.esp.toNat = s.stackTop) (hmem : t.mem = s.mem) :
    Stacked own lo s.stackTop s.mem t [] :=
  ⟨hesp, trivial, fun x _ _ => congrFun hmem x⟩

theorem Stacked.interrupt (hlo : lo + 20 ≤ s.stackTop) (handler : UInt32) :
    Stacked own lo s.stackTop s.mem (s.interrupt handler) s.frame := by
  unfold Cpu.interrupt Cpu.frame
  by_cases h : s.cpl = 0
  · simp only [if_pos h]
    have htop : s.esp.toNat = s.stackTop := by rw [Cpu.stackTop, if_pos h]
    have h₀ : Stacked own lo s.stackTop s.mem s [] := Stacked.empty htop rfl
    have h₁ := h₀.push (by simp; omega) s.eflags
    have h₂ := h₁.push (by simp; omega) s.cs
    have h₃ := h₂.push (by simp; omega) s.eip
    exact ⟨h₃.esp, h₃.words, h₃.mem⟩
  · simp only [if_neg h]
    have htop : s.esp0.toNat = s.stackTop := by rw [Cpu.stackTop, if_neg h]
    have h₀ : Stacked own lo s.stackTop s.mem { s with esp := s.esp0, ss := 0x10 } [] :=
      Stacked.empty htop rfl
    have h₁ := h₀.push (by simp; omega) s.ss
    have h₂ := h₁.push (by simp; omega) s.esp
    have h₃ := h₂.push (by simp; omega) s.eflags
    have h₄ := h₃.push (by simp; omega) s.cs
    have h₅ := h₄.push (by simp; omega) s.eip
    exact ⟨h₅.esp, h₅.words, h₅.mem⟩

theorem Stacked.iret {m : Mem} {t : Cpu} (h : Stacked own lo s.stackTop m t s.frame)
    (hss : s.cpl = 0 → t.ss = s.ss) :
    t.iret = { t with
      eip := s.eip, cs := s.cs, eflags := s.eflags, esp := s.esp, ss := s.ss } := by
  have htop : s.stackTop < 4294967296 := UInt32.toNat_lt _
  obtain ⟨h₁, hs₁⟩ := h.pop htop
  obtain ⟨h₂, hs₂⟩ := hs₁.pop htop
  obtain ⟨h₃, hs₃⟩ := hs₂.pop htop
  simp only [Cpu.pop, Prod.mk.injEq, and_true] at h₁ h₂ h₃
  by_cases hcpl : s.cpl = 0
  · have hesp : t.esp + 4 + 4 + 4 = s.esp := by
      have hback := hs₃.esp
      rw [if_pos hcpl, Cpu.stackTop, if_pos hcpl] at hback
      exact UInt32.toNat_inj.1 hback
    have hcpl' : s.cs.toNat % 4 = 0 := hcpl
    simp only [Cpu.iret, Cpu.pop, h₁, h₂, h₃, Cpu.cpl, hcpl', if_true, hesp, hss hcpl]
  · rw [if_neg hcpl] at hs₃
    obtain ⟨h₄, hs₄⟩ := hs₃.pop htop
    obtain ⟨h₅, -⟩ := hs₄.pop htop
    simp only [Cpu.pop, Prod.mk.injEq, and_true] at h₄ h₅
    have hcpl' : ¬ s.cs.toNat % 4 = 0 := hcpl
    simp only [Cpu.iret, Cpu.pop, h₁, h₂, h₃, Cpu.cpl, hcpl', if_false, h₄, h₅]

end

@[simp] theorem Cpu.push_ss (s : Cpu) (v : UInt32) : (s.push v).ss = s.ss := by
  unfold Cpu.push
  rfl

@[simp] theorem Cpu.push_esp0 (s : Cpu) (v : UInt32) : (s.push v).esp0 = s.esp0 := by
  unfold Cpu.push
  rfl

theorem Cpu.interrupt_ss {s : Cpu} (h : s.cpl = 0) (handler : UInt32) :
    (s.interrupt handler).ss = s.ss := by
  simp only [Cpu.interrupt, if_pos h, Cpu.push_ss]

@[simp] theorem Cpu.interrupt_esp0 (s : Cpu) (handler : UInt32) :
    (s.interrupt handler).esp0 = s.esp0 := by
  unfold Cpu.interrupt
  by_cases h : s.cpl = 0
  · simp only [if_pos h, Cpu.push_esp0]
  · simp only [if_neg h, Cpu.push_esp0]

@[simp] theorem Cpu.pusha_ss (s : Cpu) : s.pusha.ss = s.ss := by
  simp only [Cpu.pusha_eq, Cpu.push_ss]

@[simp] theorem Cpu.pusha_esp0 (s : Cpu) : s.pusha.esp0 = s.esp0 := by
  simp only [Cpu.pusha_eq, Cpu.push_esp0]

@[simp] theorem Cpu.pusha_toRegisters (s : Cpu) : s.pusha.toRegisters = s.toRegisters := by
  simp only [Cpu.pusha_eq, Cpu.push_toRegisters]

/-! ## One interrupt -/

/-- `t` is in the state of `s`, but for memory that the kernel owns or that is free stack. -/
structure Agree (own : ℕ → Prop) (lo : ℕ) (s t : Cpu) : Prop where
  eq : t = { s with mem := t.mem }
  mem : ∀ x, ¬ own x → x < lo ∨ s.stackTop ≤ x → t.mem x = s.mem x

/-- There is stack for the frames and for what a handler needs, and the kernel keeps no data there. -/
structure StackRoom (own : ℕ → Prop) (lo depth : ℕ) (s : Cpu) : Prop where
  le : lo + depth + 68 ≤ s.stackTop
  free : ∀ x, lo ≤ x → x < s.stackTop → ¬ own x

section

variable {own : ℕ → Prop} {lo depth : ℕ} {s : Cpu} {f : Cpu → Cpu}

/-- `popa` and `iret` go back to where the interrupt came from. -/
theorem Stacked.resume {t u : Cpu} (hregs : t.toRegisters = s.toRegisters)
    (h : Stacked own lo s.stackTop s.mem u (t.edi :: t.esi :: t.ebp :: t.esp :: t.ebx :: t.edx ::
      t.ecx :: t.eax :: s.frame))
    (hss : s.cpl = 0 → u.ss = s.ss) (hesp0 : u.esp0 = s.esp0) : Agree own lo s u.popa.iret := by
  obtain ⟨esp, hpopa, hframe⟩ := h.popa (UInt32.toNat_lt _)
  have hpopped : Stacked own lo s.stackTop s.mem u.popa s.frame := by
    rw [hpopa]
    exact ⟨hframe.esp, hframe.words, hframe.mem⟩
  have hiret := hpopped.iret (by rwa [hpopa])
  rw [hiret, hpopa, hregs]
  exact ⟨by simp only [hesp0], hframe.mem⟩

/-- A timer or keyboard interrupt. -/
theorem isrIrq_agree (hf : Cdecl own lo depth 0 f) (hroom : StackRoom own lo depth s)
    (handler ret : UInt32) : Agree own lo s (isrIrq f ret (s.interrupt handler)) := by
  have hle := hroom.le
  have hlen := s.length_frame_le
  have htop : s.stackTop < 4294967296 := UInt32.toNat_lt _
  have h₁ : Stacked own lo s.stackTop s.mem (s.interrupt handler) s.frame :=
    Stacked.interrupt (by omega) handler
  have h₂ := (h₁.pusha (by omega)).push (by simp only [List.length_cons]; omega) ret
  have hss : s.cpl = 0 → ((s.interrupt handler).pusha.push ret).ss = s.ss := fun hcpl => by
    rw [Cpu.push_ss, Cpu.pusha_ss, Cpu.interrupt_ss hcpl]
  have hesp0 : ((s.interrupt handler).pusha.push ret).esp0 = s.esp0 := by
    rw [Cpu.push_esp0, Cpu.pusha_esp0, Cpu.interrupt_esp0]
  show Agree own lo s (f ((s.interrupt handler).pusha.push ret)).popa.iret
  generalize (s.interrupt handler).pusha.push ret = t at h₂ hss hesp0
  have hroom' : lo + depth + 4 * (s.frame.length + 8 + 0 + 1) ≤ s.stackTop := by omega
  have hesp := h₂.called_esp [] hf htop hroom'
  have hlo : lo + depth ≤ t.esp.toNat := by
    have hsum := h₂.esp
    simp only [List.length_cons] at hsum
    omega
  obtain ⟨-, hss', hesp0'⟩ := hf.system t hlo
  exact Stacked.resume (s.interrupt_toRegisters handler)
    (h₂.called [] hf hroom.free hroom' rfl hesp)
    (fun hcpl => hss'.trans (hss hcpl)) (hesp0'.trans hesp0)

/-! ## A system call -/

/-- The first half of `_isr_128` leaves the three arguments below the return address. -/
theorem Stacked.isr128Call {t : Cpu} (h : Stacked own lo s.stackTop s.mem t s.frame)
    (hlo : lo + 68 ≤ s.stackTop) (ret : UInt32) :
    Stacked own lo s.stackTop s.mem (isr128Call ret t) (ret :: ([t.eax, t.ebx, t.ecx] ++
      (t.edi :: t.esi :: t.ebp :: t.esp :: t.ebx :: t.edx :: t.ecx :: t.eax :: s.frame))) := by
  have hlen := s.length_frame_le
  have hcli : Stacked own lo s.stackTop s.mem t.cli s.frame := ⟨h.esp, h.words, h.mem⟩
  have h₁ := hcli.pusha (by omega)
  have h₂ := h₁.push (by simp only [List.length_cons]; omega) t.ecx
  have h₃ := h₂.push (by simp only [List.length_cons]; omega) t.ebx
  have h₄ := h₃.push (by simp only [List.length_cons]; omega) t.eax
  have heq : BlackHole.isr128Call ret t
      = (((t.cli.pusha.push t.ecx).push t.ebx).push t.eax).push ret := by
    unfold BlackHole.isr128Call
    simp only [Cpu.push_toRegisters, Cpu.pusha_toRegisters]
    rfl
  rw [heq]
  exact h₄.push (by simp only [List.length_cons]; omega) ret

/-- The flags that `sti` sets are the ones `iret` loads. -/
theorem Cpu.sti_iret (s : Cpu) : s.sti.iret = s.iret := by
  simp only [Cpu.iret, Cpu.sti, Cpu.pop]
  rfl

/-- The handler gets `eax`, `ebx` and `ecx`. -/
theorem isr128Call_args {t : Cpu} (h : Stacked own lo s.stackTop s.mem t s.frame)
    (hlo : lo + 68 ≤ s.stackTop) (ret : UInt32) :
    (isr128Call ret t).args = (t.eax, t.ebx, t.ecx) := by
  have hcall := h.isr128Call hlo ret
  obtain ⟨-, heax, hebx, hecx, -⟩ := hcall.words
  have htop : s.stackTop < 4294967296 := UInt32.toNat_lt _
  have hsum := hcall.esp
  simp only [List.length_cons, List.cons_append, List.nil_append] at hsum
  generalize isr128Call ret t = u at heax hebx hecx hsum
  have hload : ∀ {k w : UInt32}, k.toNat ≤ 12 → le32 u.mem (u.esp.toNat + k.toNat) = w.toNat →
      loadWord u.mem (u.esp + k) = w := by
    intro k w hk hw
    rw [← UInt32.toNat_inj, toNat_loadWord, toNat_add_of_lt (by omega), hw]
  exact Prod.ext (hload (k := 4) (by decide) heax)
    (Prod.ext (hload (k := 8) (by decide) hebx) (hload (k := 12) (by decide) hecx))

/-- `int $0x80` -/
theorem isr128_agree (hf : Cdecl own lo depth 3 f) (hroom : StackRoom own lo depth s)
    (handler ret : UInt32) : Agree own lo s (isr128 f ret (s.interrupt handler)) ∧
      (isr128Call ret (s.interrupt handler)).args = (s.eax, s.ebx, s.ecx) := by
  have hle := hroom.le
  have hlen := s.length_frame_le
  have htop : s.stackTop < 4294967296 := UInt32.toNat_lt _
  have h₁ : Stacked own lo s.stackTop s.mem (s.interrupt handler) s.frame :=
    Stacked.interrupt (by omega) handler
  have hregs := s.interrupt_toRegisters handler
  refine ⟨?_, (isr128Call_args h₁ (by omega) ret).trans (by rw [hregs])⟩
  have h₂ := h₁.isr128Call (by omega) ret
  have hss : s.cpl = 0 → (isr128Call ret (s.interrupt handler)).ss = s.ss := fun hcpl => by
    simp only [isr128Call, Cpu.push_ss, Cpu.pusha_ss]
    exact Cpu.interrupt_ss hcpl handler
  have hesp0 : (isr128Call ret (s.interrupt handler)).esp0 = s.esp0 := by
    simp only [isr128Call, Cpu.push_esp0, Cpu.pusha_esp0]
    exact Cpu.interrupt_esp0 s handler
  unfold isr128
  generalize isr128Call ret (s.interrupt handler) = t at h₂ hss hesp0
  have hroom' : lo + depth + 4 * (s.frame.length + 8 + 3 + 1) ≤ s.stackTop := by omega
  have hesp := h₂.called_esp _ hf htop hroom'
  have hsum := h₂.esp
  simp only [List.length_cons, List.cons_append, List.nil_append] at hsum
  have hpop : ((f t).esp + 12).toNat = t.esp.toNat + 4 + 4 * 3 := by
    rw [toNat_add_of_lt (show (f t).esp.toNat + 12 < 4294967296 by omega), hesp]
    rfl
  obtain ⟨-, hss', hesp0'⟩ := hf.system t (by omega)
  show Agree own lo s ({ f t with esp := (f t).esp + 12 } : Cpu).popa.sti.iret
  rw [Cpu.sti_iret]
  exact Stacked.resume hregs
    (h₂.called _ (u := { f t with esp := (f t).esp + 12 }) hf hroom.free hroom' rfl hpop)
    (fun hcpl => hss'.trans (hss hcpl)) (hesp0'.trans hesp0)

end

/-! ## Programs -/

/-- What executes at either level, one instruction at a time. `traps` says which are `int $0x80`: these
    go on to the next instruction once the kernel has returned. -/
structure Program where
  step : Cpu → Option Cpu
  traps : Cpu → Bool

inductive Irq where
  | timer
  | keyboard
  deriving DecidableEq

/-- The handlers as they are compiled, with the entry points of the stubs and the addresses behind
    their calls. -/
structure Stubs where
  irqHandler : Irq → Cpu → Cpu
  isrIrq : Irq → UInt32
  irqReturn : Irq → UInt32
  isr128Handler : Cpu → Cpu
  isr128 : UInt32
  isr128Return : UInt32

/-- An interrupt is taken. -/
def Stubs.take (k : Stubs) (s : Cpu) (irq : Irq) : Cpu :=
  BlackHole.isrIrq (k.irqHandler irq) (k.irqReturn irq) (s.interrupt (k.isrIrq irq))

/-- The program by itself: one instruction, and the registers of a system call. -/
def Program.exec (p : Program) (s : Cpu) (_ : List Irq) :
    Option (Option (UInt32 × UInt32 × UInt32) × Cpu) :=
  (p.step s).map fun s' => (if p.traps s then some (s'.eax, s'.ebx, s'.ecx) else none, s')

/-- The program on the kernel: the interrupts that come before the instruction are taken unless IF is
    clear, and a system call is answered with the arguments that reach `isr128_handler`. -/
def Program.execInterrupted (p : Program) (k : Stubs) (s : Cpu) (irqs : List Irq) :
    Option (Option (UInt32 × UInt32 × UInt32) × Cpu) :=
  let s := if s.intr then irqs.foldl k.take s else s
  (p.step s).map fun s' =>
    if p.traps s then
      let s' := s'.interrupt k.isr128
      (some (isr128Call k.isr128Return s').args, BlackHole.isr128 k.isr128Handler k.isr128Return s')
    else (none, s')

/-- In its states `good` the program leaves room for interrupts, and it does not look at what they
    change. -/
structure Program.Disciplined (p : Program) (own : ℕ → Prop) (lo depth : ℕ) (good : Cpu → Prop) :
    Prop where
  room : ∀ s, good s → StackRoom own lo depth s
  keeps : ∀ s s', good s → p.step s = some s' → good s'
  traps : ∀ s t, good s → Agree own lo s t → p.traps t = p.traps s
  step : ∀ s t s', good s → Agree own lo s t → p.step s = some s' →
    ∃ t', p.step t = some t' ∧ Agree own lo s' t'

/-- The handlers keep to the calling convention. -/
structure Stubs.Compiled (k : Stubs) (own : ℕ → Prop) (lo depth : ℕ) : Prop where
  irq : ∀ irq, Cdecl own lo depth 0 (k.irqHandler irq)
  isr128 : Cdecl own lo depth 3 k.isr128Handler

section

variable {own : ℕ → Prop} {lo depth : ℕ} {s t u : Cpu} {k : Stubs}

theorem Agree.refl (own : ℕ → Prop) (lo : ℕ) (s : Cpu) : Agree own lo s s := ⟨rfl, fun _ _ _ => rfl⟩

theorem Agree.stackTop_eq (h : Agree own lo s t) : t.stackTop = s.stackTop := by
  rw [h.eq]
  rfl

theorem Agree.trans (h : Agree own lo s t) (h' : Agree own lo t u) : Agree own lo s u := by
  refine ⟨?_, fun x hx hout => ?_⟩
  · rw [h'.eq, h.eq]
  · rw [h'.mem x hx (by rwa [h.stackTop_eq]), h.mem x hx hout]

theorem StackRoom.agree (h : StackRoom own lo depth s) (ht : Agree own lo s t) :
    StackRoom own lo depth t := by
  refine ⟨?_, ?_⟩ <;> rw [ht.stackTop_eq]
  · exact h.le
  · exact h.free

/-- Any number of interrupts. -/
theorem Agree.take (hk : k.Compiled own lo depth) (hroom : StackRoom own lo depth s)
    (h : Agree own lo s t) (irqs : List Irq) : Agree own lo s (irqs.foldl k.take t) := by
  induction irqs generalizing t with
  | nil => exact h
  | cons irq irqs ih => exact ih (h.trans (isrIrq_agree (hk.irq irq) (hroom.agree h) _ _))

/-- One instruction with the interrupts before it. -/
theorem Program.Disciplined.implements {p : Program} {good : Cpu → Prop}
    (hp : p.Disciplined own lo depth good) (hk : k.Compiled own lo depth) :
    Machine.Implements (p.execInterrupted k) p.exec (fun _ => True)
      fun t s => good s ∧ Agree own lo s t := by
  rintro t s irqs o s' ⟨hgood, hagree⟩ - hexec
  obtain ⟨s₁, hstep, hanswer⟩ := Option.map_eq_some_iff.1 hexec
  obtain ⟨rfl, rfl⟩ := Prod.mk.inj hanswer
  have hgood' := hp.keeps s s₁ hgood hstep
  have htaken : Agree own lo s (if t.intr then irqs.foldl k.take t else t) := by
    split
    · exact hagree.take hk (hp.room s hgood) irqs
    · exact hagree
  have htraps := hp.traps s _ hgood htaken
  obtain ⟨t₁, hstep', hagree'⟩ := hp.step s _ s₁ hgood htaken hstep
  simp only [Program.execInterrupted, hstep', Option.map_some, htraps]
  by_cases htrap : p.traps s = true
  · obtain ⟨hback, hargs⟩ := isr128_agree hk.isr128 ((hp.room s₁ hgood').agree hagree') k.isr128
      k.isr128Return
    have hregs : t₁.toRegisters = s₁.toRegisters := by rw [hagree'.eq]
    rw [if_pos htrap, if_pos htrap, hargs, hregs]
    exact ⟨_, rfl, hgood', hagree'.trans hback⟩
  · rw [if_neg htrap, if_neg htrap]
    exact ⟨t₁, rfl, hgood', hagree'⟩

/-- A program at any level that does not look at what interrupts change: however many timer and keyboard
    interrupts come between its instructions, it goes through the states that it goes through without
    them, and `isr128_handler` gets the `eax`, `ebx` and `ecx` of each of its system calls. -/
theorem interrupts_invisible {p : Program} {good : Cpu → Prop}
    (hp : p.Disciplined own lo depth good) (hk : k.Compiled own lo depth) {s s' : Cpu}
    (hgood : good s) {irqs : List (List Irq)} {calls : List (Option (UInt32 × UInt32 × UInt32))}
    (hrun : Machine.run p.exec s irqs = some (calls, s')) :
    ∃ t, Machine.run (p.execInterrupted k) s irqs = some (calls, t) ∧ Agree own lo s' t := by
  obtain ⟨t, hrun', -, hagree⟩ :=
    (hp.implements hk).run ⟨hgood, Agree.refl own lo s⟩ (fun _ _ => trivial) hrun
  exact ⟨t, hrun', hagree⟩

end

/-- A handler that counts at address 7. -/
def countingHandler (s : Cpu) : Cpu :=
  { s with
    eax := 0, edx := s.ecx, esp := s.esp + 4
    mem := Function.update s.mem 7 (s.mem 7 + 1) }

theorem countingHandler_cdecl (lo depth n : ℕ) : Cdecl (· = 7) lo depth n countingHandler where
  esp := fun _ _ => rfl
  saved := fun _ _ => ⟨rfl, rfl, rfl, rfl⟩
  system := fun _ _ => ⟨rfl, rfl, rfl⟩
  mem := fun _ _ _ hx _ => Function.update_of_ne hx _ _

/-- It counts in `eax`; the instruction at `0x2002` is a system call. -/
def countingProgram : Program where
  step := fun s => some { s with eax := s.eax + 1, ebx := s.eax, eip := s.eip + 1 }
  traps := fun s => s.eip = 0x2002

def countingStubs : Stubs where
  irqHandler := fun _ => countingHandler
  isrIrq := fun _ => 0x1110
  irqReturn := fun _ => 0x1116
  isr128Handler := countingHandler
  isr128 := 0x1130
  isr128Return := 0x113A

/-- At level 3, with the stack of the TSS at `0x9000`. -/
def countingCpu : Cpu where
  eax := 5
  ecx := 0
  edx := 0
  ebx := 0
  ebp := 0
  esi := 0
  edi := 0
  esp := 0x400000
  eip := 0x2000
  eflags := 0x202
  cs := 0x1B
  ss := 0x23
  esp0 := 0x9000
  mem := fun _ => 0

theorem countingProgram_disciplined : countingProgram.Disciplined (· = 7) 0x1000 64
    fun s => s.cs = 0x1B ∧ s.esp0 = 0x9000 where
  room := by
    rintro s ⟨hcs, hesp0⟩
    have htop : s.stackTop = 0x9000 := by
      rw [Cpu.stackTop, Cpu.cpl, hcs, hesp0]
      rfl
    refine ⟨by rw [htop]; decide, fun x hx _ => ?_⟩
    omega
  keeps := by
    rintro s _ hgood ⟨⟩
    exact hgood
  traps := by
    rintro s t - hagree
    rw [hagree.eq]
    rfl
  step := by
    rintro s t _ - hagree ⟨⟩
    refine ⟨_, rfl, ?_, hagree.mem⟩
    rw [hagree.eq]

/-- Three interrupts before the third instruction, which is a system call. -/
theorem interrupts_invisible_counting : ∃ t,
    Machine.run (countingProgram.execInterrupted countingStubs) countingCpu
      [[.timer], [.keyboard, .timer], []] = some ([none, none, some (8, 7, 0)], t) ∧ t.eax = 8 := by
  have hstubs : countingStubs.Compiled (· = 7) 0x1000 64 :=
    ⟨fun _ => countingHandler_cdecl _ _ _, countingHandler_cdecl _ _ _⟩
  have halone : Machine.run countingProgram.exec countingCpu [[.timer], [.keyboard, .timer], []]
      = some ([none, none, some (8, 7, 0)], { countingCpu with eax := 8, ebx := 7, eip := 0x2003 }) :=
    rfl
  obtain ⟨t, hrun, hagree⟩ :=
    interrupts_invisible countingProgram_disciplined hstubs ⟨rfl, rfl⟩ halone
  refine ⟨t, hrun, ?_⟩
  rw [hagree.eq]

end BlackHole
