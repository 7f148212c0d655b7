import BlackHole.Kernel.Creation

set_option autoImplicit false

/-! # Context switches over a schedule

From `tasking_init` on every step keeps `KernelInv`, and no step touches the frame of a task that is
suspended. So a task goes on in the context it was switched out in, however the others are scheduled
in between (`context_switch_correct`). -/

namespace BlackHole

open Bytes FirstFit

/-- Any sequence of steps. -/
def Runs : Kernel → Kernel → Prop := Relation.ReflTransGen KernelStep

/-! ## The invariant along a run -/

theorem taskingInit_eq {fuel : ℕ} {s s' : Sys} (h : taskingInit fuel s = some s') :
    ∃ t m₁ m, memoryAlloc fuel s.cpu.mem taskSize = some (t, m₁) ∧
      (∀ x, x < t ∨ t + taskSize ≤ x → m x = m₁ x) ∧ taskNext m t = t % 4294967296 ∧
      s' = ⟨{ s.cpu with mem := m }, t, t, u32 (s.nextPid + 1)⟩ := by
  obtain ⟨⟨t, m₁⟩, h₁, rfl⟩ := Option.map_eq_some_iff.1 h
  refine ⟨t, m₁, _, h₁, fun x hx => ?_, ?_, rfl⟩
  · unfold taskSize at hx
    simp (disch := omega) only [setTaskId, setTaskEsp, setTaskEbp, setTaskEip, setTaskCr3,
      setTaskNext, put32_of_outside]
  · simp only [taskNext, setTaskNext, le32_put32]

/-- After `tasking_init` there is one task, which owns its control block and the stack it was
    started on. -/
theorem taskingInit_inv {fuel : ℕ} {s s' : Sys} {live : ℕ → Option ℕ} {bs : List Block} {lo hi : ℕ}
    (hheap : HeapInv s.cpu.mem live bs) (hrun : taskingInit fuel s = some s')
    (hne : s'.currentTask ≠ 0) (hlo : lo ≤ hi) (hhi : hi < 4294967296)
    (hout : hi ≤ heapStart ∨ heapStart + heapSize ≤ lo) :
    KernelInv ⟨s', oneTask s'.currentTask lo hi⟩ := by
  obtain ⟨t, m₁, m, h₁, hkeep, hnext, rfl⟩ := taskingInit_eq hrun
  have hsize : taskSize ≤ 0xFFFFFFFC := by decide
  obtain ⟨q, m', hall, -, hcases⟩ := memoryAlloc_spec hheap hsize
  have heq := (memoryAlloc_fuelMono s.cpu.mem taskSize).unique h₁ hall
  simp only [Prod.mk.injEq] at heq
  obtain ⟨rfl, rfl⟩ := heq
  rcases hcases with ⟨rfl, -⟩ | ⟨-, -, bs', -, hinv'⟩
  · exact absurd rfl hne
  have hlive : Function.update live t (some taskSize) t = some taskSize := by simp
  obtain ⟨b, hb, -, hbt, hn⟩ := hinv'.live t taskSize hlive
  have hin := hinv'.tiles.mem hb
  unfold Block.stop headerSize at hin
  unfold headerSize at hbt
  unfold heapStart heapSize at hin hout
  have hself : oneTask t lo hi t ≠ none := oneTask_ne_none.2 rfl
  refine ⟨TasksApart.empty.update ⟨hlo, hhi⟩ ?_ (by simp),
    ⟨_, bs', hinv'.clientWrite (clientWrite_of_owned fun x hx => hkeep x ?_),
      fun u lo' hi' hu => ?_⟩, hself, hself, fun u hu => ?_⟩
  · change hi ≤ t ∨ t + taskSize ≤ lo
    unfold taskSize at hn ⊢
    omega
  · have hxt := hx t taskSize (Or.inr ⟨t, taskSize, hlive, le_rfl, le_rfl⟩)
    omega
  · obtain ⟨rfl, hp⟩ := oneTask_eq_some.1 hu
    simp only [Prod.mk.injEq] at hp
    obtain ⟨rfl, rfl⟩ := hp
    exact ⟨Or.inr ⟨u, taskSize, hlive, le_rfl, le_rfl⟩,
      Or.inl (by unfold heapStart heapSize; omega)⟩
  · obtain rfl := oneTask_ne_none.1 hu
    refine oneTask_ne_none.2 ?_
    exact hnext.trans (Nat.mod_eq_of_lt (by omega))

theorem KernelInv.computes {k k' : Kernel} (hinv : KernelInv k) (h : Computes k k') :
    KernelInv k' := by
  refine ⟨h.stack ▸ hinv.apart, h.stack ▸ h.owned, ?_, ?_, fun t ht => ?_⟩
  · rw [h.stack, h.current]
    exact hinv.current
  · rw [h.stack, h.ready]
    exact hinv.ready
  · rw [h.stack] at ht ⊢
    exact h.next t ht

theorem KernelInv.creates {k k' : Kernel} {entryPoint t base : ℕ} (hinv : KernelInv k)
    (h : Creates k entryPoint t base k') : KernelInv k' := by
  obtain ⟨tail, hc⟩ := h.inv hinv
  have hsome : ∀ u, u = t ∨ k.stack u ≠ none → k'.stack u ≠ none := by
    intro u hu
    rw [h.stack]
    exact PartialMap.update_some_ne_none.2 hu
  refine ⟨h.apart, hc.owned, hsome _ (hc.currentTask ▸ Or.inr hinv.current),
    hsome _ (hc.readyQueue ▸ Or.inr hinv.ready), fun u hu => ?_⟩
  by_cases hut : u = t
  · rw [hut, hc.last]
    exact hsome _ (Or.inr hinv.ready)
  by_cases hutail : u = tail
  · rw [hutail, hc.link]
    exact hsome _ (Or.inl rfl)
  · rw [h.stack, Function.update_of_ne hut] at hu
    rw [hc.next u hu hutail]
    exact hsome _ (Or.inr (hinv.next u hu))

theorem KernelInv.step {k k' : Kernel} (hinv : KernelInv k) (h : KernelStep k k') : KernelInv k' := by
  cases h with
  | computes h => exact hinv.computes h
  | switches h => exact hinv.switches h
  | creates h => exact hinv.creates h

theorem KernelInv.run {k k' : Kernel} (hinv : KernelInv k) (h : Runs k k') : KernelInv k' := by
  induction h with
  | refl => exact hinv
  | tail _ hstep ih => exact ih.step hstep

/-! ## Suspended tasks along a run -/

/-- A suspended task's frame is in its stack, which is nobody else's. -/
theorem Suspended.computes {k k' : Kernel} {t : ℕ} {c : Context} (hs : Suspended k t c)
    (ht : k.sys.currentTask ≠ t) (h : Computes k k') : Suspended k' t c := by
  obtain ⟨lo, hi, hstack, hlo, hhi, hframe⟩ := hs
  have hesp := h.esp t (by rw [hstack]; simp)
  have hend := hframe.esp
  refine ⟨lo, hi, h.stack ▸ hstack, by rwa [hesp], hhi, ?_⟩
  rw [hesp]
  exact hframe.congr fun x hx hx' =>
    h.others t lo hi hstack (Ne.symm ht) x (by omega) (by omega)

theorem Suspended.creates {k k' : Kernel} {t : ℕ} {c : Context} {entryPoint u base : ℕ}
    (hs : Suspended k t c) (hinv : KernelInv k) (h : Creates k entryPoint u base k') :
    Suspended k' t c := by
  obtain ⟨lo, hi, hstack, hlo, hhi, hframe⟩ := hs
  obtain ⟨tail, hc⟩ := h.inv hinv
  have hend := hframe.esp
  have hne : t ≠ u := by
    rintro rfl
    simp [h.fresh] at hstack
  have hstail := hinv.apart.stackTask t tail lo hi hstack hc.task
  have htasks := hinv.apart.tasks t tail (by rw [hstack]; simp) hc.task
  unfold taskSize at hstail htasks
  have hesp : taskEsp k'.mem t = taskEsp k.mem t := le32_congr fun j hj =>
    hc.kept t lo hi hstack _ (Or.inl (by unfold taskSize; omega)) (by
      by_cases htt : t = tail
      · omega
      · have := htasks htt
        omega)
  refine ⟨lo, hi, by rw [h.stack, Function.update_of_ne hne, hstack], by rwa [hesp], hhi, ?_⟩
  rw [hesp]
  exact hframe.congr fun x hx hx' =>
    hc.kept t lo hi hstack x (Or.inr (by omega)) (by omega)

/-- A new thread is suspended at its start. -/
theorem Creates.suspended {k k' : Kernel} {entryPoint t base : ℕ} (hinv : KernelInv k)
    (h : Creates k entryPoint t base k') : Suspended k' t (startContext entryPoint base) := by
  obtain ⟨tail, hc⟩ := h.inv hinv
  have hend := hc.frame.esp
  refine ⟨base, base + 4096, h.stack_self, ?_, by omega, ?_⟩
  · rw [hc.esp]
    omega
  · rw [hc.esp]
    exact hc.frame

theorem Suspended.step {k k' : Kernel} {t : ℕ} {c : Context} (hs : Suspended k t c)
    (hinv : KernelInv k) (ht : k.sys.currentTask ≠ t) (h : KernelStep k k') : Suspended k' t c := by
  cases h with
  | computes h => exact hs.computes ht h
  | switches h => exact (hs.switches hinv ht h).2
  | creates h => exact hs.creates hinv h

/-- A task stays suspended, in the same context, until it is switched to. -/
theorem Suspended.run {k k' : Kernel} {t : ℕ} {c : Context} (hs : Suspended k t c)
    (hinv : KernelInv k) (h : RunWithout t k k') : KernelInv k' ∧ Suspended k' t c := by
  -- the step lemmas need the invariant in every state on the way
  induction h with
  | refl => exact ⟨hinv, hs⟩
  | tail _ hstep ih => exact ⟨ih.1.step hstep.2, ih.2.step ih.1 hstep.1 hstep.2⟩

/-! ## The result -/

/-- A task that has another one after it and room on its stack can be switched out. -/
theorem KernelInv.exists_switches {k : Kernel} (hinv : KernelInv k) {lo hi : ℕ}
    (hstack : k.stack k.sys.currentTask = some (lo, hi)) (hroom : lo + 28 ≤ hi)
    (hpos : 0 < k.sys.currentTask) (hlt : k.sys.currentTask + 4 < 4294967296)
    (hnext : taskNext k.mem k.sys.currentTask ≠ k.sys.currentTask) (ret : UInt32) :
    ∃ call k', Switches k call ret k' ∧ k'.sys.currentTask = taskNext k.mem k.sys.currentTask := by
  have hbounds := hinv.apart.bounds _ lo hi hstack
  obtain ⟨s₁, newEsp, hrun, hnew⟩ : ∃ s₁ newEsp,
      taskSwitch k.sys 0 0 = (s₁, some (k.sys.currentTask + 4, newEsp)) ∧
      newEsp < 4294967296 := by
    unfold taskSwitch
    rw [if_neg (by rw [not_or]; exact ⟨by omega, hnext⟩), if_neg (by decide)]
    exact ⟨_, _, rfl, le32_lt _ _⟩
  -- the arguments of the call are the first two words on the stack
  let call : Machine := { s₁.cpu with
    esp := UInt32.ofNat (lo + 20)
    mem := put32 (put32 s₁.cpu.mem (lo + 20) (k.sys.currentTask + 4)) (lo + 24) newEsp }
  have hesp : call.esp.toNat = lo + 20 := Nat.mod_eq_of_lt (by omega)
  have hswitch : Switches k call ret ⟨{ s₁ with cpu := callSwitchTask ret call }, k.stack⟩ := by
    refine ⟨rfl, 0, 0, _, newEsp, s₁, lo, hi, by decide, hrun, hstack, by omega, by omega, ?_, ?_,
      fun x hx => ?_, rfl, rfl⟩
    · rw [hesp, le32_put32_of_disjoint _ _ (by omega), le32_put32, Nat.mod_eq_of_lt hlt]
    · rw [hesp, le32_put32, Nat.mod_eq_of_lt hnew]
    · simp (disch := omega) only [call, put32_of_outside]
  obtain ⟨lo, hi, hs⟩ := hswitch.inv hinv
  exact ⟨call, _, hswitch, hs.currentTask⟩

/-- A task that is switched out goes on, when it is switched to again, right after its call of
    `switch_task` with the registers it had there; a new thread starts at its entry point on top of
    its own stack. What the other tasks do in between does not matter. -/
theorem context_switch_correct {k₀ : Kernel} (h₀ : KernelInv k₀) :
    (∀ k call ret k₁ k₂ call' ret' k₃, Runs k₀ k → Switches k call ret k₁ →
      RunWithout k.sys.currentTask k₁ k₂ → Switches k₂ call' ret' k₃ →
      k₃.sys.currentTask = k.sys.currentTask →
      k₃.sys.cpu.context = { call.context with eip := ret }) ∧
    ∀ k entryPoint t base k₁ k₂ call ret k₃, Runs k₀ k → Creates k entryPoint t base k₁ →
      RunWithout t k₁ k₂ → Switches k₂ call ret k₃ → k₃.sys.currentTask = t →
      k₃.sys.cpu.context = startContext entryPoint base := by
  constructor
  · intro k call ret k₁ k₂ call' ret' k₃ hrun hout hwithout hin hcur
    have hinv := h₀.run hrun
    obtain ⟨hinv₂, hs⟩ := (hout.suspended hinv).run (hinv.switches hout) hwithout
    exact hs.resumes hinv₂ hin hcur
  · intro k entryPoint t base k₁ k₂ call ret k₃ hrun hnew hwithout hin hcur
    have hinv := h₀.run hrun
    obtain ⟨hinv₂, hs⟩ := (hnew.suspended hinv).run (hinv.creates hnew) hwithout
    exact hs.resumes hinv₂ hin hcur

/-- The machine when `tasking_init` is called, on a stack below the heap. -/
def bootSys : Sys := ⟨⟨0, 0, 0, 0, 0, 0, 0, 0, memoryInit fun _ => 0⟩, 0, 0, 1⟩

/-- It becomes the first task and makes a thread. -/
theorem bootSys_run : ∃ s s₁, taskingInit 2 bootSys = some s ∧ s.currentTask = 0x10000C ∧
    s.readyQueue = 0x10000C ∧ createKernelThread 4 s 0x2000 = some (s₁, 0x100030, 0x100054) := by
  obtain ⟨s, hs⟩ : ∃ s, taskingInit 2 bootSys = some s :=
    Option.isSome_iff_exists.1 (by decide +kernel)
  have hstatics : (taskingInit 2 bootSys).map (fun s => (s.currentTask, s.readyQueue))
      = some (0x10000C, 0x10000C) := by decide +kernel
  have hcreate : ((taskingInit 2 bootSys).bind fun s => createKernelThread 4 s 0x2000).map (·.2)
      = some (0x100030, 0x100054) := by decide +kernel
  rw [hs, Option.map_some, Option.some.injEq, Prod.mk.injEq] at hstatics
  rw [hs, Option.bind_some] at hcreate
  obtain ⟨⟨s₁, p⟩, hcreate, rfl⟩ := Option.map_eq_some_iff.1 hcreate
  exact ⟨s, s₁, hs, hstatics.1, hstatics.2, hcreate⟩

theorem bootSys_creates :
    ∃ k₀ k₁, KernelInv k₀ ∧ k₀.stack = oneTask 0x10000C 0x80000 0x90000 ∧
      k₀.sys.currentTask = 0x10000C ∧ k₀.sys.readyQueue = 0x10000C ∧
      Creates k₀ 0x2000 0x100030 0x100054 k₁ := by
  obtain ⟨s, s₁, hs, hcur, hready, hcreate⟩ := bootSys_run
  have h₀ : KernelInv ⟨s, oneTask s.currentTask 0x80000 0x90000⟩ :=
    taskingInit_inv (memoryInit_inv fun _ => 0) hs (by rw [hcur]; decide) (by decide) (by decide)
      (Or.inl (by decide))
  rw [hcur] at h₀
  exact ⟨_, _, h₀, rfl, hcur, hready, h₀.creates_of_run hcreate (by decide) (by decide)⟩

/-- The thread can be switched to, and then the first task again. -/
theorem bootSys_round {k₀ k₁ : Kernel} (h₀ : KernelInv k₀)
    (hstack₀ : k₀.stack = oneTask 0x10000C 0x80000 0x90000) (hcur₀ : k₀.sys.currentTask = 0x10000C)
    (hready₀ : k₀.sys.readyQueue = 0x10000C) (hcreate : Creates k₀ 0x2000 0x100030 0x100054 k₁) :
    ∃ call k₂ call' k₃, Switches k₁ call 0 k₂ ∧ k₂.sys.currentTask = 0x100030 ∧
      Switches k₂ call' 0 k₃ ∧ k₃.sys.currentTask = 0x10000C := by
  have hinv₁ := h₀.creates hcreate
  obtain ⟨tail, hc⟩ := hcreate.inv h₀
  obtain rfl := oneTask_ne_none.1 (hstack₀ ▸ hc.task)
  have hcur₁ := hc.currentTask.trans hcur₀
  have hlink := hc.link
  have hback := hc.last.trans hready₀
  -- to the thread
  have hstack₁ : k₁.stack 0x10000C = some (0x80000, 0x90000) := by
    rw [hcreate.stack, Function.update_of_ne (by decide), hstack₀, oneTask_self]
  obtain ⟨call, k₂, hout, hcur₂⟩ := hinv₁.exists_switches (by rw [hcur₁, hstack₁]) (by decide)
    (by rw [hcur₁]; decide) (by rw [hcur₁]; decide) (by rw [hcur₁, hlink]; decide) 0
  rw [hcur₁, hlink] at hcur₂
  -- and back
  have hback₂ : taskNext k₂.mem 0x100030 = 0x10000C := by
    obtain ⟨lo, hi, hs⟩ := hout.inv hinv₁
    have hstack := hs.stack
    have hkeep := hs.kept
    rw [hcur₁] at hstack hkeep
    obtain ⟨rfl, rfl⟩ := Prod.mk.inj (Option.some.inj (hstack₁.symm.trans hstack))
    rw [← hback]
    exact le32_congr fun j hj => hkeep _ (by omega) (by omega)
  have hstack₂ : k₂.stack 0x100030 = some (0x100054, 0x101054) := by
    rw [hout.stack, hcreate.stack, Function.update_self]
  obtain ⟨call', k₃, hin, hcur₃⟩ := (hinv₁.switches hout).exists_switches (by rw [hcur₂, hstack₂])
    (by decide) (by rw [hcur₂]; decide) (by rw [hcur₂]; decide) (by rw [hcur₂, hback₂]; decide) 0
  rw [hcur₂, hback₂] at hcur₃
  exact ⟨call, k₂, call', k₃, hout, hcur₂, hin, hcur₃⟩

/-- The first task makes a thread, switches to it and is switched back to. -/
theorem context_switch_correct_boot :
    ∃ k₀ t base k₁ call ret k₂ call' ret' k₃, KernelInv k₀ ∧ Creates k₀ 0x2000 t base k₁ ∧
      Switches k₁ call ret k₂ ∧ k₂.sys.cpu.context = startContext 0x2000 base ∧
      Switches k₂ call' ret' k₃ ∧ k₃.sys.cpu.context = { call.context with eip := ret } := by
  obtain ⟨k₀, k₁, h₀, hstack₀, hcur₀, hready₀, hcreate⟩ := bootSys_creates
  obtain ⟨tail, hc⟩ := hcreate.inv h₀
  have hcur₁ := hc.currentTask.trans hcur₀
  obtain ⟨call, k₂, call', k₃, hout, hcur₂, hin, hcur₃⟩ :=
    bootSys_round h₀ hstack₀ hcur₀ hready₀ hcreate
  obtain ⟨hresume, hstart⟩ := context_switch_correct h₀
  exact ⟨k₀, _, _, k₁, call, 0, k₂, call', 0, k₃, h₀, hcreate, hout,
    hstart k₀ _ _ _ k₁ k₁ call 0 k₂ .refl hcreate .refl hout hcur₂, hin,
    hresume k₁ call 0 k₂ k₂ call' 0 k₃ (.single (.creates hcreate)) hout .refl hin
      (hcur₃.trans hcur₁.symm)⟩

end BlackHole
