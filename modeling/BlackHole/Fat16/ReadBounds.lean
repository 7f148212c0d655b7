import BlackHole.Fat16.Termination

set_option autoImplicit false

/-! # Where a read stores

The copies that `fat16_read_file` makes into the caller's buffer, on a disk of any content: the
size of the file, its chain and the buffer need not fit together. `readCopies` lists the copies of
the first passes of the outer loop, so that it also speaks about a read that never returns. -/

namespace BlackHole

/-! ## The copies of a run -/

/-- One `memcpy` of the read loop: the sector it reads, `bytes_read` before it, `to_copy` before it
    is cut to the buffer, and `to_copy`. -/
structure Copy where
  lba : ℕ
  dst : ℕ
  wanted : ℕ
  len : ℕ

/-- `to_copy` before it is cut to the buffer. -/
def wantedBytes (fileSize bytesRead : ℕ) : ℕ :=
  let n := u32sub fileSize bytesRead
  if n > 512 then 512 else n

/-- What is copied: that, cut to the buffer. -/
theorem toCopy_wanted (fileSize bytesRead bufSize : ℕ) :
    toCopy fileSize bytesRead bufSize
      = if u32 (bytesRead + wantedBytes fileSize bytesRead) > bufSize then u32sub bufSize bytesRead
        else wantedBytes fileSize bytesRead := rfl

/-- The copy of one iteration of the sector loop. -/
def sectorCopies (fileSize bufSize lba : ℕ) (st : ReadState) (sec : ℕ) : List Copy :=
  if st.bytesRead < fileSize then
    [⟨u32 (lba + sec), st.bytesRead, wantedBytes fileSize st.bytesRead,
      toCopy fileSize st.bytesRead bufSize⟩]
  else []

/-- The copies of one sector loop. -/
def clusterCopies (L : Layout) (d : Disk) (fileSize bufSize : ℕ) (st : ReadState) : List Copy :=
  (List.range L.sectorsPerCluster).flatMap fun sec =>
    sectorCopies fileSize bufSize (clusterToLba L st.cluster)
      ((List.range sec).foldl (readSector d fileSize bufSize (clusterToLba L st.cluster)) st) sec

/-- The copies of the first passes of the loop over the chain. -/
def readCopies (L : Layout) (d : Disk) (fileSize bufSize : ℕ) : ℕ → ReadState → List Copy
  | 0, _ => []
  | passes + 1, st =>
      match readCluster L d fileSize bufSize st with
      | .inl _ => []
      | .inr st' => clusterCopies L d fileSize bufSize st ++ readCopies L d fileSize bufSize passes st'

/-- What a copy does to the buffer. -/
def Copy.store (d : Disk) (buffer : ℕ → UInt8) (c : Copy) : ℕ → UInt8 :=
  memcpy buffer c.dst (ataReadSector d c.lba).byte c.len

/-! ## Safe copies -/

/-- The copy stays inside the buffer and inside the sector, and none of the four operations on its
    byte counters wraps: `file_size - bytes_read`, `bytes_read + to_copy` in the test,
    `buf_size - bytes_read` and `bytes_read += to_copy`. -/
structure Copy.Safe (fileSize bufSize : ℕ) (c : Copy) : Prop where
  inBuffer : c.dst + c.len ≤ bufSize
  inSector : c.len ≤ 512
  left : c.dst ≤ fileSize
  test : c.dst + c.wanted < 4294967296
  room : c.dst ≤ bufSize
  next : c.dst + c.len < 4294967296

/-- The copies follow on each other from offset `a` to offset `b`. -/
def Contiguous : ℕ → List Copy → ℕ → Prop
  | a, [], b => a = b
  | a, c :: cs, b => c.dst = a ∧ Contiguous (a + c.len) cs b

theorem Contiguous.append {a b e : ℕ} {cs ds : List Copy} (hc : Contiguous a cs b)
    (hd : Contiguous b ds e) : Contiguous a (cs ++ ds) e := by
  induction cs generalizing a with
  | nil =>
      obtain rfl : a = b := hc
      exact hd
  | cons c cs ih => exact ⟨hc.1, ih hc.2⟩

/-- From `st` to `st'` exactly the copies `cs` are made, all of them safe. -/
structure Makes (d : Disk) (fileSize bufSize : ℕ) (st : ReadState) (cs : List Copy)
    (st' : ReadState) : Prop where
  safe : ∀ c ∈ cs, c.Safe fileSize bufSize
  contiguous : Contiguous st.bytesRead cs st'.bytesRead
  buffer : st'.buffer = cs.foldl (Copy.store d) st.buffer
  bounded : st'.bytesRead ≤ min fileSize bufSize

section

variable {L : Layout} {d : Disk} {fileSize bufSize : ℕ} {st : ReadState}

theorem Makes.trans {st₁ st₂ : ReadState} {cs ds : List Copy}
    (h : Makes d fileSize bufSize st cs st₁) (h' : Makes d fileSize bufSize st₁ ds st₂) :
    Makes d fileSize bufSize st (cs ++ ds) st₂ := by
  refine ⟨fun c hc => ?_, h.contiguous.append h'.contiguous, ?_, h'.bounded⟩
  · rcases List.mem_append.1 hc with hc | hc
    · exact h.safe c hc
    · exact h'.safe c hc
  · rw [h'.buffer, h.buffer, List.foldl_append]

/-- One iteration of the sector loop. The sum in the test does not wrap since both terms are bounded
    by the buffer and the sector. -/
theorem readSector_makes (hfile : fileSize < 4294967296) (hbuf : bufSize < 2147483648)
    (h : st.bytesRead ≤ min fileSize bufSize) (lba sec : ℕ) :
    Makes d fileSize bufSize st (sectorCopies fileSize bufSize lba st sec)
      (readSector d fileSize bufSize lba st sec) := by
  have hnext : (readSector d fileSize bufSize lba st sec).bytesRead = _ :=
    readSector_bytesRead hfile h
  unfold sectorCopies
  by_cases hlt : st.bytesRead < fileSize
  · have hcopy := toCopy_eq hfile hlt (show st.bytesRead ≤ bufSize by omega)
    have hwanted : wantedBytes fileSize st.bytesRead ≤ 512 := by
      unfold wantedBytes
      simp only
      split <;> omega
    rw [if_pos hlt]
    refine ⟨fun c hc => ?_, ⟨rfl, ?_⟩, ?_, by rw [hnext]; omega⟩
    · rw [List.mem_singleton] at hc
      subst hc
      exact ⟨by simp only; omega, by simp only; omega, by simp only; omega, by simp only; omega,
        by simp only; omega, by simp only; omega⟩
    · show st.bytesRead + toCopy fileSize st.bytesRead bufSize = _
      rw [hnext, hcopy]
      omega
    · simp only [readSector, List.foldl_cons, List.foldl_nil, Copy.store]
      rw [if_pos hlt]
  · have hstay : readSector d fileSize bufSize lba st sec = st := if_neg hlt
    rw [if_neg hlt, hstay]
    exact ⟨fun c hc => by simp at hc, rfl, rfl, h⟩

/-- The sector loop. -/
theorem readSectors_makes (hfile : fileSize < 4294967296) (hbuf : bufSize < 2147483648)
    (h : st.bytesRead ≤ min fileSize bufSize) (lba n : ℕ) :
    Makes d fileSize bufSize st
      ((List.range n).flatMap fun sec => sectorCopies fileSize bufSize lba
        ((List.range sec).foldl (readSector d fileSize bufSize lba) st) sec)
      ((List.range n).foldl (readSector d fileSize bufSize lba) st) := by
  induction n with
  | zero => exact ⟨fun c hc => by simp at hc, rfl, rfl, h⟩
  | succ n ih =>
      have hstep := readSector_makes hfile hbuf ih.bounded lba n (d := d)
      rw [List.range_succ, List.flatMap_append, List.foldl_append, List.flatMap_singleton]
      exact ih.trans hstep

/-- The loop over the chain, for any number of passes and up to its end. -/
theorem readCluster_makes (hfile : fileSize < 4294967296) (hbuf : bufSize < 2147483648) :
    ∀ (passes : ℕ) (st : ReadState), st.bytesRead ≤ min fileSize bufSize →
      (∀ c ∈ readCopies L d fileSize bufSize passes st, c.Safe fileSize bufSize) ∧
      ∀ st', Loop.iterate (readCluster L d fileSize bufSize) passes st = some st' →
        Makes d fileSize bufSize st (readCopies L d fileSize bufSize passes st) st' := by
  intro passes
  induction passes with
  | zero => exact fun st _ => ⟨fun c hc => by simp [readCopies] at hc, fun st' h => by simp at h⟩
  | succ passes ih =>
      intro st h
      by_cases hguard : 2 ≤ st.cluster ∧ st.cluster < 0xFFF8 ∧ st.bytesRead < fileSize
      · have hmakes := readSectors_makes (d := d) hfile hbuf h (clusterToLba L st.cluster)
          L.sectorsPerCluster
        let next : ReadState :=
          { (List.range L.sectorsPerCluster).foldl
              (readSector d fileSize bufSize (clusterToLba L st.cluster)) st with
            cluster := fatReadEntry L d st.cluster }
        have hbody : readCluster L d fileSize bufSize st = .inr next := if_pos hguard
        have hpass : Makes d fileSize bufSize st (clusterCopies L d fileSize bufSize st) next :=
          ⟨hmakes.safe, hmakes.contiguous, hmakes.buffer, hmakes.bounded⟩
        obtain ⟨hsafe, hrun⟩ := ih next hpass.bounded
        simp only [readCopies, hbody]
        refine ⟨fun c hc => ?_, fun st' hst' => ?_⟩
        · rcases List.mem_append.1 hc with hc | hc
          · exact hpass.safe c hc
          · exact hsafe c hc
        · rw [Loop.iterate_succ_again passes hbody] at hst'
          exact hpass.trans (hrun st' hst')
      · have hbody : readCluster L d fileSize bufSize st = .inl st := if_neg hguard
        simp only [readCopies, hbody]
        refine ⟨fun c hc => by simp at hc, fun st' hst' => ?_⟩
        rw [Loop.iterate_succ_exit passes hbody, Option.some.injEq] at hst'
        subst hst'
        exact ⟨fun c hc => by simp at hc, rfl, rfl, h⟩

end

/-! ## The whole call -/

/-- Behind the last copy the buffer is as it was. -/
theorem Contiguous.foldl_store_of_ge {a b : ℕ} {cs : List Copy} (h : Contiguous a cs b) (d : Disk)
    (buffer : ℕ → UInt8) {k : ℕ} (hk : b ≤ k) : cs.foldl (Copy.store d) buffer k = buffer k := by
  have hle : ∀ {cs : List Copy} {a : ℕ}, Contiguous a cs b → a ≤ b := by
    intro cs
    induction cs with
    | nil => exact fun h => le_of_eq h
    | cons c cs ih => exact fun h => le_trans (Nat.le_add_right _ _) (ih h.2)
  induction cs generalizing a buffer with
  | nil => rfl
  | cons c cs ih =>
      have hend := hle h.2
      rw [List.foldl_cons, ih h.2]
      simp only [Copy.store, memcpy]
      rw [if_neg (by have := h.1; omega)]

/-- The entry the scan has found, in the sector it was read from. -/
def foundEntry (L : Layout) (d : Disk) (s i : ℕ) : DirEntry :=
  sectorEntry (ataReadSector d (u32 (L.rootDirStartLba + s))) i

/-- The state in which the loop over the chain of `e` begins. -/
def readStart (e : DirEntry) (buffer : ℕ → UInt8) : ReadState := ⟨e.firstClusterLo, 0, buffer⟩

/-- On every disk, for every name and every buffer shorter than 2 GB, every copy that
    `fat16_read_file` makes is safe, whether it returns or not. When it returns, either there is no
    such file, or the result is between 0 and both the size of the file and that of the buffer, and
    the copies have stored exactly as many bytes, one after the other from the start of the buffer. -/
theorem fat16ReadFile_inBounds (L : Layout) (d : Disk) (name : List UInt8) (buffer : ℕ → UInt8)
    {bufSize : ℕ} (hbuf : bufSize < 2147483648) :
    (∀ s i, findEntry L d name = some (s, i) → ∀ passes,
      ∀ c ∈ readCopies L d (foundEntry L d s i).fileSize bufSize passes
        (readStart (foundEntry L d s i) buffer),
        c.Safe (foundEntry L d s i).fileSize bufSize) ∧
    ∀ fuel ret buffer', fat16ReadFile fuel L d name buffer bufSize = some (ret, buffer') →
      (findEntry L d name = none ∧ ret = -1 ∧ buffer' = buffer) ∨
      ∃ s i, findEntry L d name = some (s, i) ∧ ∃ n : ℕ, ret = n ∧
        n ≤ min (foundEntry L d s i).fileSize bufSize ∧
        Contiguous 0 (readCopies L d (foundEntry L d s i).fileSize bufSize fuel
          (readStart (foundEntry L d s i) buffer)) n ∧
        buffer' = (readCopies L d (foundEntry L d s i).fileSize bufSize fuel
          (readStart (foundEntry L d s i) buffer)).foldl (Copy.store d) buffer ∧
        ∀ k, n ≤ k → buffer' k = buffer k := by
  have hfile : ∀ s i, (foundEntry L d s i).fileSize < 4294967296 := fun s i => Bytes.Buf.u32_lt ..
  refine ⟨fun s i _ passes => ?_, fun fuel ret buffer' hrun => ?_⟩
  · exact (readCluster_makes (hfile s i) hbuf passes _ (Nat.zero_le _)).1
  · rcases hfind : findEntry L d name with _ | ⟨s, i⟩
    · simp only [fat16ReadFile, hfind, Option.some.injEq, Prod.mk.injEq] at hrun
      exact Or.inl ⟨rfl, hrun.1.symm, hrun.2.symm⟩
    · simp only [fat16ReadFile, hfind, Option.map_eq_some_iff, Prod.mk.injEq] at hrun
      obtain ⟨st, hloop, rfl, rfl⟩ := hrun
      have hmakes := (readCluster_makes (hfile s i) hbuf fuel
        (readStart (foundEntry L d s i) buffer) (Nat.zero_le _)).2 st hloop
      have hbounded := hmakes.bounded
      refine Or.inr ⟨s, i, rfl, st.bytesRead, toInt_of_lt (by omega), hbounded, hmakes.contiguous,
        hmakes.buffer, fun k hk => ?_⟩
      rw [hmakes.buffer]
      exact hmakes.contiguous.foldl_store_of_ge d _ hk

/-- The file whose chain goes round, read into the buffer of `cmd_cat` (which never returns) and into
    one that takes all of it. -/
theorem fat16ReadFile_inBounds_cyclicImage :
    (∀ passes, ∀ c ∈ readCopies hddLayout cyclicImage (foundEntry hddLayout cyclicImage 0 0).fileSize
        2047 passes (readStart (foundEntry hddLayout cyclicImage 0 0) fun _ => 0),
      c.Safe (foundEntry hddLayout cyclicImage 0 0).fileSize 2047) ∧
    ∀ fuel ret buffer',
      fat16ReadFile fuel hddLayout cyclicImage [0x41] (fun _ => 0) 65536 = some (ret, buffer') →
      ret ≤ 65536 := by
  refine ⟨(fat16ReadFile_inBounds hddLayout cyclicImage [0x41] (fun _ => 0) (by decide)).1 0 0
    findEntry_cyclicImage, fun fuel ret buffer' hrun => ?_⟩
  rcases (fat16ReadFile_inBounds hddLayout cyclicImage [0x41] (fun _ => 0) (by decide)).2
    fuel ret buffer' hrun with ⟨-, rfl, -⟩ | ⟨s, i, -, n, rfl, hn, -⟩
  · decide
  · omega

end BlackHole
