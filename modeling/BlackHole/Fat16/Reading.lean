import BlackHole.Fat16.Calls

set_option autoImplicit false

/-! # Reading a file

`fat16_read_file` depends on the disk only through the entry the name resolves to, the FAT entries
of its chain and the sectors of that chain (`fat16ReadFile_congr`), it returns whenever the chain is
in order, and on a chain that holds the data of a file it delivers exactly the prefix that fits into
the buffer (`fat16ReadFile_delivers`). -/

namespace BlackHole

open Bytes

/-! ## The chain walk -/

/-- A cluster on whose entry and sectors two disks agree is read alike. -/
theorem readCluster_congr {L : Layout} (hL : L.WellFormed) {d d' : Disk} {size bufSize : ℕ}
    {st : ReadState} (hfat : fatEntry L d' 0 st.cluster = fatEntry L d 0 st.cluster)
    (hdata : ∀ s < L.sectorsPerCluster, d' (dataLba L st.cluster s) = d (dataLba L st.cluster s)) :
    readCluster L d' size bufSize st = readCluster L d size bufSize st := by
  have hspc := hL.sectorsPerCluster_lt
  unfold readCluster
  split
  next hguard =>
    obtain ⟨h2, hlt, -⟩ := hguard
    have hfold : (List.range L.sectorsPerCluster).foldl
          (readSector d' size bufSize (clusterToLba L st.cluster)) st
        = (List.range L.sectorsPerCluster).foldl
          (readSector d size bufSize (clusterToLba L st.cluster)) st := by
      apply List.foldl_ext
      intro st' s hs
      rw [List.mem_range] at hs
      simp only [readSector, ataReadSector]
      rw [clusterToLba_add hL h2 (by omega) (by omega), hdata s hs]
    simp only [hfold]
    rw [fatReadEntry_eq hL d' (by omega), fatReadEntry_eq hL d (by omega), hfat]
  next => rfl

/-- An iteration takes the first cluster of what is left of a chain. -/
theorem FatChain.readCluster_next {L : Layout} (hL : L.WellFormed) {d : Disk} {size bufSize : ℕ}
    {st st' : ReadState} {xs : List ℕ} (h : FatChain L d st.cluster xs)
    (hbody : readCluster L d size bufSize st = .inr st') :
    ∃ ys, xs = st.cluster :: ys ∧ FatChain L d st'.cluster ys := by
  unfold readCluster at hbody
  split at hbody
  next hguard =>
    cases hbody
    cases xs with
    | nil =>
        have hend : 0xFFF8 ≤ st.cluster := h.follows
        omega
    | cons x ys =>
        obtain ⟨hx, -, hrest⟩ := h.follows
        refine ⟨ys, by rw [hx], ?_, fun y hy => h.range y (List.mem_cons_of_mem _ hy)⟩
        simp only
        rwa [fatReadEntry_eq hL d (by omega), hx]
  next => cases hbody

/-- Two disks on which a chain and its sectors agree are read alike, at every amount of fuel. -/
theorem readCluster_iterate_congr {L : Layout} (hL : L.Usable) {d d' : Disk} {size bufSize : ℕ}
    {cs : List ℕ} {c : ℕ} (hc : FatChain L d c cs)
    (hfat : ∀ x ∈ cs, fatEntry L d' 0 x = fatEntry L d 0 x)
    (hdata : ∀ x ∈ cs, ∀ s < L.sectorsPerCluster, d' (dataLba L x s) = d (dataLba L x s))
    (fuel n : ℕ) (b : ℕ → UInt8) :
    Loop.iterate (readCluster L d' size bufSize) fuel ⟨c, n, b⟩
      = Loop.iterate (readCluster L d size bufSize) fuel ⟨c, n, b⟩ := by
  have hL' := hL.toWellFormed
  symm
  -- what is left of the chain is part of it
  refine Loop.iterate_congr (fun st : ReadState => ∃ xs, FatChain L d st.cluster xs ∧ xs ⊆ cs) ?_ ?_
    fuel ⟨c, n, b⟩ ⟨cs, hc, List.Subset.refl cs⟩
  · rintro st ⟨xs, hxs, hsub⟩
    cases xs with
    | nil =>
        have hend : 0xFFF8 ≤ st.cluster := hxs.follows
        rw [readCluster, readCluster, if_neg (by omega), if_neg (by omega)]
    | cons x xs =>
        have hx : st.cluster = x := hxs.follows.1
        have hmem : st.cluster ∈ cs := hsub (hx ▸ List.mem_cons_self ..)
        exact (readCluster_congr hL' (hfat _ hmem) (hdata _ hmem)).symm
  · rintro st st' ⟨xs, hxs, hsub⟩ hbody
    obtain ⟨ys, rfl, hrest⟩ := hxs.readCluster_next hL' hbody
    exact ⟨ys, hrest, fun y hy => hsub (List.mem_cons_of_mem _ hy)⟩

/-- A chain that ends is walked to its end at the latest. -/
theorem readCluster_leaves_of_chainEnds {L : Layout} {d : Disk} {size bufSize : ℕ} :
    ∀ (k : ℕ) (st : ReadState),
      ¬ (2 ≤ (fatReadEntry L d)^[k] st.cluster ∧ (fatReadEntry L d)^[k] st.cluster < 0xFFF8) →
      Loop.LeavesWithin (readCluster L d size bufSize) st k := by
  intro k
  induction k with
  | zero =>
      intro st hend
      refine ⟨st, Loop.iterate_exit_of_lt 0 (if_neg fun hguard => hend ?_)⟩
      exact ⟨hguard.1, hguard.2.1⟩
  | succ k ih =>
      intro st hend
      by_cases hguard : 2 ≤ st.cluster ∧ st.cluster < 0xFFF8 ∧ st.bytesRead < size
      · rw [Function.iterate_succ_apply] at hend
        obtain ⟨r, hr⟩ := ih { (List.range L.sectorsPerCluster).foldl
          (readSector d size bufSize (clusterToLba L st.cluster)) st with
          cluster := fatReadEntry L d st.cluster } hend
        exact ⟨r, Loop.iterate_again_of_lt (if_pos hguard) hr⟩
      · have hbody : readCluster L d size bufSize st = .inl st := if_neg hguard
        exact ⟨st, fun fuel hfuel => Loop.iterate_exit_of_lt 0 hbody fuel (by omega)⟩

/-- The walk along a chain in order comes to an end, however long the file claims to be. -/
theorem readCluster_iterate_returns {L : Layout} (hL : L.Usable) {d : Disk} (size bufSize : ℕ)
    {cs : List ℕ} {c : ℕ} (hc : FatChain L d c cs) (b : ℕ → UInt8) :
    Loop.LeavesWithin (readCluster L d size bufSize) ⟨c, 0, b⟩ cs.length := by
  have hfollows : Chain.Follows (fatReadEntry L d) EndOfChain c cs := by
    refine hc.follows.congr fun x hx => fatReadEntry_eq hL.toWellFormed d ?_
    have hrange := hc.range x hx
    omega
  have hend := hfollows.stop_iterate
  unfold EndOfChain at hend
  exact readCluster_leaves_of_chainEnds cs.length ⟨c, 0, b⟩ (by simp only; omega)

/-! ## Delivering the data -/

/-- The sectors of the chain `cs` hold the data of a file. -/
def HasData (L : Layout) (d : Disk) (data : ℕ → UInt8) (size : ℕ) (cs : List ℕ) : Prop :=
  ∀ i c, cs[i]? = some c → ∀ s < L.sectorsPerCluster,
    d (dataLba L c s) = fileSector L data size i s

/-- The sectors that hold the first `p` bytes of the file have been visited: what was wanted of
    them is in the buffer. -/
structure Delivered (buffer : ℕ → UInt8) (data : ℕ → UInt8) (size bufSize p : ℕ) (st : ReadState) :
    Prop where
  bytesRead : st.bytesRead = min p (min size bufSize)
  buffer : st.buffer = memcpy buffer 0 data st.bytesRead

theorem memcpy_zero (dst src : ℕ → UInt8) (off : ℕ) : memcpy dst off src 0 = dst := by
  funext k
  simp only [memcpy]
  rw [if_neg (by omega)]

/-- Copying the next `n` bytes behind the first `p`. -/
theorem memcpy_append {dst data tmp : ℕ → UInt8} {p n : ℕ} (h : ∀ k < n, tmp k = data (p + k)) :
    memcpy (memcpy dst 0 data p) p tmp n = memcpy dst 0 data (p + n) := by
  funext k
  simp only [memcpy]
  by_cases hk : p ≤ k ∧ k < p + n
  · rw [if_pos hk, if_pos (by omega), h _ (by omega)]
    congr 1
    omega
  · rw [if_neg hk]
    refine if_congr ?_ rfl rfl
    omega

theorem paddedSector_byte {data : ℕ → UInt8} {size off k : ℕ} (hsize : size < 4294967296)
    (hk : k < 512) (hoff : off + k < size) :
    (paddedSector data size off).byte k = data (off + k) := by
  simp only [paddedSector]
  rw [if_pos (by omega), u32sub_of_le (by omega) hsize, Buf.byte_ofFn _ hk, memcpy,
    if_pos (by split <;> omega), Nat.sub_zero]

/-- The bytes one sector contributes: as many as are left of it, of the file and of the buffer. -/
theorem toCopy_eq {size n bufSize : ℕ} (hsize : size < 4294967296) (hn : n < size)
    (hn' : n ≤ bufSize) : toCopy size n bufSize = min (n + 512) (min size bufSize) - n := by
  have hleft : (if size - n > 512 then 512 else size - n) = min (n + 512) size - n := by
    split <;> omega
  simp only [toCopy]
  rw [u32sub_of_le (by omega) hsize, hleft, u32_of_lt (by omega)]
  split
  next h =>
    rw [u32sub_of_le hn' (by omega)]
    omega
  next => omega

/-- `bytes_read` never passes the end of the file or of the buffer. -/
theorem readSector_bytesRead {d : Disk} {size bufSize lba sec : ℕ} {st : ReadState}
    (hsize : size < 4294967296) (h : st.bytesRead ≤ min size bufSize) :
    (readSector d size bufSize lba st sec).bytesRead
      = min (st.bytesRead + 512) (min size bufSize) := by
  simp only [readSector]
  split
  next hn =>
    simp only
    rw [toCopy_eq hsize hn (by omega), u32_of_lt (by omega)]
    omega
  next => omega

/-- One sector: the next 512 bytes of the file, cut to what is left of it and of the buffer. -/
theorem Delivered.readSector {d : Disk} {buffer data : ℕ → UInt8} {size bufSize p lba sec : ℕ}
    {st : ReadState} (hsize : size < 2147483648)
    (hsec : d (u32 (lba + sec)) = paddedSector data size p)
    (h : Delivered buffer data size bufSize p st) :
    Delivered buffer data size bufSize (p + 512) (readSector d size bufSize lba st sec) := by
  obtain ⟨c, n, b⟩ := st
  obtain ⟨hread, hcopied⟩ := h
  simp only at hread hcopied
  have hnext : (BlackHole.readSector d size bufSize lba ⟨c, n, b⟩ sec).bytesRead
      = min (n + 512) (min size bufSize) :=
    readSector_bytesRead (by omega) (by simp only; omega)
  refine ⟨by rw [hnext]; omega, ?_⟩
  rw [hnext]
  simp only [BlackHole.readSector]
  split
  next hn =>
    simp only [ataReadSector, hsec]
    rw [toCopy_eq (by omega) hn (by omega), hcopied]
    by_cases hp : p < min size bufSize
    · -- the sector still contributes
      have hnp : n = p := by omega
      subst hnp
      rw [memcpy_append fun k hk => paddedSector_byte (by omega) (by omega) (by omega)]
      congr 1
      omega
    · -- the buffer is full: nothing is copied any more
      have hfull : min (n + 512) (min size bufSize) = n := by omega
      rw [hfull, Nat.sub_self, memcpy_zero]
  next hn =>
    have hdone : min (n + 512) (min size bufSize) = n := by omega
    rw [hdone, hcopied]

/-- The sectors of one cluster. -/
theorem Delivered.readSectors {L : Layout} (hL : L.WellFormed) {d : Disk}
    {buffer data : ℕ → UInt8} {size bufSize i c : ℕ} {st : ReadState} (hsize : size < 2147483648)
    (hc : 2 ≤ c) (hc' : c < 65536) (hi : (i + 1) * (L.sectorsPerCluster * 512) < 4294967296)
    (hdata : ∀ s < L.sectorsPerCluster, d (dataLba L c s) = fileSector L data size i s)
    (h : Delivered buffer data size bufSize (i * (L.sectorsPerCluster * 512)) st) :
    Delivered buffer data size bufSize ((i + 1) * (L.sectorsPerCluster * 512))
      ((List.range L.sectorsPerCluster).foldl
        (BlackHole.readSector d size bufSize (clusterToLba L c)) st) := by
  have hspc := hL.sectorsPerCluster_lt
  have hsplit : (i + 1) * (L.sectorsPerCluster * 512)
      = i * (L.sectorsPerCluster * 512) + L.sectorsPerCluster * 512 := Nat.succ_mul ..
  have key : ∀ n ≤ L.sectorsPerCluster,
      Delivered buffer data size bufSize (i * (L.sectorsPerCluster * 512) + n * 512)
        ((List.range n).foldl (BlackHole.readSector d size bufSize (clusterToLba L c)) st) := by
    intro n
    induction n with
    | zero => intro _; simpa using h
    | succ n ih =>
        intro hn
        rw [List.range_succ, List.foldl_append, List.foldl_cons, List.foldl_nil, Nat.succ_mul,
          ← Nat.add_assoc]
        refine (ih (by omega)).readSector hsize ?_
        rw [clusterToLba_add hL hc hc' (by omega), hdata n hn, fileSector,
          u32_of_lt (show i * (L.sectorsPerCluster * 512) < _ by omega), u32_of_lt (by omega)]
  rw [hsplit]
  exact key _ le_rfl

/-- One iteration delivers the first cluster of what is left of the chain. -/
theorem Delivered.readCluster {L : Layout} (hL : L.Usable) {d : Disk} {buffer data : ℕ → UInt8}
    {size bufSize : ℕ} (hsize : size < 2147483648) (i : ℕ) {x : ℕ} {xs : List ℕ} {st : ReadState}
    (hguard : 2 ≤ st.cluster ∧ st.cluster < 0xFFF8 ∧ st.bytesRead < size)
    (hc : FatChain L d st.cluster (x :: xs))
    (hdata : ∀ s < L.sectorsPerCluster, d (dataLba L x s) = fileSector L data size i s)
    (hlt : (i + 1) * (L.sectorsPerCluster * 512) < 4294967296)
    (h : Delivered buffer data size bufSize (i * (L.sectorsPerCluster * 512)) st) :
    ∃ next, BlackHole.readCluster L d size bufSize st = .inr next ∧ FatChain L d next.cluster xs ∧
      Delivered buffer data size bufSize ((i + 1) * (L.sectorsPerCluster * 512)) next := by
  have hbody : BlackHole.readCluster L d size bufSize st = .inr _ := if_pos hguard
  obtain ⟨ys, heq, hrest⟩ := hc.readCluster_next hL.toWellFormed hbody
  obtain ⟨rfl, rfl⟩ := List.cons.inj heq
  have hnext := h.readSectors hL.toWellFormed hsize hguard.1 (by omega) (by omega) hdata
  exact ⟨_, hbody, hrest, hnext.bytesRead, hnext.buffer⟩

/-- The whole walk along what is left of the chain. -/
theorem Delivered.readCluster_iterate {L : Layout} (hL : L.Usable) {d : Disk}
    {buffer data : ℕ → UInt8} {size bufSize : ℕ} (hsize : size < 2147483648) :
    ∀ (xs : List ℕ) (i : ℕ) (st : ReadState),
    FatChain L d st.cluster xs →
    (∀ j c, xs[j]? = some c → ∀ s < L.sectorsPerCluster,
      d (dataLba L c s) = fileSector L data size (i + j) s) →
    size ≤ (i + xs.length) * (L.sectorsPerCluster * 512) →
    (i + xs.length) * (L.sectorsPerCluster * 512) < 4294967296 →
    Delivered buffer data size bufSize (i * (L.sectorsPerCluster * 512)) st →
    ∃ st', (∀ fuel, xs.length < fuel →
      Loop.iterate (BlackHole.readCluster L d size bufSize) fuel st = some st') ∧
      Delivered buffer data size bufSize size st' := by
  intro xs
  induction xs with
  | nil =>
      intro i st hc _ hsz _ hdel
      have hend : 0xFFF8 ≤ st.cluster := hc.follows
      refine ⟨st, Loop.iterate_exit_of_lt 0 (if_neg (by omega)), ?_, hdel.buffer⟩
      have hread := hdel.bytesRead
      simp only [List.length_nil, Nat.add_zero] at hsz
      omega
  | cons x xs ih =>
      intro i st hc hdata hsz hlt hdel
      have hst : st.cluster = x := hc.follows.1
      have hx := hc.range x (List.mem_cons_self ..)
      have hlen : i + (x :: xs).length = i + 1 + xs.length := by simp; omega
      rw [hlen] at hsz hlt
      by_cases hguard : 2 ≤ st.cluster ∧ st.cluster < 0xFFF8 ∧ st.bytesRead < size
      · have hi : (i + 1) * (L.sectorsPerCluster * 512)
            ≤ (i + 1 + xs.length) * (L.sectorsPerCluster * 512) :=
          Nat.mul_le_mul_right _ (by omega)
        obtain ⟨next, hbody, hrest, hnext⟩ := hdel.readCluster hL hsize i hguard hc
          (hdata 0 x rfl) (by omega)
        have hdata' : ∀ j c, xs[j]? = some c → ∀ s < L.sectorsPerCluster,
            d (dataLba L c s) = fileSector L data size (i + 1 + j) s := by
          intro j c hj s hs
          rw [hdata (j + 1) c hj s hs]
          congr 1
          omega
        obtain ⟨st', hrun, hdel'⟩ := ih (i + 1) next hrest hdata' hsz hlt hnext
        exact ⟨st', Loop.iterate_again_of_lt hbody hrun, hdel'⟩
      · have hbody : BlackHole.readCluster L d size bufSize st = .inl st := if_neg hguard
        refine ⟨st, Loop.iterate_exit_of_lt _ hbody, ?_, hdel.buffer⟩
        have hread := hdel.bytesRead
        omega

/-! ## Reading by name -/

theorem fat16ReadFile_found {L : Layout} (hL : L.WellFormed) {d : Disk} {name : List UInt8} {k : ℕ}
    (hk : ResolvesTo L d name k) (fuel : ℕ) (buffer : ℕ → UInt8) (bufSize : ℕ) :
    fat16ReadFile fuel L d name buffer bufSize
      = (Loop.iterate (readCluster L d (rootEntry L d k).fileSize bufSize) fuel
          ⟨(rootEntry L d k).firstClusterLo, 0, buffer⟩).map
        fun st => (toInt st.bytesRead, st.buffer) := by
  simp only [fat16ReadFile, hk.findEntry_eq hL, ataReadSector, u32_rootLba hL hk.slot]
  rfl

theorem fat16ReadFile_notFound {L : Layout} (hL : L.WellFormed) {d : Disk} {name : List UInt8}
    (h : ∀ k, ¬ ResolvesTo L d name k) (fuel : ℕ) (buffer : ℕ → UInt8) (bufSize : ℕ) :
    fat16ReadFile fuel L d name buffer bufSize = some (-1, buffer) := by
  simp only [fat16ReadFile, (findEntry_eq_none_iff hL).2 h]

/-- Reading returns in every volume in order. -/
theorem fat16ReadFile_returns {L : Layout} (hL : L.Usable) {d : Disk} {own : ℕ → List ℕ}
    (h : VolumeInv L d own) (name : List UInt8) (buffer : ℕ → UInt8) (bufSize : ℕ) :
    ∃ r, ∀ fuel, 2046 < fuel → fat16ReadFile fuel L d name buffer bufSize = some r := by
  by_cases hex : ∃ k, ResolvesTo L d name k
  · obtain ⟨k, hk⟩ := hex
    have hchain := h.chain k ⟨hk.slot, hk.live⟩
    have hlen := hchain.length_le
    obtain ⟨st, hst⟩ := readCluster_iterate_returns hL (rootEntry L d k).fileSize bufSize
      hchain buffer
    refine ⟨(toInt st.bytesRead, st.buffer), fun fuel hfuel => ?_⟩
    rw [fat16ReadFile_found hL.toWellFormed hk, hst fuel (by omega), Option.map_some]
  · exact ⟨(-1, buffer), fun fuel _ =>
      fat16ReadFile_notFound hL.toWellFormed (fun k hk => hex ⟨k, hk⟩) fuel
      buffer bufSize⟩

/-- Reading depends on the file the name resolves to, and on nothing else: two disks that keep it
    are read alike, at every amount of fuel. -/
theorem fat16ReadFile_congr {L : Layout} (hL : L.Usable) {d d' : Disk} {own : ℕ → List ℕ}
    (h : VolumeInv L d own) {name : List UInt8}
    (hresolve : ∀ k, ResolvesTo L d' name k ↔ ResolvesTo L d name k)
    (hkept : ∀ k, ResolvesTo L d name k → Kept L d d' k (own k)) (fuel : ℕ) (buffer : ℕ → UInt8)
    (bufSize : ℕ) :
    fat16ReadFile fuel L d' name buffer bufSize = fat16ReadFile fuel L d name buffer bufSize := by
  have hL' := hL.toWellFormed
  by_cases hex : ∃ k, ResolvesTo L d name k
  · obtain ⟨k, hk⟩ := hex
    have hkept := hkept k hk
    rw [fat16ReadFile_found hL' hk, fat16ReadFile_found hL' ((hresolve k).2 hk), hkept.entry,
      readCluster_iterate_congr hL (h.chain k ⟨hk.slot, hk.live⟩) hkept.fat hkept.data]
  · have hnone : ∀ k, ¬ ResolvesTo L d name k := fun k hk => hex ⟨k, hk⟩
    rw [fat16ReadFile_notFound hL' hnone,
      fat16ReadFile_notFound hL' fun k hk => hnone k ((hresolve k).1 hk)]

/-- A file whose chain holds its data is read back: the prefix that fits into the buffer, and
    nothing of the buffer behind it is touched. -/
theorem fat16ReadFile_delivers {L : Layout} (hL : L.Usable) {d : Disk} {name : List UInt8} {k : ℕ}
    (hk : ResolvesTo L d name k) {data : ℕ → UInt8} {size : ℕ} (bufSize : ℕ) {cs : List ℕ}
    (hchain : FatChain L d (rootEntry L d k).firstClusterLo cs)
    (hdata : HasData L d data size cs) (hfile : (rootEntry L d k).fileSize = size)
    (hsize : size < 2147483648) (hfit : size ≤ cs.length * (L.sectorsPerCluster * 512))
    (hlen : cs.length * (L.sectorsPerCluster * 512) < 4294967296) (buffer : ℕ → UInt8) :
    ∀ fuel, 2046 < fuel → fat16ReadFile fuel L d name buffer bufSize
      = some (((min size bufSize : ℕ) : ℤ), memcpy buffer 0 data (min size bufSize)) := by
  intro fuel hfuel
  have hcount := hchain.length_le
  have hstart : Delivered buffer data size bufSize (0 * (L.sectorsPerCluster * 512))
      ⟨(rootEntry L d k).firstClusterLo, 0, buffer⟩ := ⟨by simp, (memcpy_zero _ _ _).symm⟩
  obtain ⟨st, hrun, hread, hdel⟩ := Delivered.readCluster_iterate hL hsize cs 0 _ hchain
    (fun j c hj => by rw [Nat.zero_add]; exact hdata j c hj)
    (by rwa [Nat.zero_add]) (by rwa [Nat.zero_add]) hstart
  have hmin : st.bytesRead = min size bufSize := by omega
  rw [fat16ReadFile_found hL.toWellFormed hk, hfile, hrun fuel (by omega),
    Option.map_some, hdel, hmin, toInt_of_lt (Nat.lt_of_le_of_lt (Nat.min_le_left ..) hsize)]

end BlackHole
