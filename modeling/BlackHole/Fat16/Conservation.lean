import BlackHole.Fat16.RoundTrip

set_option autoImplicit false

/-! # Lost clusters

Which calls lose clusters: a cluster is lost when its FAT entry is not free and no live entry's
chain contains it. Deletes lose none; a write loses none exactly if it succeeds under a name that
does not look deleted, or finds neither an old version nor a free cluster
(`Step.noClusterLost_iff`). -/

namespace BlackHole

open Bytes

/-- The used clusters are exactly those of the live entries' chains. -/
def NoClusterLost (L : Layout) (d : Disk) : Prop :=
  ∀ c, 2 ≤ c → c < 2048 → (fatEntry L d 0 c ≠ 0 ↔
    ∃ k cs, LiveSlot L d k ∧ FatChain L d (rootEntry L d k).firstClusterLo cs ∧ c ∈ cs)

/-- Every used cluster has an owner. -/
def Accounted (L : Layout) (d : Disk) (own : ℕ → List ℕ) : Prop :=
  ∀ c, 2 ≤ c → c < 2048 → fatEntry L d 0 c ≠ 0 → ∃ k, c ∈ own k

theorem VolumeInv.noClusterLost_iff {L : Layout} {d : Disk} {own : ℕ → List ℕ}
    (h : VolumeInv L d own) : NoClusterLost L d ↔ Accounted L d own := by
  constructor
  · intro hno c h2 hlt hne
    obtain ⟨k, cs, hk, hcs, hc⟩ := (hno c h2 hlt).1 hne
    exact ⟨k, hcs.follows.unique (h.chain k hk).follows ▸ hc⟩
  · intro hacc c h2 hlt
    refine ⟨fun hne => ?_, fun ⟨k, cs, _, hcs, hc⟩ => hcs.entry_ne_zero c hc⟩
    obtain ⟨k, hk⟩ := hacc c h2 hlt hne
    have hlive := h.live_iff.2 (List.ne_nil_of_mem hk)
    exact ⟨k, own k, hlive, h.chain k hlive, hk⟩

/-- Deleting loses nothing: what is no longer owned is free. -/
theorem AfterDelete.accounted {L : Layout} (hL : L.Usable) {d d₁ : Disk} {own own₁ : ℕ → List ℕ}
    {name : List UInt8} (ha : AfterDelete L d own name d₁ own₁) (hacc : Accounted L d own) :
    Accounted L d₁ own₁ := by
  rcases ha.effect with ⟨rfl, rfl, -⟩ | ⟨k, hk, hd, rfl⟩
  · exact hacc
  · intro c h2 hlt hne
    rw [hd.fatEntry_eq hL.toWellFormed hk.slot hL.numFats_pos (lt_fatEntries hL hlt)] at hne
    split at hne
    · exact absurd rfl hne
    · next hfree =>
        obtain ⟨j, hj⟩ := hacc c h2 hlt hne
        refine ⟨j, ?_⟩
        rw [Function.update_of_ne]
        · exact hj
        · rintro rfl
          exact hfree hj

/-- After threading free clusters the used ones are the old ones and those. -/
theorem Written.entry_ne_zero_iff {L : Layout} (hL : L.Usable) {d d' : Disk} {data : ℕ → UInt8}
    {size n : ℕ} (hw : Written L data size d d' ((freeClusters L d).take n)) {c : ℕ}
    (hc : c < 2048) :
    fatEntry L d' 0 c ≠ 0 ↔ fatEntry L d 0 c ≠ 0 ∨ c ∈ (freeClusters L d).take n := by
  by_cases hmem : c ∈ (freeClusters L d).take n
  · obtain ⟨x, hx⟩ : ∃ x, ((freeClusters L d).take n).head? = some x := by
      cases htake : (freeClusters L d).take n with
      | nil => simp [htake] at hmem
      | cons x xs => exact ⟨x, rfl⟩
    have hchain := hw.fatChain hL hx (freeClusters_take_nodup L d n) freeClusters_take_range
    exact iff_of_true (hchain.entry_ne_zero c hmem) (Or.inr hmem)
  · rw [hw.entry 0 hL.numFats_pos c (lt_fatEntries hL hc), Chain.link_of_not_mem _ hmem]
    simp [hmem]

/-- A write that enters nothing has lost the clusters it has taken. -/
theorem Written.accounted_iff {L : Layout} (hL : L.Usable) {d d' : Disk} {own : ℕ → List ℕ}
    (h : VolumeInv L d own) (hacc : Accounted L d own) {data : ℕ → UInt8} {size n : ℕ}
    (hw : Written L data size d d' ((freeClusters L d).take n)) :
    Accounted L d' own ↔ (freeClusters L d).take n = [] := by
  constructor
  · intro hacc'
    rw [List.eq_nil_iff_forall_not_mem]
    intro c hc
    have hrange := freeClusters_take_range c hc
    obtain ⟨k, hk⟩ := hacc' c hrange.1 hrange.2 ((hw.entry_ne_zero_iff hL hrange.2).2 (Or.inr hc))
    exact (h.owned hk).2 (mem_freeClusters.1 (List.mem_of_mem_take hc)).2
  · intro hnil c h2 hlt hne
    rw [hw.entry_ne_zero_iff hL hlt, hnil] at hne
    exact hacc c h2 hlt (by simpa using hne)

/-- The file entered owns the clusters it has taken. -/
theorem Written.accounted_update {L : Layout} (hL : L.Usable) {d d' : Disk} {own : ℕ → List ℕ}
    (h : VolumeInv L d own) (hacc : Accounted L d own) {data : ℕ → UInt8} {size n k : ℕ}
    (hw : Written L data size d d' ((freeClusters L d).take n)) (hk : FirstFree L d k) :
    Accounted L d' (Function.update own k ((freeClusters L d).take n)) := by
  intro c h2 hlt hne
  rcases (hw.entry_ne_zero_iff hL hlt).1 hne with hold | hnew
  · obtain ⟨j, hj⟩ := hacc c h2 hlt hold
    refine ⟨j, ?_⟩
    rw [Function.update_of_ne]
    · exact hj
    · rintro rfl
      exact hk.free (h.live_iff.2 (List.ne_nil_of_mem hj)).2
  · exact ⟨k, by rwa [Function.update_self]⟩

theorem accounted_setRootEntry {L : Layout} (hL : L.Usable) {d : Disk} {own : ℕ → List ℕ} {k : ℕ}
    {e : DirEntry} (hk : k < rootSlots L) :
    Accounted L (setRootEntry L d k e) own ↔ Accounted L d own := by
  unfold Accounted
  refine forall_congr' fun c => imp_congr_right fun _ => forall_congr' fun hlt => ?_
  rw [fatEntry_setRootEntry hL.toWellFormed d hL.numFats_pos (lt_fatEntries hL hlt) hk]

/-! ## Which calls lose nothing -/

/-- A call that loses no cluster: not a write, or one that fits, under a name that does not look
    deleted, or one that finds neither an old version nor a free cluster. -/
def Call.LosesNothing (L : Layout) (d : Disk) : Call → Prop
  | .write name _ size =>
      ((toFatName name).byte 0 ≠ 0xE5 ∧ ∃ n, clustersNeeded L size = some n ∧ Room L d name n) ∨
      ((∀ k, ¬ ResolvesTo L d name k) ∧ freeClusters L d = [])
  | .delete _ => True
  | .read _ _ _ => True

/-- Without free clusters after the delete there was neither an old version nor a free cluster. -/
theorem AfterDelete.freeClusters_eq_nil_iff {L : Layout} (hL : L.Usable) {d d₁ : Disk}
    {own own₁ : ℕ → List ℕ} {name : List UInt8} (h : VolumeInv L d own)
    (ha : AfterDelete L d own name d₁ own₁) :
    freeClusters L d₁ = [] ↔ (∀ k, ¬ ResolvesTo L d name k) ∧ freeClusters L d = [] := by
  rcases ha.effect with ⟨rfl, -, hnone⟩ | ⟨k, hk, hd, -⟩
  · exact ⟨fun hnil => ⟨hnone, hnil⟩, And.right⟩
  · have hlive : LiveSlot L d k := ⟨hk.slot, hk.live⟩
    have hlen := hd.freeClusters_length hL hk.slot (h.chain k hlive)
    have hpos := List.length_pos_iff.2 (h.nonempty k hlive)
    refine iff_of_false (fun hnil => ?_) fun hboth => hboth.1 k hk
    rw [hnil, List.length_nil] at hlen
    omega

/-- In a volume that has lost nothing, a call loses nothing exactly if `Call.LosesNothing` says so
    of the state before it. -/
theorem Step.noClusterLost_iff {L : Layout} (hL : L.Usable) {d d' : Disk} {own : ℕ → List ℕ}
    (h : VolumeInv L d own) (hno : NoClusterLost L d) {call : Call} {ret : ℤ}
    (hs : Step L d call ret d') : NoClusterLost L d' ↔ call.LosesNothing L d := by
  rw [h.noClusterLost_iff] at hno
  cases call with
  | read name buffer bufSize =>
      cases hs
      exact iff_of_true (h.noClusterLost_iff.2 hno) trivial
  | delete name =>
      obtain ⟨own₁, ha⟩ := hs.delete_inv hL h
      exact iff_of_true (ha.inv.noClusterLost_iff.2 (ha.accounted hL hno)) trivial
  | write name data size =>
      obtain ⟨d₁, own₁, n, out, ha, hn, hpos, hwrote⟩ := hs.write_inv hL h
      have hacc := ha.accounted hL hno
      have hnil := ha.freeClusters_eq_nil_iff hL h
      have hret := (hs.write_ret hL h hn).1
      simp only [Call.LosesNothing, hn, Option.some.injEq, exists_eq_left', ← hnil, ← hret]
      cases hwrote with
      | diskFull hlt hw =>
          rw [← List.take_length (l := freeClusters L d₁)] at hw
          rw [(ha.inv.alloc hL hw).noClusterLost_iff, hw.accounted_iff hL ha.inv hacc,
            List.take_length]
          simp
      | rootFull hge hw hfull =>
          rw [(ha.inv.alloc hL hw).noClusterLost_iff, hw.accounted_iff hL ha.inv hacc,
            List.take_eq_nil_iff]
          simp only [Int.reduceNeg, neg_eq_zero, one_ne_zero, and_false, false_or,
            or_iff_right_iff_imp]
          omega
      | @entered d₂ k c hge hw hk hc =>
          have hinv := ha.inv.alloc hL hw
          have hk₂ := (hw.firstFree_iff hL.toWellFormed).2 hk
          by_cases hE5 : (toFatName name).byte 0 = 0xE5
          · have hdead := hinv.insert_dead hL hk₂ (e := newEntry name c size) (by
              rw [newEntry_firstByte, hE5])
            rw [hdead.noClusterLost_iff, accounted_setRootEntry hL hk.slot,
              hw.accounted_iff hL ha.inv hacc, List.take_eq_nil_iff]
            simp only [hE5, ne_eq, not_true_eq_false, false_and, false_or, or_iff_right_iff_imp]
            omega
          · obtain ⟨own', hinv', howner⟩ :=
              ha.inv.wrote hL ha.gone
                (show Wrote L d₁ name data size n 0 _ _ from .entered hge hw hk hc)
            refine iff_of_true (hinv'.noClusterLost_iff.2 ?_) (Or.inl ⟨hE5, rfl⟩)
            rcases howner with ⟨-, hfail | hE5'⟩ | ⟨j, x, d₃, hj, -, -, -, -, rfl, hw', heq⟩
            · exact absurd hfail (by decide)
            · exact absurd hE5' hE5
            · rw [heq, accounted_setRootEntry hL hj.slot]
              exact hw'.accounted_update hL ha.inv hacc hj

theorem Formatted.noClusterLost {L : Layout} {d : Disk} (h : Formatted L d) :
    NoClusterLost L d := by
  rw [h.volumeInv.noClusterLost_iff]
  intro c h2 hlt hne
  exact absurd (h.fat_zero 0 h.numFats_pos c (lt_fatEntries h.usable hlt) h2) hne

/-- In a run whose calls satisfy `Call.LosesNothing` no cluster is ever lost, and the next call
    loses none exactly if it satisfies it too. -/
theorem fat16_no_cluster_lost {L : Layout} {d₀ d : Disk} (h₀ : Formatted L d₀)
    (hreach : Reachable L (fun d call => call.IsU32 ∧ call.LosesNothing L d) d₀ d) :
    NoClusterLost L d ∧
      ∀ call ret d', Step L d call ret d' → (NoClusterLost L d' ↔ call.LosesNothing L d) := by
  have hL := h₀.usable
  have hno : NoClusterLost L d := by
    induction hreach with
    | refl => exact h₀.noClusterLost
    | tail hrun hstep ih =>
        obtain ⟨call, ret, hok, hs⟩ := hstep
        obtain ⟨own, hinv, -⟩ := h₀.reachable hrun
        exact (hs.noClusterLost_iff hL hinv ih).2 hok.2
  obtain ⟨own, hinv, -⟩ := h₀.reachable hreach
  exact ⟨hno, fun call ret d' hs => hs.noClusterLost_iff hL hinv hno⟩

/-- The fresh image of `build.ps1` after a file of 700 bytes. -/
theorem fat16_no_cluster_lost_hddImage :
    ∃ d, Step hddLayout hddImage (.write [0x61] (fun _ => 0) 700) 0 d ∧
      NoClusterLost hddLayout d := by
  have h₀ := hddImage_formatted
  obtain ⟨d, hs⟩ := hddImage_write [0x61] (fun _ => 0) (by decide : 700 ≤ 2046 * 512)
  have hroom : Room hddLayout hddImage [0x61] 2 := h₀.room (by decide) _ (by decide)
  refine ⟨d, hs, (fat16_no_cluster_lost h₀ (Relation.ReflTransGen.single
    ⟨.write [0x61] (fun _ => 0) 700, 0, ⟨?_, Or.inl ⟨by decide, 2, by decide, hroom⟩⟩, hs⟩)).1⟩
  show 700 < 4294967296
  decide

/-- A write that fills the fresh image of `build.ps1` without coming to an end loses clusters. -/
theorem fat16_disk_full_loses_clusters :
    ∃ d, Step hddLayout hddImage (.write [0x61] (fun _ => 0) (2047 * 512)) (-1) d ∧
      ¬ NoClusterLost hddLayout d := by
  have h₀ := hddImage_formatted
  obtain ⟨d, hs⟩ := hddImage_write_fails h₀.volumeInv [0x61] fun _ => 0
  refine ⟨d, hs, fun hno => ?_⟩
  rcases (hs.noClusterLost_iff h₀.usable h₀.volumeInv h₀.noClusterLost).1 hno with
    ⟨-, n, hn, hroom⟩ | ⟨-, hnil⟩
  · obtain rfl : 2047 = n := Option.some.inj ((show _ = some 2047 by decide).symm.trans hn)
    exact absurd (hroom.le h₀.usable h₀.volumeInv) (by decide)
  · rw [h₀.freeClusters_eq] at hnil
    exact absurd hnil (by decide)

end BlackHole
