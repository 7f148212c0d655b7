import Mathlib.Data.List.Basic
import Mathlib.Data.List.Count
import Mathlib.Data.List.Nodup
import BlackHole.Lib.LinkedRing

set_option autoImplicit false

/-! # Taking turns

The members of a list take turns in the order of the list, over and over, while others join at its
end. Between two turns of one member every other has exactly one turn, in order, and of those that
have joined in between some first ones have one, too (`Turns.round`). -/

universe u

variable {α : Type u}

/-- The members, and the position of the one whose turn it is. -/
structure Rota (α : Type u) where
  members : List α
  turn : ℕ

namespace Rota

/-- Nothing happens, somebody joins, or the turn passes to the next member. -/
inductive Step (r : Rota α) : Option α → Rota α → Prop where
  | idles : Step r none r
  | joins {x : α} (hx : x ∉ r.members) : Step r none ⟨r.members ++ [x], r.turn⟩
  | passes {x : α} (hx : r.members[(r.turn + 1) % r.members.length]? = some x) :
      Step r (some x) ⟨r.members, (r.turn + 1) % r.members.length⟩

/-- A sequence of steps, with those who have had a turn. -/
inductive Turns (r : Rota α) : List α → Rota α → Prop where
  | refl : Turns r [] r
  | tail {l : List α} {o : Option α} {r' r'' : Rota α} (h : Turns r l r') (hs : Step r' o r'') :
      Turns r (l ++ o.toList) r''

theorem Step.nodup {r r' : Rota α} {o : Option α} (h : Step r o r') (hr : r.members.Nodup) :
    r'.members.Nodup := by
  cases h with
  | idles => exact hr
  | joins hx => exact List.concat_eq_append ▸ hr.concat hx
  | passes _ => exact hr

theorem Turns.nodup {r r' : Rota α} {l : List α} (h : Turns r l r') (hr : r.members.Nodup) :
    r'.members.Nodup := by
  induction h with
  | refl => exact hr
  | tail _ hs ih => exact hs.nodup ih

/-- How far a round from `t`, between `pre` and `post`, has come: the turn is still ahead of `t`, or it
    has gone round the end of the list. -/
inductive Progress (pre : List α) (t : α) (post : List α) (r : Rota α) (l : List α) : Prop where
  | ahead (rest : List α) (hmembers : r.members = pre ++ t :: (l ++ rest))
      (hpost : post <+: l ++ rest) (hturn : r.turn = pre.length + l.length)
  | around (new rest p p' : List α) (hmembers : r.members = pre ++ t :: (post ++ new ++ rest))
      (hpre : pre = p ++ p') (hturns : l = post ++ new ++ p) (hturn : r.turn + 1 = p.length)

section

variable {pre post l : List α} {t x : α} {r r' : Rota α}

/-- Joining the list changes nothing about the round. -/
theorem Progress.joins (h : Progress pre t post r l) :
    Progress pre t post ⟨r.members ++ [x], r.turn⟩ l := by
  cases h with
  | ahead rest hmembers hpost hturn =>
      refine .ahead (rest ++ [x]) ?_ ?_ hturn
      · simp [hmembers]
      · rw [← List.append_assoc]
        exact hpost.trans (List.prefix_append _ _)
  | around new rest p p' hmembers hpre hturns hturn =>
      exact .around new (rest ++ [x]) p p' (by simp [hmembers]) hpre hturns hturn

/-- The turn passes to the next one behind, or from the last one to the first. -/
theorem Progress.passes_ahead {rest : List α} (hnodup : r.members.Nodup)
    (hmembers : r.members = pre ++ t :: (l ++ rest)) (hpost : post <+: l ++ rest)
    (hturn : r.turn = pre.length + l.length)
    (hx : r.members[(r.turn + 1) % r.members.length]? = some x) :
    x ≠ t ∧ Progress pre t post ⟨r.members, (r.turn + 1) % r.members.length⟩ (l ++ [x]) ∨
      x = t ∧ ∃ new rest, r.members = pre ++ t :: (post ++ new ++ rest) ∧ l = post ++ new ++ pre := by
  rw [hmembers, List.nodup_middle, List.nodup_cons] at hnodup
  have hlen : r.members.length = pre.length + l.length + rest.length + 1 := by
    rw [hmembers, List.length_append, List.length_cons, List.length_append]
    omega
  cases rest with
  | cons y rest =>
      rw [List.length_cons] at hlen
      have hmod : (r.turn + 1) % r.members.length = pre.length + l.length + 1 := by
        rw [Nat.mod_eq_of_lt (by omega), hturn]
      obtain rfl : y = x := by
        rw [hmod, hmembers, Nat.add_assoc, List.getElem?_append_right (by omega)] at hx
        simpa using hx
      refine Or.inl ⟨?_, .ahead rest ?_ ?_ ?_⟩
      · rintro rfl
        exact hnodup.1 (by simp)
      · simp [hmembers]
      · simpa using hpost
      · rw [hmod, List.length_append, List.length_singleton, Nat.add_assoc]
  | nil =>
      have hmod : (r.turn + 1) % r.members.length = 0 := by
        rw [hturn, hlen, List.length_nil, Nat.add_zero, Nat.mod_self]
      rw [hmod] at hx
      rw [List.append_nil] at hpost hmembers
      obtain ⟨new, rfl⟩ := hpost
      cases pre with
      | nil =>
          refine Or.inr ⟨by simpa [hmembers, eq_comm] using hx, new, [], ?_, by simp⟩
          simpa using hmembers
      | cons a pre =>
          obtain rfl : a = x := by simpa [hmembers] using hx
          refine Or.inl ⟨?_, .around new [] [a] pre
            (by simpa using hmembers) rfl rfl (by simp [hmod])⟩
          rintro rfl
          exact hnodup.1 (by simp)

/-- The turn passes through those in front of `t`, and then to `t`. -/
theorem Progress.passes_around {new rest p p' : List α} (hnodup : r.members.Nodup)
    (hmembers : r.members = pre ++ t :: (post ++ new ++ rest)) (hpre : pre = p ++ p')
    (hturns : l = post ++ new ++ p) (hturn : r.turn + 1 = p.length)
    (hx : r.members[(r.turn + 1) % r.members.length]? = some x) :
    x ≠ t ∧ Progress pre t post ⟨r.members, (r.turn + 1) % r.members.length⟩ (l ++ [x]) ∨
      x = t ∧ ∃ new rest, r.members = pre ++ t :: (post ++ new ++ rest) ∧ l = post ++ new ++ pre := by
  rw [hmembers, List.nodup_middle, List.nodup_cons] at hnodup
  have hmod : (r.turn + 1) % r.members.length = p.length := by
    have hlen : p.length < r.members.length := by
      rw [hmembers, hpre, List.length_append, List.length_append, List.length_cons]
      omega
    rw [hturn, Nat.mod_eq_of_lt hlen]
  rw [hmod, hmembers, hpre] at hx
  cases p' with
  | nil =>
      rw [List.append_nil] at hpre
      exact Or.inr ⟨by simpa [eq_comm] using hx, new, rest, hmembers, by rw [hturns, hpre]⟩
  | cons a p' =>
      obtain rfl : a = x := by simpa using hx
      refine Or.inl ⟨?_, .around new rest (p ++ [a]) p' hmembers (by simp [hpre])
        (by simp [hturns]) ?_⟩
      · rintro rfl
        exact hnodup.1 (by simp [hpre])
      · rw [hmod, List.length_append, List.length_singleton]

/-- Who is next in a round: the next one behind, after the last one the first, and in the end `t`. -/
theorem Progress.passes (h : Progress pre t post r l) (hnodup : r.members.Nodup)
    (hx : r.members[(r.turn + 1) % r.members.length]? = some x) :
    x ≠ t ∧ Progress pre t post ⟨r.members, (r.turn + 1) % r.members.length⟩ (l ++ [x]) ∨
      x = t ∧ ∃ new rest, r.members = pre ++ t :: (post ++ new ++ rest) ∧ l = post ++ new ++ pre := by
  cases h with
  | ahead rest hmembers hpost hturn => exact passes_ahead hnodup hmembers hpost hturn hx
  | around new rest p p' hmembers hpre hturns hturn =>
      exact passes_around hnodup hmembers hpre hturns hturn hx

/-- While `t` has no turn the round goes on. -/
theorem Turns.progress (h : Turns r l r') (hnodup : r.members.Nodup)
    (hmembers : r.members = pre ++ t :: post) (hturn : r.turn = pre.length) (ht : t ∉ l) :
    Progress pre t post r' l := by
  induction h with
  | refl => exact .ahead post (by simpa using hmembers) (by simp) (by simpa using hturn)
  | tail h hs ih =>
      rw [List.mem_append, not_or] at ht
      have hprogress := ih ht.1
      cases hs with
      | idles => simpa using hprogress
      | joins _ => simpa using hprogress.joins
      | passes hx =>
          rcases hprogress.passes (h.nodup hnodup) hx with hgo | hend
          · exact hgo.2
          · exact absurd hend.1.symm (by simpa using ht.2)

/-- One round, from a turn of `t` to its next one: those behind `t`, those of the new ones that have
    joined in time, those before `t`. -/
theorem Turns.round (h : Turns r l r') (hnodup : r.members.Nodup)
    (hmembers : r.members = pre ++ t :: post) (hturn : r.turn = pre.length) (ht : t ∉ l)
    {r'' : Rota α} (hs : Step r' (some t) r'') :
    ∃ new rest, r'.members = pre ++ t :: (post ++ new ++ rest) ∧ l = post ++ new ++ pre := by
  cases hs with
  | passes hx =>
      rcases (h.progress hnodup hmembers hturn ht).passes (h.nodup hnodup) hx with hgo | hend
      · exact absurd rfl hgo.1
      · exact hend.2

/-- In one round nobody has two turns, everybody who was there has one, and those in order. -/
theorem Turns.fair [DecidableEq α] (h : Turns r l r') (hnodup : r.members.Nodup)
    (hmembers : r.members = pre ++ t :: post) (hturn : r.turn = pre.length) (ht : t ∉ l)
    {r'' : Rota α} (hs : Step r' (some t) r'') :
    l.Nodup ∧ (∀ u ∈ r.members, u ≠ t → u ∈ l) ∧ l.filter (· ∈ r.members) = post ++ pre := by
  obtain ⟨new, rest, hmembers', rfl⟩ := h.round hnodup hmembers hturn ht hs
  have hdup := h.nodup hnodup
  rw [hmembers', List.nodup_middle, List.nodup_cons] at hdup
  obtain ⟨ht', hdup⟩ := hdup
  obtain ⟨hpre, hbehind, hapart⟩ := List.nodup_append.1 hdup
  have hnewpost := (List.nodup_append.1 hbehind).1
  refine ⟨List.nodup_append.2 ⟨hnewpost, hpre, fun a ha b hb hab => ?_⟩, fun u hu hut => ?_, ?_⟩
  · exact hapart b hb a (List.mem_append_left _ ha) hab.symm
  · rw [hmembers] at hu
    simp only [List.mem_append, List.mem_cons] at hu ⊢
    tauto
  · have hin : ∀ u ∈ post ++ pre, u ∈ r.members := by
      intro u hu
      rw [hmembers]
      simp only [List.mem_append, List.mem_cons] at hu ⊢
      tauto
    have hout : ∀ u ∈ new, u ∉ r.members := by
      intro u hu hmem
      rw [hmembers] at hmem
      simp only [List.mem_append, List.mem_cons] at hmem ht'
      rcases hmem with hmem | rfl | hmem
      · exact hapart u hmem u (by simp [hu]) rfl
      · exact ht' (by simp [hu])
      · exact (List.nodup_append.1 hnewpost).2.2 u hmem u hu rfl
    rw [List.filter_append, List.filter_append, List.filter_eq_self.2 fun u hu => ?_,
      List.filter_eq_nil_iff.2 fun u hu => ?_, List.filter_eq_self.2 fun u hu => ?_, List.append_nil]
    · simpa using hin u (List.mem_append_right _ hu)
    · simpa using hout u hu
    · simpa using hin u (List.mem_append_left _ hu)

end

end Rota
