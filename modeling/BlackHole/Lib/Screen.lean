import Mathlib.Data.List.Basic

set_option autoImplicit false

/-! # Text on a screen

A `Page` is a text laid out in lines, of which the last is still being written. A screen of `h` rows
shows the last `h` lines of it, from the top when there are fewer; cells that no line reaches are
blank. The lemmas say what writing at the end of the page does to the cells of the screen. -/

namespace Screen

universe u

variable {α : Type u}

/-- A text in lines: those that are closed, and the one being written. -/
structure Page (α : Type u) where
  closed : List (List α)
  current : List α

namespace Page

def empty : Page α := ⟨[], []⟩

def lines (p : Page α) : List (List α) := p.closed ++ [p.current]

/-- Close the current line. -/
def newline (p : Page α) : Page α := ⟨p.closed ++ [p.current], []⟩

/-- Close the current line if it has reached `w` cells. -/
def close (w : ℕ) (p : Page α) : Page α := if w ≤ p.current.length then p.newline else p

/-- Write cells at the end of the current line. -/
def extend (p : Page α) (cells : List α) : Page α := { p with current := p.current ++ cells }

/-- The number of lines above the screen. -/
def top (h : ℕ) (p : Page α) : ℕ := p.closed.length + 1 - h

/-- The row of the screen that shows the current line. -/
def row (h : ℕ) (p : Page α) : ℕ := p.closed.length - p.top h

/-- The cell in row `r` and column `c` of the screen. -/
def cell (blank : α) (h : ℕ) (p : Page α) (r c : ℕ) : α :=
  ((p.lines[p.top h + r]?.getD [])[c]?).getD blank

variable {h w : ℕ} {blank : α} {p : Page α}

theorem length_lines (p : Page α) : p.lines.length = p.closed.length + 1 := by
  simp [lines]

/-- The rows of the screen are the last `h` lines. -/
theorem cell_eq_drop (blank : α) (h : ℕ) (p : Page α) (r c : ℕ) :
    p.cell blank h r c
      = (((p.lines.drop (p.lines.length - h))[r]?.getD [])[c]?).getD blank := by
  rw [List.getElem?_drop, length_lines]
  rfl

theorem row_lt (hh : 0 < h) : p.row h < h := by
  unfold row top
  omega

theorem top_add_row (hh : 0 < h) : p.top h + p.row h = p.closed.length := by
  unfold row top
  omega

@[simp] theorem cell_empty (blank : α) (h r c : ℕ) : (empty : Page α).cell blank h r c = blank := by
  unfold cell
  generalize (empty : Page α).top h + r = i
  cases i <;> simp [lines, empty]

/-! ## Writing in the current line -/

theorem lines_getElem?_of_ne {i : ℕ} (cells : List α) (hi : i ≠ p.closed.length) :
    (p.extend cells).lines[i]? = p.lines[i]? := by
  unfold lines extend
  rcases Nat.lt_or_ge i p.closed.length with hlt | hge
  · rw [List.getElem?_append_left hlt, List.getElem?_append_left hlt]
  · rw [List.getElem?_eq_none (by simp; omega), List.getElem?_eq_none (by simp; omega)]

/-- A cell in another row keeps its value. -/
theorem cell_extend_of_ne (hh : 0 < h) {r : ℕ} (cells : List α) (c : ℕ) (hr : r ≠ p.row h) :
    (p.extend cells).cell blank h r c = p.cell blank h r c := by
  have hi : p.top h + r ≠ p.closed.length := by
    have := top_add_row (p := p) hh
    omega
  unfold cell
  rw [show (p.extend cells).top h = p.top h from rfl, lines_getElem?_of_ne cells hi]

theorem cell_row (hh : 0 < h) (c : ℕ) :
    p.cell blank h (p.row h) c = (p.current[c]?).getD blank := by
  unfold cell lines
  rw [top_add_row hh, List.getElem?_append_right (Nat.le_refl _), Nat.sub_self]
  rfl

/-- One more cell: it stands where the current line ended. -/
theorem cell_extend_one (hh : 0 < h) (a : α) (r c : ℕ) :
    (p.extend [a]).cell blank h r c
      = if r = p.row h ∧ c = p.current.length then a else p.cell blank h r c := by
  by_cases hr : r = p.row h
  · subst hr
    have hrow : p.row h = (p.extend [a]).row h := rfl
    rw [cell_row hh, hrow, cell_row hh]
    unfold extend
    rcases Nat.lt_trichotomy c p.current.length with hlt | rfl | hgt
    · rw [if_neg (by omega), List.getElem?_append_left hlt]
    · rw [if_pos ⟨rfl, rfl⟩]
      simp
    · rw [if_neg (by omega), List.getElem?_eq_none (by simp; omega),
        List.getElem?_eq_none (by omega)]
  · rw [if_neg (fun hc => hr hc.1), cell_extend_of_ne hh [a] c hr]

/-- Blanks at the end of the line do not show. -/
theorem cell_extend_blanks (hh : 0 < h) (n r c : ℕ) :
    (p.extend (List.replicate n blank)).cell blank h r c = p.cell blank h r c := by
  by_cases hr : r = p.row h
  · subst hr
    have hrow : p.row h = (p.extend (List.replicate n blank)).row h := rfl
    rw [cell_row hh, hrow, cell_row hh]
    unfold extend
    rcases Nat.lt_or_ge c p.current.length with hlt | hge
    · rw [List.getElem?_append_left hlt]
    · rw [List.getElem?_append_right hge, List.getElem?_replicate, List.getElem?_eq_none hge]
      split <;> rfl
  · exact cell_extend_of_ne hh _ c hr

/-! ## Starting a line -/

theorem newline_lines (p : Page α) : p.newline.lines = p.lines ++ [[]] := rfl

/-- While the lines fit on the screen, a new line does not move the others. -/
theorem newline_above (hp : p.closed.length + 1 < h) (r c : ℕ) :
    p.newline.row h = p.row h + 1
      ∧ p.newline.cell blank h r c = p.cell blank h r c := by
  have htop : p.top h = 0 := by
    unfold top
    omega
  have htop' : p.newline.top h = 0 := by
    simp only [top, newline, List.length_append, List.length_singleton]
    omega
  refine ⟨?_, ?_⟩
  · unfold row
    rw [htop, htop']
    simp [newline]
  · unfold cell
    rw [htop, htop', newline_lines]
    rcases Nat.lt_trichotomy (0 + r) p.lines.length with hlt | heq | hgt
    · rw [List.getElem?_append_left hlt]
    · rw [heq, List.getElem?_append_right (Nat.le_refl _), Nat.sub_self, List.getElem?_eq_none
        (Nat.le_refl _)]
      rfl
    · have hold : p.lines[0 + r]? = none := List.getElem?_eq_none (by omega)
      have hnew : (p.lines ++ [[]])[0 + r]? = none := by
        apply List.getElem?_eq_none
        rw [List.length_append, List.length_singleton]
        omega
      rw [hold, hnew]

/-- On a full screen a new line moves the others one row up and leaves the last row blank. -/
theorem newline_last (hh : 0 < h) (hp : h ≤ p.closed.length + 1) {r : ℕ} (hr : r < h) (c : ℕ) :
    p.newline.row h = h - 1 ∧ p.row h = h - 1
      ∧ p.newline.cell blank h r c = if r = h - 1 then blank else p.cell blank h (r + 1) c := by
  have htop : p.newline.top h = p.top h + 1 := by
    simp only [top, newline, List.length_append, List.length_singleton]
    omega
  refine ⟨?_, ?_, ?_⟩
  · unfold row
    rw [htop]
    simp only [newline, List.length_append, List.length_singleton]
    unfold top
    omega
  · unfold row top
    omega
  · unfold cell
    rw [htop, newline_lines, Nat.add_right_comm (p.top h) 1 r, Nat.add_assoc]
    split
    next hlast =>
      have hend : p.top h + (r + 1) = p.lines.length := by
        rw [length_lines]
        unfold top
        omega
      rw [hend, List.getElem?_append_right (Nat.le_refl _), Nat.sub_self]
      rfl
    next hne =>
      have hlt : p.top h + (r + 1) < p.lines.length := by
        rw [length_lines]
        unfold top
        omega
      rw [List.getElem?_append_left hlt]

end Page

end Screen
