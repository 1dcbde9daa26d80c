import Mathlib.Data.List.Basic
import Mathlib.Data.Nat.Notation

/-!
# Lines

A stream of values cut at a separator: its complete lines, without their separators, and
what follows the last separator.
-/

namespace TmkDcl

section Lines

variable {α : Type*} {sep : α} {l s : List α} {ls : List (List α)}

/-- Some lines, each with its separator. -/
def unlines (sep : α) (ls : List (List α)) : List α := (ls.map (· ++ [sep])).flatten

theorem unlines_concat : unlines sep (ls ++ [l]) = unlines sep ls ++ l ++ [sep] := by
  simp [unlines]

variable [DecidableEq α]

/-- The complete lines of a stream. -/
def lines (sep : α) : List α → List (List α)
  | [] => []
  | a :: as =>
    if a = sep then [] :: lines sep as
    else match lines sep as with
      | [] => []
      | l :: ls => (a :: l) :: ls

/-- What follows the last separator. -/
def lineRest (sep : α) : List α → List α
  | [] => []
  | a :: as => if sep ∈ a :: as then lineRest sep as else a :: as

theorem lines_of_not_mem (h : sep ∉ s) : lines sep s = [] := by
  induction s with
  | nil => rfl
  | cons a as ih =>
    have ha : a ≠ sep := fun he => h (he ▸ List.mem_cons_self)
    have has : sep ∉ as := fun hm => h (List.mem_cons_of_mem _ hm)
    simp only [lines, if_neg ha, ih has]

theorem lines_line (h : sep ∉ l) : lines sep (l ++ sep :: s) = l :: lines sep s := by
  induction l with
  | nil => simp [lines]
  | cons a as ih =>
    have ha : a ≠ sep := fun he => h (he ▸ List.mem_cons_self)
    have has : sep ∉ as := fun hm => h (List.mem_cons_of_mem _ hm)
    simp only [List.cons_append, lines, if_neg ha, ih has]

theorem lineRest_of_not_mem (h : sep ∉ s) : lineRest sep s = s := by
  cases s with
  | nil => rfl
  | cons a as => exact if_neg h

theorem lineRest_line : lineRest sep (l ++ sep :: s) = lineRest sep s := by
  induction l with
  | nil => exact if_pos List.mem_cons_self
  | cons a as ih =>
    have hm : sep ∈ a :: (as ++ sep :: s) := by simp
    simp only [List.cons_append, lineRest, if_pos hm, ih]

theorem lines_unlines_append (h : ∀ l ∈ ls, sep ∉ l) :
    lines sep (unlines sep ls ++ s) = ls ++ lines sep s := by
  induction ls with
  | nil => rfl
  | cons l ls ih =>
    have hcons : unlines sep (l :: ls) ++ s = l ++ sep :: (unlines sep ls ++ s) := by
      simp [unlines]
    rw [hcons, lines_line (h l List.mem_cons_self), ih fun x hx => h x (List.mem_cons_of_mem _ hx)]
    rfl

theorem lineRest_unlines_append : lineRest sep (unlines sep ls ++ s) = lineRest sep s := by
  induction ls with
  | nil => rfl
  | cons l ls ih =>
    have hcons : unlines sep (l :: ls) ++ s = l ++ sep :: (unlines sep ls ++ s) := by
      simp [unlines]
    rw [hcons, lineRest_line, ih]

/-- A stream without a separator, or a line and a stream that it was proved of. -/
theorem lines_induction (sep : α) {P : List α → Prop} (hrest : ∀ s, sep ∉ s → P s)
    (hline : ∀ l s, sep ∉ l → P s → P (l ++ sep :: s)) (s : List α) : P s := by
  induction hn : s.length using Nat.strongRecOn generalizing s with
  | _ n ih =>
    by_cases hm : sep ∈ s
    · obtain ⟨l, t, rfl, hl⟩ := List.eq_append_cons_of_mem hm
      refine hline l t hl (ih t.length ?_ t rfl)
      rw [← hn, List.length_append, List.length_cons]
      omega
    · exact hrest s hm

theorem unlines_lines (sep : α) (s : List α) : unlines sep (lines sep s) ++ lineRest sep s = s := by
  induction s using lines_induction sep with
  | hrest s hs => rw [lines_of_not_mem hs, lineRest_of_not_mem hs]; rfl
  | hline l s hl ih =>
    rw [lines_line hl, lineRest_line]
    conv_rhs => rw [← ih]
    simp [unlines]

theorem not_mem_of_mem_lines (h : l ∈ lines sep s) : sep ∉ l := by
  induction s using lines_induction sep with
  | hrest s hs =>
    rw [lines_of_not_mem hs] at h
    cases h
  | hline l' s hl ih =>
    rw [lines_line hl] at h
    rcases List.mem_cons.mp h with rfl | h
    · exact hl
    · exact ih h

theorem not_mem_lineRest (s : List α) : sep ∉ lineRest sep s := by
  induction s using lines_induction sep with
  | hrest s hs => rwa [lineRest_of_not_mem hs]
  | hline l s hl ih => rwa [lineRest_line]

theorem length_lines (s : List α) : (lines sep s).length = s.count sep := by
  induction s using lines_induction sep with
  | hrest s hs => rw [lines_of_not_mem hs, List.count_eq_zero_of_not_mem hs]; rfl
  | hline l s hl ih =>
    rw [lines_line hl, List.length_cons, ih, List.count_append, List.count_cons_self,
      List.count_eq_zero_of_not_mem hl, Nat.zero_add]

theorem lines_eq_nil_iff : lines sep s = [] ↔ sep ∉ s := by
  rw [← List.length_eq_zero_iff, length_lines, List.count_eq_zero]

/-- Every line of a stream, the unfinished one too, has at most `n` values. -/
def ShortLines (sep : α) (n : ℕ) (s : List α) : Prop :=
  (∀ l ∈ lines sep s, l.length ≤ n) ∧ (lineRest sep s).length ≤ n

instance (n : ℕ) (s : List α) : Decidable (ShortLines sep n s) :=
  inferInstanceAs (Decidable (_ ∧ _))

theorem ShortLines.of_append {n : ℕ} {t : List α} (h : ShortLines sep n (s ++ t)) :
    ShortLines sep n s := by
  have hs := unlines_lines sep s
  have hl : ∀ l ∈ lines sep s, sep ∉ l := fun l => not_mem_of_mem_lines
  rw [← hs, List.append_assoc] at h
  obtain ⟨hlines, hrest⟩ := h
  rw [lines_unlines_append hl] at hlines
  rw [lineRest_unlines_append] at hrest
  refine ⟨fun l hm => hlines l (List.mem_append_left _ hm), ?_⟩
  have hr : sep ∉ lineRest sep s := not_mem_lineRest s
  by_cases ht : sep ∈ t
  · obtain ⟨x, y, rfl, hx⟩ := List.eq_append_cons_of_mem ht
    have hrx : sep ∉ lineRest sep s ++ x := by simp [hr, hx]
    have hmem : lineRest sep s ++ x ∈ lines sep (lineRest sep s ++ (x ++ sep :: y)) := by
      rw [← List.append_assoc, lines_line hrx]
      exact List.mem_cons_self
    have hle := hlines _ (List.mem_append_right _ hmem)
    rw [List.length_append] at hle
    omega
  · have hrt : sep ∉ lineRest sep s ++ t := by simp [hr, ht]
    rw [lineRest_of_not_mem hrt, List.length_append] at hrest
    omega

end Lines

end TmkDcl
