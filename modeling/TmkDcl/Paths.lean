import Mathlib.Data.List.Infix
import TmkDcl.Lines

/-!
# Paths

The place that a path leads to, as the names on the way to it. An empty name and a dot stay where they are,
two dots go back, and a plain name goes on.
-/

namespace TmkDcl

section Paths

variable {α : Type*} {sep dot a : α} {dir dir' name name' s : List α} {start place : List (List α)}

/-- The name of something in a directory. -/
structure PlainName (sep dot : α) (name : List α) : Prop where
  sep_not_mem : sep ∉ name
  ne_nil : name ≠ []
  ne_dot : name ≠ [dot]
  ne_dots : name ≠ [dot, dot]

theorem PlainName.of_mem (hsep : sep ∉ name) (hmem : a ∈ name) (hne : a ≠ dot) :
    PlainName sep dot name where
  sep_not_mem := hsep
  ne_nil := List.ne_nil_of_mem hmem
  ne_dot := by
    rintro rfl
    exact hne (List.mem_singleton.mp hmem)
  ne_dots := by
    rintro rfl
    rcases List.mem_cons.mp hmem with h | h
    · exact hne h
    · exact hne (List.mem_singleton.mp h)

theorem head_ne_sep (h : sep ∉ name) : name.head? ≠ some sep := fun hhead =>
  h (List.mem_of_mem_head? hhead)

variable [DecidableEq α]

theorem append_sep_inj (hname : sep ∉ name) (hname' : sep ∉ name')
    (h : dir ++ sep :: name = dir' ++ sep :: name') : dir = dir' ∧ name = name' := by
  have hrest := congrArg (lineRest sep) h
  rw [lineRest_line, lineRest_line, lineRest_of_not_mem hname, lineRest_of_not_mem hname'] at hrest
  subst hrest
  exact ⟨List.append_cancel_right h, rfl⟩

/-- The texts between the separators. -/
def pathNames (sep : α) (path : List α) : List (List α) := lines sep path ++ [lineRest sep path]

theorem pathNames_of_not_mem (h : sep ∉ name) : pathNames sep name = [name] := by
  rw [pathNames, lines_of_not_mem h, lineRest_of_not_mem h, List.nil_append]

theorem pathNames_append : pathNames sep (dir ++ sep :: s) = pathNames sep dir ++ pathNames sep s := by
  have hlines : ∀ l ∈ pathNames sep dir, sep ∉ l := by
    intro l hl
    rcases List.mem_append.mp hl with hl | hl
    · exact not_mem_of_mem_lines hl
    · rw [List.mem_singleton.mp hl]
      exact not_mem_lineRest dir
  have hdir : dir ++ sep :: s = unlines sep (pathNames sep dir) ++ s := by
    rw [pathNames, unlines_concat, unlines_lines, List.append_assoc]
    rfl
  rw [pathNames, lineRest_line, hdir, lines_unlines_append hlines, List.append_assoc]
  rfl

/-- A step from a place. -/
def enterName (dot : α) (place : List (List α)) (name : List α) : List (List α) :=
  if name = [] ∨ name = [dot] then place
  else if name = [dot, dot] then place.dropLast
  else place ++ [name]

/-- Where a path leads to from the working directory `start`. -/
def placeOf (sep dot : α) (start : List (List α)) (path : List α) : List (List α) :=
  (pathNames sep path).foldl (enterName dot) (if path.head? = some sep then [] else start)

/-- The places on the way, with both ends. -/
def placesOn (sep dot : α) (start : List (List α)) (path : List α) : List (List (List α)) :=
  (pathNames sep path).inits.map fun names =>
    names.foldl (enterName dot) (if path.head? = some sep then [] else start)

theorem placeOf_mem_placesOn : placeOf sep dot start dir ∈ placesOn sep dot start dir :=
  List.mem_map.mpr ⟨pathNames sep dir, (List.mem_inits _ _).mpr List.prefix_rfl, rfl⟩

theorem enterName_nil : enterName dot place [] = place := if_pos (Or.inl rfl)

theorem PlainName.enterName (h : PlainName sep dot name) :
    enterName dot place name = place ++ [name] := by
  rw [TmkDcl.enterName, if_neg (not_or.mpr ⟨h.ne_nil, h.ne_dot⟩), if_neg h.ne_dots]

/-- The place where the last name of a path is looked up. -/
def dirPlace (sep dot : α) (start : List (List α)) (path : List α) : List (List α) :=
  (lines sep path).foldl (enterName dot) (if path.head? = some sep then [] else start)

theorem placeOf_eq (path : List α) : placeOf sep dot start path =
    enterName dot (dirPlace sep dot start path) (lineRest sep path) := by
  rw [placeOf, pathNames, List.foldl_append]
  rfl

/-- A path behind a directory. An absolute one stays as it is, and a second separator would not lead to
another place. -/
def joinPath (sep : α) (dir path : List α) : List α :=
  if path.head? = some sep ∨ dir = [] then path else dir ++ sep :: path

section Join

variable (h : sep ∉ name)
include h

theorem lineRest_joinPath : lineRest sep (joinPath sep dir name) = name := by
  unfold joinPath
  split
  · exact lineRest_of_not_mem h
  · rw [lineRest_line, lineRest_of_not_mem h]

/-- A name is looked up where the directory is. -/
theorem dirPlace_joinPath : dirPlace sep dot start (joinPath sep dir name) = placeOf sep dot start dir := by
  by_cases hdir : dir = []
  · have hnames : pathNames sep ([] : List α) = [[]] := rfl
    have hhead : ([] : List α).head? ≠ some sep := fun hnone => nomatch hnone
    rw [joinPath, if_pos (.inr hdir), hdir, dirPlace, lines_of_not_mem h, if_neg (head_ne_sep h), placeOf,
      hnames, if_neg hhead, List.foldl_nil, List.foldl_cons, List.foldl_nil, enterName_nil]
  · have hnames : pathNames sep (dir ++ sep :: name) = pathNames sep dir ++ [name] := by
      rw [pathNames_append, pathNames_of_not_mem h]
    have hlines : lines sep (dir ++ sep :: name) = pathNames sep dir := (List.append_inj' hnames rfl).1
    rw [joinPath, if_neg (not_or.mpr ⟨head_ne_sep h, hdir⟩), dirPlace, hlines,
      List.head?_append_of_ne_nil dir hdir, placeOf]

end Join

theorem PlainName.placeOf_joinPath (h : PlainName sep dot name) :
    placeOf sep dot start (joinPath sep dir name) = placeOf sep dot start dir ++ [name] := by
  rw [placeOf_eq, dirPlace_joinPath h.sep_not_mem, lineRest_joinPath h.sep_not_mem, h.enterName]

theorem placeOf_append_sep (hdir : dir ≠ []) :
    placeOf sep dot start (dir ++ [sep]) = placeOf sep dot start dir := by
  have hnames : pathNames sep (dir ++ [sep]) = pathNames sep dir ++ [[]] := by
    rw [pathNames_append, pathNames_of_not_mem List.not_mem_nil]
  rw [placeOf, placeOf, hnames, List.foldl_append, List.head?_append_of_ne_nil dir hdir,
    List.foldl_cons, List.foldl_nil, enterName_nil]

/-- A plain name goes on from the directory. -/
theorem placeOf_append (h : PlainName sep dot name) :
    placeOf sep dot start (dir ++ sep :: name) = placeOf sep dot start (dir ++ [sep]) ++ [name] := by
  have hhead : (dir ++ sep :: name).head? = (dir ++ [sep]).head? := by
    cases dir <;> rfl
  rw [placeOf, placeOf, hhead, pathNames_append, pathNames_append, pathNames_of_not_mem h.sep_not_mem,
    pathNames_of_not_mem List.not_mem_nil, List.foldl_append, List.foldl_append]
  exact h.enterName

end Paths

end TmkDcl
