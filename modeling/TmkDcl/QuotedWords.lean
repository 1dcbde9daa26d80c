import Mathlib.Algebra.BigOperators.Group.List.Basic
import Mathlib.Algebra.Ring.Nat
import Mathlib.Data.Bool.Basic
import Mathlib.Data.List.Infix

/-!
# Words and quotes

A text is split at the blanks outside of quotes. Some texts with a blank between each two are the
words of what they make together if all blanks in them are quoted and all but the last one close
their quotes.
-/

namespace TmkDcl.QuotedWords

variable {α : Type*}

theorem intercalate_cons_cons (c : α) (w v : List α) (texts : List (List α)) :
    [c].intercalate (w :: v :: texts) = w ++ c :: [c].intercalate (v :: texts) := by
  simp [List.intercalate]

theorem intercalate_singleton (c : α) (w : List α) : [c].intercalate [w] = w := by
  simp [List.intercalate]

theorem length_intercalate (c : α) (w : List α) (texts : List (List α)) :
    ([c].intercalate (w :: texts)).length =
      ((w :: texts).map List.length).sum + texts.length := by
  induction texts generalizing w with
  | nil => rw [intercalate_singleton]; simp
  | cons v texts ih =>
    rw [intercalate_cons_cons, List.length_append, List.length_cons, ih, List.map_cons (l := v :: texts),
      List.sum_cons, List.length_cons]
    omega

variable [DecidableEq α]

/-- The words behind the beginning of one, which may be in quotes. -/
def words (blank : α → Bool) (quote : α) : Bool → List α → List α → List (List α)
  | _, word, [] => if word = [] then [] else [word]
  | quoted, word, c :: cs =>
    if blank c && !quoted then
      if word = [] then words blank quote quoted [] cs
      else word :: words blank quote quoted [] cs
    else words blank quote (quoted ^^ c == quote) (word ++ [c]) cs

/-- Whether the end of a text is in quotes. -/
def quotedAfter (quote : α) : Bool → List α → Bool
  | quoted, [] => quoted
  | quoted, c :: cs => quotedAfter quote (quoted ^^ c == quote) cs

/-- Every blank of the text is in quotes. -/
def Unbroken (blank : α → Bool) (quote : α) : Bool → List α → Prop
  | _, [] => True
  | quoted, c :: cs =>
    (blank c = true → quoted = true) ∧ Unbroken blank quote (quoted ^^ c == quote) cs

/-- The texts can be told apart again. -/
structure Recoverable (blank : α → Bool) (quote : α) (texts : List (List α)) : Prop where
  unbroken : ∀ w ∈ texts, Unbroken blank quote false w
  closed : ∀ w ∈ texts.dropLast, quotedAfter quote false w = false

section Words

variable {blank : α → Bool} {quote c : α} {quoted : Bool} {word w rest cs : List α}

theorem unbroken_append (h : ∀ c ∈ w, blank c = false ∧ c ≠ quote) :
    Unbroken blank quote quoted (w ++ rest) ↔ Unbroken blank quote quoted rest := by
  induction w with
  | nil => exact Iff.rfl
  | cons c w ih =>
    obtain ⟨hblank, hquote⟩ := h c List.mem_cons_self
    have hrest := ih fun d hd => h d (List.mem_cons_of_mem c hd)
    rw [List.cons_append, Unbroken, beq_false_of_ne hquote, Bool.xor_false, hrest, hblank]
    exact and_iff_right fun hfalse => nomatch hfalse

theorem quotedAfter_append (h : quote ∉ w) :
    quotedAfter quote quoted (w ++ rest) = quotedAfter quote quoted rest := by
  induction w with
  | nil => rfl
  | cons c w ih =>
    have hquote : c ≠ quote := fun heq => h (heq ▸ List.mem_cons_self)
    rw [List.cons_append, quotedAfter, beq_false_of_ne hquote, Bool.xor_false,
      ih fun hmem => h (List.mem_cons_of_mem c hmem)]

theorem words_unbroken (h : Unbroken blank quote quoted w) :
    words blank quote quoted word (w ++ rest) =
      words blank quote (quotedAfter quote quoted w) (word ++ w) rest := by
  induction w generalizing quoted word with
  | nil => rw [List.nil_append, List.append_nil, quotedAfter]
  | cons c w ih =>
    obtain ⟨hc, hw⟩ := h
    have hinside : ¬(blank c && !quoted) = true := by
      rw [Bool.and_eq_true, Bool.not_eq_true']
      intro hboth
      rw [hc hboth.1] at hboth
      exact nomatch hboth.2
    rw [List.cons_append, words, if_neg hinside, ih hw, quotedAfter, List.append_assoc,
      List.singleton_append]

theorem words_broken (h : ¬Unbroken blank quote quoted w) (hword : word ≠ []) :
    ∃ part tail, words blank quote quoted word (w ++ rest) = (word ++ part) :: tail ∧
      part.length < w.length := by
  induction w generalizing quoted word with
  | nil => exact absurd trivial h
  | cons c w ih =>
    rw [List.cons_append, words]
    split
    · exact ⟨[], _, by rw [List.append_nil], Nat.succ_pos _⟩
    · rename_i hinside
      have hc : blank c = true → quoted = true := by
        intro hblank
        rw [hblank, Bool.true_and, Bool.not_eq_true', Bool.not_eq_false] at hinside
        exact hinside
      have hw : ¬Unbroken blank quote (quoted ^^ c == quote) w := fun hw => h ⟨hc, hw⟩
      obtain ⟨part, tail, heq, hlt⟩ := ih hw (List.append_ne_nil_of_right_ne_nil word
        (List.cons_ne_nil c []))
      refine ⟨c :: part, tail, ?_, Nat.succ_lt_succ hlt⟩
      rw [heq, List.append_assoc, List.singleton_append]

theorem words_head (hword : word ≠ []) :
    ∃ part tail, words blank quote quoted word cs = (word ++ part) :: tail := by
  induction cs generalizing quoted word with
  | nil => exact ⟨[], [], by rw [words, if_neg hword, List.append_nil]⟩
  | cons c cs ih =>
    rw [words]
    split
    · exact ⟨[], _, by rw [List.append_nil]⟩
    · have hnext : ∃ part tail, words blank quote (quoted ^^ c == quote) (word ++ [c]) cs =
          (word ++ [c] ++ part) :: tail :=
        ih (List.append_ne_nil_of_right_ne_nil word (List.cons_ne_nil c []))
      obtain ⟨part, tail, heq⟩ := hnext
      exact ⟨c :: part, tail, by rw [heq, List.append_assoc, List.singleton_append]⟩

theorem nil_notMem_words : [] ∉ words blank quote quoted word cs := by
  induction cs generalizing quoted word with
  | nil =>
    rw [words]
    split
    · exact List.not_mem_nil
    · rename_i hword
      exact fun h => hword (List.mem_singleton.mp h).symm
  | cons c cs ih =>
    rw [words]
    split
    · split
      · exact ih
      · rename_i hword
        exact List.not_mem_cons_of_ne_of_not_mem (Ne.symm hword) ih
    · exact ih

theorem words_ne_of_broken {texts : List (List α)} (hstart : ∃ d ds, w = d :: ds ∧ blank d = false)
    (hbroken : ¬Unbroken blank quote false w) :
    words blank quote false [] (w ++ rest) ≠ w :: texts := by
  obtain ⟨d, ds, rfl, hd⟩ := hstart
  have houtside : ¬(blank d && !false) = true := by rw [hd]; decide
  have hbehind : ¬Unbroken blank quote (false ^^ d == quote) ds := by
    intro hds
    refine hbroken ⟨fun hblank => ?_, hds⟩
    rw [hd] at hblank
    exact nomatch hblank
  have hshorter : ∃ part tail, words blank quote (false ^^ d == quote) [d] (ds ++ rest) =
      ([d] ++ part) :: tail ∧ part.length < ds.length :=
    words_broken hbehind (List.cons_ne_nil d [])
  obtain ⟨part, tail, hhead, hlt⟩ := hshorter
  rw [List.cons_append, words, if_neg houtside, List.nil_append]
  intro heq
  have hlength := congrArg List.length (List.cons.inj (hhead.symm.trans heq)).1
  simp only [List.length_append, List.length_cons, List.length_nil] at hlength
  omega

/-- A text that begins with no blank is the first word if all of its blanks are quoted, and its
quotes are closed before the next blank. -/
theorem words_cons_iff {texts : List (List α)} (hstart : ∃ d ds, w = d :: ds ∧ blank d = false)
    (hc : blank c = true) :
    words blank quote false [] (w ++ c :: rest) = w :: texts ↔
      (Unbroken blank quote false w ∧ quotedAfter quote false w = false) ∧
        words blank quote false [] rest = texts := by
  by_cases hbroken : Unbroken blank quote false w
  · obtain ⟨d, ds, rfl, -⟩ := hstart
    rw [words_unbroken hbroken, List.nil_append, and_iff_right hbroken]
    cases hclosed : quotedAfter quote false (d :: ds) with
    | false =>
      have hend : (blank c && !false) = true := by rw [hc]; rfl
      rw [words, if_pos hend, if_neg (List.cons_ne_nil d ds), List.cons.injEq, and_iff_right rfl,
        and_iff_right rfl]
    | true =>
      have hquoted : ¬(blank c && !true) = true := by rw [hc]; decide
      have hlonger : ∃ part tail, words blank quote (true ^^ c == quote) (d :: ds ++ [c]) rest =
          (d :: ds ++ [c] ++ part) :: tail :=
        words_head (List.append_ne_nil_of_right_ne_nil (d :: ds) (List.cons_ne_nil c []))
      obtain ⟨part, tail, hhead⟩ := hlonger
      rw [words, if_neg hquoted]
      refine iff_of_false (fun heq => ?_) fun h => nomatch h.1
      have hlength := congrArg List.length (List.cons.inj (hhead.symm.trans heq)).1
      simp only [List.length_append, List.length_singleton] at hlength
      omega
  · exact iff_of_false (words_ne_of_broken hstart hbroken) fun h => hbroken h.1.1

theorem words_singleton_iff (hstart : ∃ d ds, w = d :: ds ∧ blank d = false) :
    words blank quote false [] w = [w] ↔ Unbroken blank quote false w := by
  constructor
  · intro heq
    by_contra hbroken
    have hne : words blank quote false [] (w ++ []) ≠ w :: [] := words_ne_of_broken hstart hbroken
    rw [List.append_nil] at hne
    exact hne heq
  · intro hunbroken
    obtain ⟨d, ds, rfl, -⟩ := hstart
    have hwhole : words blank quote false [] (d :: ds ++ []) =
        words blank quote (quotedAfter quote false (d :: ds)) ([] ++ d :: ds) [] :=
      words_unbroken hunbroken
    rwa [List.append_nil, List.nil_append, words, if_neg (List.cons_ne_nil d ds)] at hwhole

end Words

section Joined

variable {blank : α → Bool} {quote c : α} {w v : List α} {texts : List (List α)}

theorem recoverable_cons_cons : Recoverable blank quote (w :: v :: texts) ↔
    (Unbroken blank quote false w ∧ quotedAfter quote false w = false) ∧
      Recoverable blank quote (v :: texts) := by
  constructor
  · intro h
    refine ⟨⟨h.unbroken w List.mem_cons_self, h.closed w List.mem_cons_self⟩, ?_, ?_⟩
    · exact fun u hu => h.unbroken u (List.mem_cons_of_mem w hu)
    · exact fun u hu => h.closed u (List.mem_cons_of_mem w hu)
  · intro h
    obtain ⟨⟨hunbroken, hclosed⟩, hrest⟩ := h
    constructor
    · intro u hu
      cases List.mem_cons.mp hu with
      | inl heq => exact heq ▸ hunbroken
      | inr hmem => exact hrest.unbroken u hmem
    · intro u hu
      cases List.mem_cons.mp hu with
      | inl heq => exact heq ▸ hclosed
      | inr hmem => exact hrest.closed u hmem

/-- The texts are the words of what they make with one blank between each two. -/
theorem words_intercalate_iff (hc : blank c = true)
    (hstart : ∀ w ∈ texts, ∃ d ds, w = d :: ds ∧ blank d = false) :
    words blank quote false [] ([c].intercalate texts) = texts ↔
      Recoverable blank quote texts := by
  induction texts with
  | nil => exact iff_of_true rfl ⟨fun _ => nofun, fun _ => nofun⟩
  | cons w texts ih =>
    have hw := hstart w List.mem_cons_self
    have hrest := ih fun u hu => hstart u (List.mem_cons_of_mem w hu)
    cases texts with
    | nil =>
      rw [intercalate_singleton, words_singleton_iff hw]
      constructor
      · intro hunbroken
        exact ⟨fun u hu => List.mem_singleton.mp hu ▸ hunbroken, fun _ => nofun⟩
      · exact fun h => h.unbroken w List.mem_cons_self
    | cons v texts =>
      rw [intercalate_cons_cons, words_cons_iff hw hc, hrest, recoverable_cons_cons]

end Joined

end TmkDcl.QuotedWords
