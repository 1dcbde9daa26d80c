import Mathlib.Data.List.Chain
import Mathlib.Data.List.Nodup
import Mathlib.Logic.Function.Basic

/-!
# Rings of doubly linked nodes

A memory of two link words for each node, and the rings in it: a header and its members, linked
both ways and back to the header. A change of a few links between two neighbours of a ring gives
a ring again when all other link words that the ring reads stay (`IsRing.relink`).
-/

namespace TmkDcl

/-- The link words of the nodes; `none` is the null pointer. -/
structure Links (ν : Type*) where
  next : ν → Option ν
  prev : ν → Option ν

namespace Links

variable {ν : Type*} {l l' : Links ν} {a b p q header : ν} {xs xs' ps qs ms ms' : List ν}

/-- `b` follows `a`. -/
def Linked (l : Links ν) (a b : ν) : Prop := l.next a = some b ∧ l.prev b = some a

def Unlinked (l : Links ν) (a : ν) : Prop := l.next a = none ∧ l.prev a = none

/-- The members `xs` in the order of the next words, between the header and the header. -/
structure IsRing (l : Links ν) (header : ν) (xs : List ν) : Prop where
  nodup : (header :: xs).Nodup
  linked : (header :: xs ++ [header]).IsChain l.Linked

/-- The nodes met from `a` on along the next words, up to the header. -/
def forward [DecidableEq ν] (l : Links ν) (header : ν) : ℕ → Option ν → Option (List ν)
  | 0, _ => none
  | _ + 1, none => none
  | fuel + 1, some a =>
    if a = header then some [] else (forward l header fuel (l.next a)).map (a :: ·)

section Chains

/-- A chain reads the next words of all its nodes but the last and the prev words of all but the
first. -/
theorem isChain_frame (h : xs.IsChain l.Linked) (hn : ∀ a ∈ xs.dropLast, l'.next a = l.next a)
    (hp : ∀ b ∈ xs.tail, l'.prev b = l.prev b) : xs.IsChain l'.Linked := by
  induction xs with
  | nil => exact .nil
  | cons a xs ih =>
    cases xs with
    | nil => exact .singleton a
    | cons b ys =>
      obtain ⟨⟨hnext, hprev⟩, htail⟩ := List.isChain_cons_cons.mp h
      refine List.isChain_cons_cons.mpr ⟨⟨?_, ?_⟩, ih htail ?_ ?_⟩
      · exact (hn a (by simp)).trans hnext
      · exact (hp b (by simp)).trans hprev
      · exact fun c hc => hn c (by simp [hc])
      · exact fun c hc => hp c (by simp_all)

theorem isChain_relink (h : (ps ++ p :: (ms ++ q :: qs)).IsChain l.Linked)
    (hm : (p :: (ms' ++ [q])).IsChain l'.Linked)
    (hn : ∀ a, a ∈ ps ∨ a ∈ (q :: qs).dropLast → l'.next a = l.next a)
    (hp : ∀ b, b ∈ (ps ++ [p]).tail ∨ b ∈ qs → l'.prev b = l.prev b) :
    (ps ++ p :: (ms' ++ q :: qs)).IsChain l'.Linked := by
  obtain ⟨hps, hrest⟩ := List.isChain_split.mp h
  rw [← List.cons_append, List.isChain_split] at hrest
  obtain ⟨-, hqs⟩ := hrest
  have hps' : (ps ++ [p]).IsChain l'.Linked :=
    isChain_frame hps (fun a ha => hn a (.inl (by simpa using ha))) fun b hb => hp b (.inl hb)
  have hqs' : (q :: qs).IsChain l'.Linked :=
    isChain_frame hqs (fun a ha => hn a (.inr ha)) fun b hb => hp b (.inr hb)
  refine List.isChain_split.mpr ⟨hps', ?_⟩
  rw [← List.cons_append]
  exact List.isChain_split.mpr ⟨hm, hqs'⟩

theorem exists_linked_right (h : (a :: xs ++ [b]).IsChain l.Linked) {c : ν} (hc : c ∈ a :: xs) :
    ∃ d ∈ xs ++ [b], l.Linked c d := by
  induction xs generalizing a with
  | nil =>
    rw [List.mem_singleton.mp hc]
    exact ⟨b, by simp, List.isChain_pair.mp h⟩
  | cons x xs ih =>
    obtain ⟨hlink, htail⟩ := List.isChain_cons_cons.mp h
    rcases List.mem_cons.mp hc with rfl | hc
    · exact ⟨x, by simp, hlink⟩
    · obtain ⟨d, hd, hcd⟩ := ih htail hc
      exact ⟨d, by simp_all, hcd⟩

theorem exists_linked_left (h : (a :: xs ++ [b]).IsChain l.Linked) {d : ν} (hd : d ∈ xs ++ [b]) :
    ∃ c ∈ a :: xs, l.Linked c d := by
  induction xs generalizing a with
  | nil =>
    rw [List.mem_singleton.mp hd]
    exact ⟨a, by simp, List.isChain_pair.mp h⟩
  | cons x xs ih =>
    obtain ⟨hlink, htail⟩ := List.isChain_cons_cons.mp h
    rcases List.mem_cons.mp hd with rfl | hd
    · exact ⟨a, by simp, hlink⟩
    · obtain ⟨c, hc, hcd⟩ := ih htail hd
      exact ⟨c, List.mem_cons_of_mem _ hc, hcd⟩

end Chains

section Rings

theorem mem_concat_iff : a ∈ xs ++ [header] ↔ a ∈ header :: xs := by
  rw [List.mem_append, List.mem_singleton, List.mem_cons, or_comm]

theorem IsRing.next_ne_none (h : l.IsRing header xs) (ha : a ∈ header :: xs) : l.next a ≠ none := by
  obtain ⟨b, _, hb⟩ := exists_linked_right h.linked ha
  rw [hb.1]
  exact Option.some_ne_none b

theorem IsRing.not_mem_of_unlinked (h : l.IsRing header xs) (ha : l.Unlinked a) :
    a ∉ header :: xs := fun hmem => h.next_ne_none hmem ha.1

theorem Linked.ne_of_unlinked (h : l.Linked p q) (ha : l.Unlinked a) : p ≠ a ∧ q ≠ a := by
  constructor
  · intro he
    exact Option.some_ne_none q (h.1.symm.trans (he ▸ ha.1))
  · intro he
    exact Option.some_ne_none p (h.2.symm.trans (he ▸ ha.2))

/-- In a ring the two words of the nodes are inverse to each other. -/
theorem IsRing.next_eq_iff (h : l.IsRing header xs) (ha : a ∈ header :: xs)
    (hb : b ∈ header :: xs) : l.next a = some b ↔ l.prev b = some a := by
  constructor
  · intro hnext
    obtain ⟨c, _, hc⟩ := exists_linked_right h.linked ha
    rw [Option.some.inj (hnext.symm.trans hc.1)]
    exact hc.2
  · intro hprev
    obtain ⟨c, _, hc⟩ := exists_linked_left h.linked (mem_concat_iff.mpr hb)
    rw [Option.some.inj (hprev.symm.trans hc.2)]
    exact hc.1

theorem eq_of_path (hpath : header :: xs ++ [header] = ps ++ p :: (ms ++ q :: qs)) :
    header :: xs = ps ++ p :: (ms ++ (q :: qs).dropLast) := by
  have hdrop := congrArg List.dropLast hpath
  rwa [List.dropLast_concat, List.dropLast_append_of_ne_nil (by simp),
    List.dropLast_cons_of_ne_nil (by simp), List.dropLast_append_of_ne_nil (by simp)] at hdrop

theorem mem_of_path (hpath : header :: xs ++ [header] = ps) (ha : a ∈ ps) : a ∈ header :: xs := by
  rw [← hpath] at ha
  exact (List.mem_append.mp ha).elim id fun h => List.mem_singleton.mp h ▸ List.mem_cons_self

/-- Next words are read at the nodes of a path but its end, which occur once. -/
theorem nodup_dropLast (h : (header :: xs).Nodup)
    (hpath : header :: xs ++ [header] = ps ++ p :: (ms ++ q :: qs)) :
    (ps ++ p :: (ms ++ (q :: qs).dropLast)).Nodup := eq_of_path hpath ▸ h

/-- Prev words are read at the nodes of a path but its start, which occur once. -/
theorem nodup_tail (h : (header :: xs).Nodup)
    (hpath : header :: xs ++ [header] = ps ++ p :: (ms ++ q :: qs)) :
    ((ps ++ [p]).tail ++ (ms ++ q :: qs)).Nodup := by
  have hright : (ps ++ p :: (ms ++ q :: qs)).tail = (ps ++ [p]).tail ++ (ms ++ q :: qs) := by
    cases ps <;> simp
  rw [← hright, ← hpath]
  exact (List.perm_append_singleton header xs).nodup_iff.mpr h

theorem IsRing.nodup_path (h : l.IsRing header xs) (ha : l.Unlinked a)
    (hold : header :: xs ++ [header] = ps ++ p :: (ms ++ q :: qs))
    (hnew : header :: xs' ++ [header] = ps ++ p :: ([a] ++ q :: qs)) : (header :: xs').Nodup := by
  have hout := h.not_mem_of_unlinked ha
  have hin := h.nodup
  rw [eq_of_path hold] at hout hin
  rw [eq_of_path hnew]
  grind

/-- A new connection between the neighbours `p` and `q`, by the nodes `ms'` in place of `ms`. -/
theorem IsRing.relink (h : l.IsRing header xs)
    (hold : header :: xs ++ [header] = ps ++ p :: (ms ++ q :: qs))
    (hnew : header :: xs' ++ [header] = ps ++ p :: (ms' ++ q :: qs))
    (hnodup : (header :: xs').Nodup) (hm : (p :: (ms' ++ [q])).IsChain l'.Linked)
    (hn : ∀ a, a ≠ p → a ∉ ms → a ∉ ms' → l'.next a = l.next a)
    (hp : ∀ b, b ≠ q → b ∉ ms → b ∉ ms' → l'.prev b = l.prev b) : l'.IsRing header xs' := by
  have hlinked := h.linked
  refine ⟨hnodup, ?_⟩
  rw [hold] at hlinked
  rw [hnew]
  refine isChain_relink hlinked hm (fun a ha => hn a ?_ ?_ ?_) fun b hb => hp b ?_ ?_ ?_
  · have hd := nodup_dropLast h.nodup hold
    grind
  · have hd := nodup_dropLast h.nodup hold
    grind
  · have hd := nodup_dropLast hnodup hnew
    grind
  · have ht := nodup_tail h.nodup hold
    grind
  · have ht := nodup_tail h.nodup hold
    grind
  · have ht := nodup_tail hnodup hnew
    grind

/-- The nodes around a part `ms` of the members, which stay its neighbours when it is replaced. -/
theorem exists_neighbours (header : ν) (as bs : List ν) :
    ∃ ps p q qs, ∀ ms, header :: (as ++ (ms ++ bs)) ++ [header] = ps ++ p :: (ms ++ q :: qs) := by
  obtain ⟨ps, p, hleft⟩ := List.eq_nil_or_concat (header :: as) |>.resolve_left (by simp)
  obtain ⟨q, qs, hright⟩ := List.exists_cons_of_ne_nil (l := bs ++ [header]) (by simp)
  refine ⟨ps, p, q, qs, fun ms => ?_⟩
  rw [← List.cons_append, hleft, ← hright]
  simp

theorem forward_eq [DecidableEq ν] (h : (a :: xs ++ [header]).IsChain l.Linked)
    (hx : header ∉ xs) {fuel : ℕ} (hf : xs.length < fuel) :
    l.forward header fuel (l.next a) = some xs := by
  induction xs generalizing a fuel with
  | nil =>
    obtain ⟨k, rfl⟩ := Nat.exists_eq_succ_of_ne_zero (Nat.ne_of_gt (Nat.zero_lt_of_lt hf))
    rw [(List.isChain_pair.mp h).1, forward, if_pos rfl]
  | cons x xs ih =>
    obtain ⟨k, rfl⟩ := Nat.exists_eq_succ_of_ne_zero (Nat.ne_of_gt (Nat.zero_lt_of_lt hf))
    obtain ⟨hlink, htail⟩ := List.isChain_cons_cons.mp h
    obtain ⟨hne, hx⟩ := not_or.mp (List.mem_cons.not.mp hx)
    rw [hlink.1, forward, if_neg (Ne.symm hne), ih htail hx (Nat.lt_of_succ_lt_succ hf)]
    rfl

/-- The forward traversal of a ring meets its members in order and ends at the header. -/
theorem IsRing.forward [DecidableEq ν] (h : l.IsRing header xs) {fuel : ℕ}
    (hf : xs.length < fuel) : l.forward header fuel (l.next header) = some xs :=
  forward_eq h.linked (List.nodup_cons.mp h.nodup).1 hf

end Rings

end Links

end TmkDcl
