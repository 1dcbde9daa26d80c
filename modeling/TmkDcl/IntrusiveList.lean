import TmkDcl.Rings

/-!
# The intrusive list (misc/include/misc/list.h)

The functions write link words only. The nodes are named by an arbitrary type; a null pointer that
is followed, and the trap on a new node with links, end the program (`none`).
-/

namespace TmkDcl.IntrusiveList

variable {ν : Type*} [DecidableEq ν] {l l' : Links ν} {list elem newElem a p q : ν} {xs : List ν}

def setNext (l : Links ν) (a : ν) (b : Option ν) : Links ν :=
  { l with next := Function.update l.next a b }

def setPrev (l : Links ν) (a : ν) (b : Option ν) : Links ν :=
  { l with prev := Function.update l.prev a b }

/-- `list_init` (`list.h:97-99`). -/
def listInit (l : Links ν) (list : ν) : Links ν :=
  setNext (setPrev l list (some list)) list (some list)

/-- `list_insert_after` (`list.h:50-60`), which does not use its list. -/
def listInsertAfter (l : Links ν) (_list elem newElem : ν) : Option (Links ν) :=
  if l.next newElem ≠ none ∨ l.prev newElem ≠ none then none
  else do
    let l := setNext l newElem (l.next elem)
    let l := setPrev l newElem (some elem)
    let n ← l.next elem
    let l := setPrev l n (some newElem)
    some (setNext l elem (some newElem))

/-- `list_insert_before` (`list.h:62-72`). -/
def listInsertBefore (l : Links ν) (_list elem newElem : ν) : Option (Links ν) :=
  if l.next newElem ≠ none ∨ l.prev newElem ≠ none then none
  else do
    let l := setNext l newElem (some elem)
    let l := setPrev l newElem (l.prev elem)
    let p ← l.prev elem
    let l := setNext l p (some newElem)
    some (setPrev l elem (some newElem))

/-- `list_add_front` (`list.h:30-38`): the statements are those of `list_insert_after` at the
header. -/
def listAddFront (l : Links ν) (list newElem : ν) : Option (Links ν) :=
  listInsertAfter l list list newElem

/-- `list_add_back` (`list.h:40-48`): the statements are those of `list_insert_before` at the
header. -/
def listAddBack (l : Links ν) (list newElem : ν) : Option (Links ν) :=
  listInsertBefore l list list newElem

/-- `list_replace_elem` (`list.h:74-81`), which has no trap. -/
def listReplaceElem (l : Links ν) (_list elem newElem : ν) : Option (Links ν) := do
  let l := setNext l newElem (l.next elem)
  let l := setPrev l newElem (l.prev elem)
  let n ← l.next elem
  let l := setPrev l n (some newElem)
  let p ← l.prev elem
  let l := setNext l p (some newElem)
  let l := setPrev l elem none
  some (setNext l elem none)

/-- `list_remove_elem` (`list.h:83-88`). -/
def listRemoveElem (l : Links ν) (_list elem : ν) : Option (Links ν) := do
  let p ← l.prev elem
  let l := setNext l p (l.next elem)
  let n ← l.next elem
  let l := setPrev l n (l.prev elem)
  let l := setPrev l elem none
  some (setNext l elem none)

theorem listInit_isRing (l : Links ν) (list : ν) : (listInit l list).IsRing list [] := by
  refine ⟨List.nodup_singleton list, List.isChain_pair.mpr ⟨?_, ?_⟩⟩
  · simp [listInit, setNext, setPrev]
  · simp [listInit, setNext, setPrev]

/-! ### What the functions write -/

/-- `new_elem` between the neighbours `p` and `q`. -/
def splice (l : Links ν) (p newElem q : ν) : Links ν where
  next := Function.update (Function.update l.next newElem (some q)) p (some newElem)
  prev := Function.update (Function.update l.prev newElem (some p)) q (some newElem)

/-- `elem` between the neighbours `p` and `q` replaced by `new_elem`. -/
def exchange (l : Links ν) (p elem newElem q : ν) : Links ν where
  next := Function.update (splice l p newElem q).next elem none
  prev := Function.update (splice l p newElem q).prev elem none

/-- `elem` between the neighbours `p` and `q` taken out. -/
def unsplice (l : Links ν) (p elem q : ν) : Links ν where
  next := Function.update (Function.update l.next p (some q)) elem none
  prev := Function.update (Function.update l.prev q (some p)) elem none

theorem listInsertAfter_eq (hlink : l.Linked p q) (hnew : l.Unlinked newElem) :
    listInsertAfter l list p newElem = some (splice l p newElem q) := by
  have hp := (hlink.ne_of_unlinked hnew).1
  simp [listInsertAfter, setNext, setPrev, hnew.1, hnew.2, hlink.1, splice, hp]

theorem listInsertBefore_eq (hlink : l.Linked p q) (hnew : l.Unlinked newElem) :
    listInsertBefore l list q newElem = some (splice l p newElem q) := by
  have hq := (hlink.ne_of_unlinked hnew).2
  simp [listInsertBefore, setNext, setPrev, hnew.1, hnew.2, hlink.2, splice, hq]

theorem listReplaceElem_eq (hp : l.Linked p elem) (hq : l.Linked elem q) (hqe : q ≠ elem)
    (hnew : l.Unlinked newElem) :
    listReplaceElem l list elem newElem = some (exchange l p elem newElem q) := by
  have he := (hq.ne_of_unlinked hnew).1
  simp [listReplaceElem, setNext, setPrev, hp.2, hq.1, exchange, splice, he, hqe.symm]

theorem listRemoveElem_eq (hp : l.Linked p elem) (hq : l.Linked elem q) (hpe : p ≠ elem) :
    listRemoveElem l list elem = some (unsplice l p elem q) := by
  simp [listRemoveElem, setNext, setPrev, hp.2, hq.1, unsplice, hpe.symm]

/-! ### Rings -/

section Rings

variable {ps qs ys : List ν}

theorem splice_isRing (h : l.IsRing list xs) (hnew : l.Unlinked newElem)
    (hold : list :: xs ++ [list] = ps ++ p :: ([] ++ q :: qs))
    (hpath : list :: ys ++ [list] = ps ++ p :: ([newElem] ++ q :: qs)) :
    l.Linked p q ∧ (splice l p newElem q).IsRing list ys := by
  have hlink : l.Linked p q := by
    have hlinked := h.linked
    rw [hold] at hlinked
    exact (List.isChain_append_cons_cons.mp hlinked).2.1
  obtain ⟨hp, hq⟩ := hlink.ne_of_unlinked hnew
  have hnodup := h.nodup_path hnew hold hpath
  refine ⟨hlink, h.relink hold hpath hnodup ?_ (fun a ha _ hn => ?_) fun b hb _ hn => ?_⟩
  · refine List.isChain_cons_cons.mpr ⟨⟨?_, ?_⟩, List.isChain_pair.mpr ⟨?_, ?_⟩⟩
    · simp [splice]
    · simp [splice, hq.symm]
    · simp [splice, hp.symm]
    · simp [splice]
  · simp only [List.mem_singleton] at hn
    simp [splice, ha, hn]
  · simp only [List.mem_singleton] at hn
    simp [splice, hb, hn]

omit [DecidableEq ν] in
theorem linked_of_path (h : l.IsRing list xs)
    (hold : list :: xs ++ [list] = ps ++ p :: ([elem] ++ q :: qs)) :
    l.Linked p elem ∧ l.Linked elem q ∧ p ≠ elem ∧ q ≠ elem := by
  have hlinked := h.linked
  rw [hold] at hlinked
  obtain ⟨-, hpe, hrest⟩ := List.isChain_append_cons_cons.mp hlinked
  have hd := Links.nodup_dropLast h.nodup hold
  have ht := Links.nodup_tail h.nodup hold
  refine ⟨hpe, (List.isChain_cons_cons.mp hrest).1, ?_, ?_⟩
  · grind
  · grind

theorem exchange_isRing (h : l.IsRing list xs) (hnew : l.Unlinked newElem)
    (hold : list :: xs ++ [list] = ps ++ p :: ([elem] ++ q :: qs))
    (hpath : list :: ys ++ [list] = ps ++ p :: ([newElem] ++ q :: qs)) :
    (exchange l p elem newElem q).IsRing list ys := by
  obtain ⟨hpe, heq, hp, hq⟩ := linked_of_path h hold
  obtain ⟨hpn, hen⟩ := hpe.ne_of_unlinked hnew
  have hqn := (heq.ne_of_unlinked hnew).2
  have hnodup := h.nodup_path hnew hold hpath
  refine h.relink hold hpath hnodup ?_ (fun a ha he hn => ?_) fun b hb he hn => ?_
  · refine List.isChain_cons_cons.mpr ⟨⟨?_, ?_⟩, List.isChain_pair.mpr ⟨?_, ?_⟩⟩
    · simp [exchange, splice, hp]
    · simp [exchange, splice, hqn.symm, hen.symm]
    · simp [exchange, splice, hpn.symm, hen.symm]
    · simp [exchange, splice, hq]
  · simp only [List.mem_singleton] at he hn
    simp [exchange, splice, ha, he, hn]
  · simp only [List.mem_singleton] at he hn
    simp [exchange, splice, hb, he, hn]

theorem unsplice_isRing (h : l.IsRing list xs)
    (hold : list :: xs ++ [list] = ps ++ p :: ([elem] ++ q :: qs))
    (hpath : list :: ys ++ [list] = ps ++ p :: ([] ++ q :: qs)) :
    (unsplice l p elem q).IsRing list ys := by
  obtain ⟨-, -, hp, hq⟩ := linked_of_path h hold
  have hnodup : (list :: ys).Nodup := by
    have hin := h.nodup
    rw [Links.eq_of_path hold] at hin
    rw [Links.eq_of_path hpath]
    grind
  refine h.relink hold hpath hnodup ?_ (fun a ha he _ => ?_) fun b hb he _ => ?_
  · refine List.isChain_pair.mpr ⟨?_, ?_⟩
    · simp [unsplice, hp]
    · simp [unsplice, hq]
  · simp only [List.mem_singleton] at he
    simp [unsplice, ha, he]
  · simp only [List.mem_singleton] at he
    simp [unsplice, hb, he]

end Rings

/-! ### Operations -/

/-- A call of one of the functions on a list. -/
inductive Op (ν : Type*) where
  | addFront (newElem : ν)
  | addBack (newElem : ν)
  | insertAfter (elem newElem : ν)
  | insertBefore (elem newElem : ν)
  | replaceElem (elem newElem : ν)
  | removeElem (elem : ν)

namespace Op

def run (l : Links ν) (list : ν) : Op ν → Option (Links ν)
  | .addFront newElem => listAddFront l list newElem
  | .addBack newElem => listAddBack l list newElem
  | .insertAfter elem newElem => listInsertAfter l list elem newElem
  | .insertBefore elem newElem => listInsertBefore l list elem newElem
  | .replaceElem elem newElem => listReplaceElem l list elem newElem
  | .removeElem elem => listRemoveElem l list elem

/-- The elements that a call puts into the list. -/
def added : Op ν → List ν
  | .addFront newElem | .addBack newElem => [newElem]
  | .insertAfter _ newElem | .insertBefore _ newElem | .replaceElem _ newElem => [newElem]
  | .removeElem _ => []

/-- The elements next to which or for which a call works. -/
def located : Op ν → List ν
  | .addFront _ | .addBack _ => []
  | .insertAfter elem _ | .insertBefore elem _ | .replaceElem elem _ | .removeElem elem => [elem]

/-- The elements that a call takes out of the list. -/
def departed : Op ν → List ν
  | .replaceElem elem _ | .removeElem elem => [elem]
  | _ => []

/-- New elements are unlinked, and existing elements are members. -/
def Guard (l : Links ν) (xs : List ν) (op : Op ν) : Prop :=
  (∀ a ∈ op.added, l.Unlinked a) ∧ ∀ a ∈ op.located, a ∈ xs

end Op

/-! ### Sequences -/

/-- `new_elem` put in behind the first `elem` of a sequence. -/
def insertAfter (elem newElem : ν) : List ν → List ν
  | [] => []
  | x :: xs => if x = elem then x :: newElem :: xs else x :: insertAfter elem newElem xs

/-- `new_elem` put in before the first `elem` of a sequence. -/
def insertBefore (elem newElem : ν) : List ν → List ν
  | [] => []
  | x :: xs => if x = elem then newElem :: x :: xs else x :: insertBefore elem newElem xs

/-- What the calls do to a sequence. -/
def Op.apply (xs : List ν) : Op ν → List ν
  | .addFront newElem => newElem :: xs
  | .addBack newElem => xs ++ [newElem]
  | .insertAfter elem newElem => IntrusiveList.insertAfter elem newElem xs
  | .insertBefore elem newElem => IntrusiveList.insertBefore elem newElem xs
  | .replaceElem elem newElem => xs.replace elem newElem
  | .removeElem elem => xs.erase elem

section Sequences

variable {as bs : List ν}

theorem insertAfter_append (h : elem ∉ as) :
    insertAfter elem newElem (as ++ elem :: bs) = as ++ elem :: newElem :: bs := by
  induction as with
  | nil => simp [insertAfter]
  | cons x as ih =>
    obtain ⟨hne, has⟩ := not_or.mp (List.mem_cons.not.mp h)
    rw [List.cons_append, insertAfter, if_neg (Ne.symm hne), ih has]
    rfl

theorem insertBefore_append (h : elem ∉ as) :
    insertBefore elem newElem (as ++ elem :: bs) = as ++ newElem :: elem :: bs := by
  induction as with
  | nil => simp [insertBefore]
  | cons x as ih =>
    obtain ⟨hne, has⟩ := not_or.mp (List.mem_cons.not.mp h)
    rw [List.cons_append, insertBefore, if_neg (Ne.symm hne), ih has]
    rfl

theorem replace_append (h : elem ∉ as) :
    (as ++ elem :: bs).replace elem newElem = as ++ newElem :: bs := by
  rw [List.replace_append_right h, List.replace_cons_self]

theorem erase_append (h : elem ∉ as) : (as ++ elem :: bs).erase elem = as ++ bs := by
  rw [List.erase_append_right _ h, List.erase_cons_head]

end Sequences

/-! ### One call -/

/-- What is left by a call on a ring of the members `xs`: the ring of its sequence, all other nodes
as they were, and what was taken out without links. -/
structure Done (l : Links ν) (list : ν) (xs : List ν) (op : Op ν) (l' : Links ν) : Prop where
  ring : l'.IsRing list (op.apply xs)
  frame : ∀ a, a ∉ list :: xs → a ∉ op.added → l'.next a = l.next a ∧ l'.prev a = l.prev a
  departed : ∀ a ∈ op.departed, l'.Unlinked a

section Calls

variable {ps qs as bs ys : List ν}

omit [DecidableEq ν] in
theorem ne_of_path (hold : list :: xs ++ [list] = ps ++ p :: ([elem] ++ q :: qs))
    (ha : a ∉ list :: xs) : a ≠ p ∧ a ≠ elem ∧ a ≠ q := by
  have hmem : ∀ b, b ∈ ps ++ p :: ([elem] ++ q :: qs) → a ≠ b :=
    fun b hb he => ha (Links.mem_of_path hold (he ▸ hb))
  exact ⟨hmem p (by simp), hmem elem (by simp), hmem q (by simp)⟩

theorem splice_frame (hp : p ∈ list :: xs) (hq : q ∈ list :: xs) (ha : a ∉ list :: xs)
    (hn : a ≠ newElem) :
    (splice l p newElem q).next a = l.next a ∧ (splice l p newElem q).prev a = l.prev a := by
  have hap : a ≠ p := fun he => ha (he ▸ hp)
  have haq : a ≠ q := fun he => ha (he ▸ hq)
  simp [splice, hap, haq, hn]

/-- A new element behind the node `p` of the ring, which may be the header. -/
theorem listInsertAfter_spec (h : l.IsRing list xs) (hnew : l.Unlinked newElem)
    (hxs : list :: xs = ps ++ p :: bs) (hys : list :: ys = ps ++ p :: newElem :: bs) :
    ∃ l', listInsertAfter l list p newElem = some l' ∧ l'.IsRing list ys ∧
      ∀ a, a ∉ list :: xs → a ≠ newElem → l'.next a = l.next a ∧ l'.prev a = l.prev a := by
  obtain ⟨q, qs, hqs⟩ := List.exists_cons_of_ne_nil (l := bs ++ [list]) (by simp)
  have hold : list :: xs ++ [list] = ps ++ p :: ([] ++ q :: qs) := by simp [hxs, ← hqs]
  have hpath : list :: ys ++ [list] = ps ++ p :: ([newElem] ++ q :: qs) := by simp [hys, ← hqs]
  obtain ⟨hlink, hring⟩ := splice_isRing h hnew hold hpath
  have hp := Links.mem_of_path hold (a := p) (by simp)
  have hq := Links.mem_of_path hold (a := q) (by simp)
  exact ⟨_, listInsertAfter_eq hlink hnew, hring, fun a => splice_frame hp hq⟩

theorem listInsertBefore_spec (h : l.IsRing list xs) (hnew : l.Unlinked newElem)
    (hxs : xs ++ [list] = as ++ q :: qs) (hys : ys ++ [list] = as ++ newElem :: q :: qs) :
    ∃ l', listInsertBefore l list q newElem = some l' ∧ l'.IsRing list ys ∧
      ∀ a, a ∉ list :: xs → a ≠ newElem → l'.next a = l.next a ∧ l'.prev a = l.prev a := by
  obtain ⟨ps, p, hps⟩ := (List.eq_nil_or_concat (list :: as)).resolve_left (by simp)
  have hold : list :: xs ++ [list] = ps ++ p :: ([] ++ q :: qs) := by
    rw [List.cons_append, hxs, ← List.cons_append, hps]
    simp
  have hpath : list :: ys ++ [list] = ps ++ p :: ([newElem] ++ q :: qs) := by
    rw [List.cons_append, hys, ← List.cons_append, hps]
    simp
  obtain ⟨hlink, hring⟩ := splice_isRing h hnew hold hpath
  have hp := Links.mem_of_path hold (a := p) (by simp)
  have hq := Links.mem_of_path hold (a := q) (by simp)
  exact ⟨_, listInsertBefore_eq hlink hnew, hring, fun a => splice_frame hp hq⟩

theorem listReplaceElem_spec (h : l.IsRing list (as ++ elem :: bs)) (hnew : l.Unlinked newElem) :
    ∃ l', listReplaceElem l list elem newElem = some l' ∧
      l'.IsRing list (as ++ newElem :: bs) ∧ l'.Unlinked elem ∧
      ∀ a, a ∉ list :: (as ++ elem :: bs) → a ≠ newElem →
        l'.next a = l.next a ∧ l'.prev a = l.prev a := by
  obtain ⟨ps, p, q, qs, hpath⟩ := Links.exists_neighbours list as bs
  have hold := hpath [elem]
  obtain ⟨hpe, heq, _, hq⟩ := linked_of_path h hold
  refine ⟨_, listReplaceElem_eq hpe heq hq hnew, exchange_isRing h hnew hold (hpath [newElem]),
    ⟨by simp [exchange], by simp [exchange]⟩, fun a ha hn => ?_⟩
  obtain ⟨hap, hae, haq⟩ := ne_of_path hold ha
  simp [exchange, splice, hae, hap, haq, hn]

theorem listRemoveElem_spec (h : l.IsRing list (as ++ elem :: bs)) :
    ∃ l', listRemoveElem l list elem = some l' ∧ l'.IsRing list (as ++ bs) ∧ l'.Unlinked elem ∧
      ∀ a, a ∉ list :: (as ++ elem :: bs) → l'.next a = l.next a ∧ l'.prev a = l.prev a := by
  obtain ⟨ps, p, q, qs, hpath⟩ := Links.exists_neighbours list as bs
  have hold := hpath [elem]
  obtain ⟨hpe, heq, hp, _⟩ := linked_of_path h hold
  refine ⟨_, listRemoveElem_eq hpe heq hp, unsplice_isRing h hold (hpath []),
    ⟨by simp [unsplice], by simp [unsplice]⟩, fun a ha => ?_⟩
  obtain ⟨hap, hae, haq⟩ := ne_of_path hold ha
  simp [unsplice, hae, hap, haq]

/-- A call whose guard holds goes through and does to the ring what it does to the sequence. -/
theorem Op.run_spec {op : Op ν} (h : l.IsRing list xs) (hg : op.Guard l xs) :
    ∃ l', op.run l list = some l' ∧ Done l list xs op l' := by
  obtain ⟨hadded, hlocated⟩ := hg
  cases op with
  | addFront newElem =>
    have hnew := hadded newElem (by simp [added])
    have hxs : list :: xs = [] ++ list :: xs := rfl
    have hys : list :: newElem :: xs = [] ++ list :: newElem :: xs := rfl
    obtain ⟨l', hrun, hring, hframe⟩ := listInsertAfter_spec h hnew hxs hys
    exact ⟨l', hrun, hring, fun a ha hn => hframe a ha (by simpa [added] using hn),
      by simp [Op.departed]⟩
  | addBack newElem =>
    have hnew := hadded newElem (by simp [added])
    have hys : xs ++ [newElem] ++ [list] = xs ++ newElem :: [list] := by simp
    obtain ⟨l', hrun, hring, hframe⟩ := listInsertBefore_spec h hnew rfl hys
    exact ⟨l', hrun, hring, fun a ha hn => hframe a ha (by simpa [added] using hn),
      by simp [Op.departed]⟩
  | insertAfter elem newElem =>
    have hnew := hadded newElem (by simp [added])
    obtain ⟨as, bs, rfl, has⟩ := List.eq_append_cons_of_mem (hlocated elem (by simp [located]))
    have hxs : list :: (as ++ elem :: bs) = (list :: as) ++ elem :: bs := rfl
    have hys : list :: (as ++ elem :: newElem :: bs) = (list :: as) ++ elem :: newElem :: bs := rfl
    obtain ⟨l', hrun, hring, hframe⟩ := listInsertAfter_spec h hnew hxs hys
    refine ⟨l', hrun, ?_, fun a ha hn => hframe a ha (by simpa [added] using hn),
      by simp [Op.departed]⟩
    simpa only [apply, insertAfter_append has] using hring
  | insertBefore elem newElem =>
    have hnew := hadded newElem (by simp [added])
    obtain ⟨as, bs, rfl, has⟩ := List.eq_append_cons_of_mem (hlocated elem (by simp [located]))
    have hxs : (as ++ elem :: bs) ++ [list] = as ++ elem :: (bs ++ [list]) := by simp
    have hys : (as ++ newElem :: elem :: bs) ++ [list] = as ++ newElem :: elem :: (bs ++ [list]) := by
      simp
    obtain ⟨l', hrun, hring, hframe⟩ := listInsertBefore_spec h hnew hxs hys
    refine ⟨l', hrun, ?_, fun a ha hn => hframe a ha (by simpa [added] using hn),
      by simp [Op.departed]⟩
    simpa only [apply, insertBefore_append has] using hring
  | replaceElem elem newElem =>
    have hnew := hadded newElem (by simp [added])
    obtain ⟨as, bs, rfl, has⟩ := List.eq_append_cons_of_mem (hlocated elem (by simp [located]))
    obtain ⟨l', hrun, hring, hout, hframe⟩ := listReplaceElem_spec h hnew
    refine ⟨l', hrun, ?_, fun a ha hn => hframe a ha (by simpa [added] using hn),
      by simpa [Op.departed] using hout⟩
    simpa only [apply, replace_append has] using hring
  | removeElem elem =>
    obtain ⟨as, bs, rfl, has⟩ := List.eq_append_cons_of_mem (hlocated elem (by simp [located]))
    obtain ⟨l', hrun, hring, hout, hframe⟩ := listRemoveElem_spec h
    refine ⟨l', hrun, ?_, fun a ha _ => hframe a ha, by simpa [Op.departed] using hout⟩
    simpa only [apply, erase_append has] using hring

/-- What is put in is a member, and a member that is not taken out stays one. -/
theorem Op.mem_apply {op : Op ν} (hl : ∀ e ∈ op.located, e ∈ xs)
    (ha : a ∈ op.added ∨ a ∈ xs ∧ a ∉ op.departed) : a ∈ op.apply xs := by
  cases op with
  | addFront newElem | addBack newElem => simp_all [added, departed, apply, or_comm]
  | insertAfter elem newElem =>
    obtain ⟨as, bs, rfl, has⟩ := List.eq_append_cons_of_mem (hl elem (by simp [located]))
    rw [apply, insertAfter_append has]
    simp only [added, departed, List.mem_singleton] at ha
    grind
  | insertBefore elem newElem =>
    obtain ⟨as, bs, rfl, has⟩ := List.eq_append_cons_of_mem (hl elem (by simp [located]))
    rw [apply, insertBefore_append has]
    simp only [added, departed, List.mem_singleton] at ha
    grind
  | replaceElem elem newElem =>
    obtain ⟨as, bs, rfl, has⟩ := List.eq_append_cons_of_mem (hl elem (by simp [located]))
    rw [apply, replace_append has]
    simp only [added, departed, List.mem_singleton] at ha
    grind
  | removeElem elem =>
    obtain ⟨as, bs, rfl, has⟩ := List.eq_append_cons_of_mem (hl elem (by simp [located]))
    rw [apply, erase_append has]
    simp only [added, departed, List.mem_singleton] at ha
    grind

/-- A node that is a member or unlinked is one or the other after a call. -/
theorem Done.kept {op : Op ν} (hd : Done l list xs op l') (h : l.IsRing list xs)
    (hg : op.Guard l xs) (ha : l.Unlinked a ∨ a ∈ xs) : l'.Unlinked a ∨ a ∈ op.apply xs := by
  by_cases hdep : a ∈ op.departed
  · exact .inl (hd.departed a hdep)
  by_cases hadd : a ∈ op.added
  · exact .inr (Op.mem_apply hg.2 (.inl hadd))
  rcases ha with hun | hmem
  · obtain ⟨hnext, hprev⟩ := hd.frame a (h.not_mem_of_unlinked hun) hadd
    exact .inl ⟨hnext.trans hun.1, hprev.trans hun.2⟩
  · exact .inr (Op.mem_apply hg.2 (.inr ⟨hmem, hdep⟩))

end Calls

/-! ### Sequences of calls -/

/-- The calls one after the other. -/
def runAll (list : ν) : Links ν → List (Op ν) → Option (Links ν)
  | l, [] => some l
  | l, op :: ops => (op.run l list).bind fun l' => runAll list l' ops

/-- What the calls do to a sequence, one after the other. -/
def applyAll (xs : List ν) (ops : List (Op ν)) : List ν := ops.foldl Op.apply xs

/-- Every call meets its guard in the list that the calls before it have left. -/
def Guarded (list : ν) : Links ν → List ν → List (Op ν) → Prop
  | _, _, [] => True
  | l, xs, op :: ops =>
    op.Guard l xs ∧ ∀ l', op.run l list = some l' → Guarded list l' (op.apply xs) ops

section Runs

variable {ops : List (Op ν)}

theorem runAll_ring (h : l.IsRing list xs) (hg : Guarded list l xs ops) :
    ∃ l', runAll list l ops = some l' ∧ l'.IsRing list (applyAll xs ops) ∧
      ∀ a, l.Unlinked a ∨ a ∈ xs ∨ a ∈ ops.flatMap Op.departed →
        l'.Unlinked a ∨ a ∈ applyAll xs ops := by
  induction ops generalizing l xs with
  | nil => exact ⟨l, rfl, h, fun a ha => ha.imp_right fun ha => ha.resolve_right (by simp)⟩
  | cons op ops ih =>
    obtain ⟨hguard, hrest⟩ := hg
    obtain ⟨l₁, hrun, hdone⟩ := Op.run_spec h hguard
    obtain ⟨l', hruns, hring, hkept⟩ := ih hdone.ring (hrest l₁ hrun)
    refine ⟨l', ?_, hring, fun a ha => hkept a ?_⟩
    · rw [runAll, hrun]
      exact hruns
    · rw [List.flatMap_cons, List.mem_append] at ha
      rcases ha with ha | ha | ha | ha
      · exact (hdone.kept h hguard (.inl ha)).imp_right .inl
      · exact (hdone.kept h hguard (.inr ha)).imp_right .inl
      · exact .inl (hdone.departed a ha)
      · exact .inr (.inr ha)

end Runs

/-- Calls that meet their guards go through on a list and leave a list: its members are those of
the sequence that the same operations make, the words of its nodes are inverse to each other, the
forward traversal meets the members in order, and what was taken out and not put back has no
links. -/
theorem runAll_isRing (l : Links ν) (list : ν) (xs : List ν) (ops : List (Op ν))
    (h : l.IsRing list xs) (hg : Guarded list l xs ops) :
    ∃ l', runAll list l ops = some l' ∧ l'.IsRing list (applyAll xs ops) ∧
      (∀ a ∈ list :: applyAll xs ops, ∀ b ∈ list :: applyAll xs ops,
        l'.next a = some b ↔ l'.prev b = some a) ∧
      (∀ fuel, (applyAll xs ops).length < fuel →
        l'.forward list fuel (l'.next list) = some (applyAll xs ops)) ∧
      ∀ a ∈ ops.flatMap Op.departed, a ∉ applyAll xs ops → l'.Unlinked a := by
  obtain ⟨l', hrun, hring, hkept⟩ := runAll_ring h hg
  refine ⟨l', hrun, hring, fun a ha b hb => hring.next_eq_iff ha hb, fun fuel hf => hring.forward hf,
    fun a ha hnot => ?_⟩
  exact (hkept a (.inr (.inr ha))).resolve_right hnot

/-- On a new list of the header 0. -/
theorem runAll_isRing_mixed :
    ∃ l', runAll 0 (listInit ⟨fun _ => none, fun _ => none⟩ 0) [.addBack 1, .addFront 2,
        .insertAfter 1 3, .insertBefore 2 4, .replaceElem 1 5, .removeElem 2, .addBack 1]
          = some l' ∧ l'.IsRing 0 [4, 5, 3, 1] := by
  have hguarded : Guarded 0 (listInit ⟨fun _ => none, fun _ => none⟩ 0) [] [.addBack 1,
      .addFront 2, .insertAfter 1 3, .insertBefore 2 4, .replaceElem 1 5, .removeElem 2,
      .addBack 1] := by
    simp [Guarded, Op.Guard, Op.added, Op.located, Op.run, Op.apply, listAddBack, listAddFront,
      listInsertAfter, listInsertBefore, listReplaceElem, listRemoveElem, setNext, setPrev,
      listInit, Links.Unlinked, insertAfter, insertBefore, Function.update, List.replace_cons]
  obtain ⟨l', hrun, hring, -⟩ := runAll_isRing (listInit ⟨fun _ => none, fun _ => none⟩ 0) 0 []
    _ (listInit_isRing _ 0) hguarded
  exact ⟨l', hrun, hring⟩

end TmkDcl.IntrusiveList
