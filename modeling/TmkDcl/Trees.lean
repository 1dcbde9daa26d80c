import Mathlib.Data.List.Basic
import Mathlib.Data.Nat.Notation

/-!
# Trees and cursors

An ordered tree whose children have keys, with positions as lists of indices, and programs that work on a
tree through a stack of positions. A program is focused if all that it does is a function of the subtree
at the position on top: what it returns, and what it leaves there. Focused programs compose, so a program
that walks over a tree is described by two recursive functions on trees.
-/

namespace TmkDcl

inductive Tree (δ κ : Type*) where
  | node (data : δ) (children : List (κ × Tree δ κ))

namespace Tree

variable {δ κ : Type*}

def data : Tree δ κ → δ
  | node d _ => d

def children : Tree δ κ → List (κ × Tree δ κ)
  | node _ cs => cs

@[simp] theorem data_node (d : δ) (cs : List (κ × Tree δ κ)) : (node d cs).data = d := rfl

@[simp] theorem children_node (d : δ) (cs : List (κ × Tree δ κ)) : (node d cs).children = cs := rfl

@[simp] theorem node_data_children (t : Tree δ κ) : node t.data t.children = t := by
  cases t
  rfl

/-! ### Positions -/

def at? : List ℕ → Tree δ κ → Option (Tree δ κ)
  | [], t => some t
  | i :: p, t => t.children[i]?.bind fun c => at? p c.2

def modify : List ℕ → (Tree δ κ → Tree δ κ) → Tree δ κ → Tree δ κ
  | [], f, t => f t
  | i :: p, f, t => node t.data (t.children.modify i fun c => (c.1, modify p f c.2))

variable {t u : Tree δ κ} {p q : List ℕ} {f g : Tree δ κ → Tree δ κ}

theorem at?_append : at? (p ++ q) t = (at? p t).bind (at? q) := by
  induction p generalizing t with
  | nil => rfl
  | cons i p ih =>
    simp only [List.cons_append, at?]
    cases t.children[i]? with
    | none => rfl
    | some c => exact ih

theorem at?_modify (h : at? p t = some u) : at? p (modify p f t) = some (f u) := by
  induction p generalizing t with
  | nil =>
    cases h
    rfl
  | cons i p ih =>
    obtain ⟨c, hc, hu⟩ := Option.bind_eq_some_iff.mp h
    simp only [modify, at?, children_node, List.getElem?_modify_eq, hc, Option.map_eq_map,
      Option.map_some, Option.bind_some]
    exact ih hu

theorem modify_append : modify (p ++ q) f t = modify p (modify q f) t := by
  induction p generalizing t with
  | nil => rfl
  | cons i p ih =>
    rw [List.cons_append, modify, modify]
    congr 2
    funext c
    rw [ih]

theorem modify_modify : modify p g (modify p f t) = modify p (g ∘ f) t := by
  induction p generalizing t with
  | nil => rfl
  | cons i p ih =>
    simp only [modify, children_node, data_node, List.modify_modify_eq]
    congr 2
    funext c
    simp only [Function.comp_apply, ih]

theorem modify_id : modify p id t = t := by
  induction p generalizing t with
  | nil => rfl
  | cons i p ih =>
    have hid : (fun c : κ × Tree δ κ => (c.1, modify p id c.2)) = id := funext fun c => by simp [ih]
    rw [modify, hid, List.modify_id, node_data_children]

/-- What is written at a position counts only for the tree that is there. -/
theorem modify_congr (h : at? p t = some u) (hfg : f u = g u) : modify p f t = modify p g t := by
  induction p generalizing t with
  | nil =>
    cases h
    exact hfg
  | cons i p ih =>
    obtain ⟨c, hc, hu⟩ := Option.bind_eq_some_iff.mp h
    simp only [modify]
    congr 1
    refine List.ext_getElem? fun j => ?_
    simp only [List.getElem?_modify]
    by_cases hij : i = j
    · subst hij
      simp [hc, ih hu]
    · simp [hij]

/-! ### Keys -/

section Keys

variable [DecidableEq κ] {k : κ} {i : ℕ}

/-- The index of the first child with the key. -/
def index? (k : κ) (t : Tree δ κ) : Option ℕ := t.children.findIdx? (·.1 = k)

/-- The first child with the key. -/
def child? (k : κ) (t : Tree δ κ) : Option (Tree δ κ) := (t.index? k).bind fun i => at? [i] t

def addChild (k : κ) (c t : Tree δ κ) : Tree δ κ := node t.data (t.children ++ [(k, c)])

/-- With a child of the key, a new one at the end if there is none. -/
def ensure (k : κ) (c t : Tree δ κ) : Tree δ κ :=
  match t.index? k with
  | some _ => t
  | none => addChild k c t

theorem at?_of_index? (h : t.index? k = some i) : ∃ c, at? [i] t = some c := by
  have hlt := (List.findIdx?_eq_some_iff_getElem.mp h).1
  exact ⟨(t.children[i]).2, by simp [at?, hlt]⟩

theorem index?_addChild (c : Tree δ κ) (h : t.index? k = none) :
    (addChild k c t).index? k = some t.children.length := by
  have hnone : t.children.findIdx? (·.1 = k) = none := h
  simp [index?, addChild, List.findIdx?_append, hnone]

theorem index?_ensure (c : Tree δ κ) : ∃ i, (ensure k c t).index? k = some i := by
  rw [ensure]
  cases h : t.index? k with
  | some i => exact ⟨i, h⟩
  | none => exact ⟨_, index?_addChild c h⟩

theorem child?_ensure (c : Tree δ κ) : (ensure k c t).child? k = some ((t.child? k).getD c) := by
  rw [ensure]
  cases h : t.index? k with
  | some i =>
    obtain ⟨d, hd⟩ := at?_of_index? h
    simp [child?, h, hd]
  | none =>
    rw [child?, index?_addChild c h]
    simp [child?, h, at?, addChild]

theorem child?_ensure_of_ne {j : κ} (hjk : j ≠ k) (c : Tree δ κ) :
    (ensure k c t).child? j = t.child? j := by
  rw [ensure]
  cases h : t.index? k with
  | some i => rfl
  | none =>
    have hindex : (addChild k c t).index? j = t.index? j := by
      have hnot : k ≠ j := fun he => hjk he.symm
      simp [index?, addChild, List.findIdx?_append, hnot]
    simp only [child?, hindex]
    refine Option.bind_congr fun i hi => ?_
    have hlt := (List.findIdx?_eq_some_iff_getElem.mp hi).1
    simp [at?, addChild, List.getElem?_append_left hlt]

/-- The tree after `f` at the first child with the key. -/
def modifyChild (k : κ) (f : Tree δ κ → Tree δ κ) (t : Tree δ κ) : Tree δ κ :=
  match t.index? k with
  | some i => modify [i] f t
  | none => t

theorem modifyChild_id : modifyChild k (fun t => t) t = t := by
  rw [modifyChild]
  split
  · exact modify_id
  · rfl

theorem index?_modify {j : κ} : (modify [i] f t).index? j = t.index? j := by
  have hkeys : ∀ cs : List (κ × Tree δ κ), cs.findIdx? (·.1 = j) =
      (cs.map Prod.fst).findIdx? (· = j) := fun cs => by rw [List.findIdx?_map]; rfl
  have hsame : (modify [i] f t).children.map Prod.fst = t.children.map Prod.fst := by
    refine List.ext_getElem? fun n => ?_
    simp only [modify, children_node, List.getElem?_map, List.getElem?_modify]
    cases t.children[n]? with
    | none => rfl
    | some c => by_cases hin : i = n <;> simp [hin]
  rw [index?, index?, hkeys, hkeys, hsame]

theorem child?_modifyChild : (modifyChild k f t).child? k = (t.child? k).map f := by
  rw [modifyChild]
  cases h : t.index? k with
  | none => simp [child?, h]
  | some i =>
    obtain ⟨c, hc⟩ := at?_of_index? h
    rw [child?, index?_modify, child?, h, Option.bind_some, Option.bind_some, hc]
    rw [at?_modify hc]
    rfl

theorem child?_modifyChild_of_ne {j : κ} (hjk : j ≠ k) : (modifyChild k f t).child? j = t.child? j := by
  rw [modifyChild]
  cases h : t.index? k with
  | none => rfl
  | some i =>
    rw [child?, index?_modify, child?]
    refine Option.bind_congr fun n hn => ?_
    have hi := (List.findIdx?_eq_some_iff_getElem.mp h).2.1
    have hj := (List.findIdx?_eq_some_iff_getElem.mp hn).2.1
    have hne : i ≠ n := by
      rintro rfl
      simp only [decide_eq_true_eq] at hi hj
      exact hjk (hj.symm.trans hi)
    simp [at?, modify, hne]

end Keys

/-! ### Programs -/

/-- A tree and a stack of positions in it. -/
structure Cursors (δ κ : Type) where
  tree : Tree δ κ
  stack : List (List ℕ)

abbrev Program (δ κ α : Type) := StateT (Cursors δ κ) Option α

end Tree

namespace Tree.Program

variable {δ κ α β : Type}

/-- The position on top of the stack, which is not empty. -/
def top : Program δ κ (List ℕ) := fun s => s.stack.head?.map fun p => (p, s)

/-- The subtree at the position on top. -/
def current : Program δ κ (Tree δ κ) := fun s =>
  (s.stack.head?.bind fun p => at? p s.tree).map fun t => (t, s)

def push (p : List ℕ) : Program δ κ Unit := fun s => some ((), { s with stack := p :: s.stack })

def pop : Program δ κ Unit := fun s =>
  match s.stack with
  | [] => none
  | _ :: stack => some ((), { s with stack := stack })

def read (f : Tree δ κ → α) : Program δ κ α := do
  let t ← current
  pure (f t)

/-- `m` with the cursor on the child `i`. -/
def below (i : ℕ) (m : Program δ κ α) : Program δ κ α := do
  let p ← top
  push (p ++ [i])
  let a ← m
  pop
  pure a

/-- Puts the cursor on the first child with the key, which is `c` at the end if there is none. The root
stands for the position on top of an empty stack. -/
def enter [DecidableEq κ] (k : κ) (c : Tree δ κ) : Program δ κ Unit := fun s => do
  let p := s.stack.headD []
  let t ← at? p s.tree
  let i ← (ensure k c t).index? k
  push (p ++ [i]) { s with tree := modify p (ensure k c) s.tree }

def within [DecidableEq κ] (k : κ) (c : Tree δ κ) (m : Program δ κ α) : Program δ κ α := do
  enter k c
  let a ← m
  pop
  pure a

def visit (skip : κ → Bool) (body : κ → Program δ κ α) : List ℕ → Program δ κ (List α)
  | [] => pure []
  | i :: is => do
    let t ← current
    match t.children[i]? with
    | none => failure
    | some c =>
      if skip c.1 then visit skip body is
      else do
        let a ← below i (body c.1)
        let as ← visit skip body is
        pure (a :: as)

/-- `body` with the cursor on each child in turn, but for those with a key to skip. -/
def forChildren (skip : κ → Bool) (body : κ → Program δ κ α) : Program δ κ (List α) := do
  let t ← current
  visit skip body (List.range t.children.length)

/-- All that `m` does is to return `r` of the subtree at the cursor and to leave `w` of it there. -/
def Focused (m : Program δ κ α) (r : Tree δ κ → α) (w : Tree δ κ → Tree δ κ) : Prop :=
  ∀ s p t, s.stack.head? = some p → at? p s.tree = some t →
    m s = some (r t, { s with tree := modify p w s.tree })

variable {m : Program δ κ α} {r : Tree δ κ → α} {w : Tree δ κ → Tree δ κ}
  {s : Cursors δ κ} {p : List ℕ} {t c : Tree δ κ} {i : ℕ}

theorem run_bind {f : α → Program δ κ β} {a : α} {s' : Cursors δ κ} (h : m s = some (a, s')) :
    (m >>= f) s = f a s' := by
  show (m s >>= fun x => f x.1 x.2) = f a s'
  rw [h]
  rfl

theorem focused_pure (a : α) : Focused (pure a : Program δ κ α) (fun _ => a) id := by
  intro s p t _ _
  rw [modify_id]
  rfl

theorem Focused.bind {f : α → Program δ κ β} {r' : α → Tree δ κ → β} {w' : Tree δ κ → Tree δ κ}
    (hm : Focused m r w) (hf : ∀ a, Focused (f a) (r' a) w') :
    Focused (m >>= f) (fun t => r' (r t) (w t)) (w' ∘ w) := by
  intro s p t hp ht
  rw [run_bind (hm s p t hp ht), hf (r t) { s with tree := modify p w s.tree } p (w t) hp (at?_modify ht)]
  simp only [modify_modify]

theorem Focused.congr {r' : Tree δ κ → α} {w' : Tree δ κ → Tree δ κ} (hm : Focused m r w)
    (hr : ∀ t, r t = r' t) (hw : ∀ t, w t = w' t) : Focused m r' w' := by
  obtain rfl : r = r' := funext hr
  obtain rfl : w = w' := funext hw
  exact hm

theorem current_eq (hp : s.stack.head? = some p) (ht : at? p s.tree = some t) :
    (current : Program δ κ (Tree δ κ)) s = some (t, s) := by
  simp [current, hp, ht]

theorem focused_read (f : Tree δ κ → α) : Focused (read f) f id := by
  intro s p t hp ht
  rw [read, run_bind (current_eq hp ht), modify_id]
  rfl

theorem Focused.after_read {f : Tree δ κ → α} {g : α → Program δ κ β} {r' : α → Tree δ κ → β}
    (hg : ∀ a, Focused (g a) (r' a) w) : Focused (read f >>= g) (fun t => r' (f t) t) w :=
  ((focused_read f).bind hg).congr (fun _ => rfl) fun _ => rfl

/-- The program between a push and the pop that belongs to it. -/
theorem run_pushed (hm : Focused m r w) {q : List ℕ} (hc : at? q s.tree = some c) :
    (do push q; let a ← m; pop; pure a : Program δ κ α) s =
      some (r c, { s with tree := modify q w s.tree }) := by
  have hpush : (push q : Program δ κ Unit) s = some ((), { s with stack := q :: s.stack }) := rfl
  rw [run_bind hpush, run_bind (hm { s with stack := q :: s.stack } q c rfl hc)]
  rfl

theorem run_below (hm : Focused m r w) (hp : s.stack.head? = some p) (ht : at? p s.tree = some t)
    (hc : at? [i] t = some c) :
    below i m s = some (r c, { s with tree := modify p (modify [i] w) s.tree }) := by
  have htop : (top : Program δ κ (List ℕ)) s = some (p, s) := by simp [top, hp]
  have hchild : at? (p ++ [i]) s.tree = some c := by rw [at?_append, ht, Option.bind_some, hc]
  rw [below, run_bind htop, run_pushed hm hchild, modify_append]

section Within

variable [DecidableEq κ] {k : κ}

theorem run_within (hm : Focused m r w) (hp : s.stack.headD [] = p) (ht : at? p s.tree = some t) :
    within k c m s = some (r ((t.child? k).getD c),
      { s with tree := modify p (modifyChild k w ∘ ensure k c) s.tree }) := by
  obtain ⟨i, hi⟩ := index?_ensure (t := t) (k := k) c
  have hchild := child?_ensure (t := t) (k := k) c
  rw [child?, hi, Option.bind_some] at hchild
  have hat : at? (p ++ [i]) (modify p (ensure k c) s.tree) = some ((t.child? k).getD c) := by
    rw [at?_append, at?_modify ht, Option.bind_some, hchild]
  have henter : enter k c s = push (p ++ [i]) { s with tree := modify p (ensure k c) s.tree } := by
    simp only [enter, hp, ht, hi, Option.bind_eq_bind, Option.bind_some]
  have hrun := run_pushed hm (s := { s with tree := modify p (ensure k c) s.tree }) hat
  have hsame : within k c m s = (do push (p ++ [i]); let a ← m; pop; pure a : Program δ κ α)
      { s with tree := modify p (ensure k c) s.tree } := by
    show (enter k c s >>= fun x => _) = _
    rw [henter]
    rfl
  rw [hsame, hrun, modify_append, modify_modify]
  have hwrite : (modify [i] w ∘ ensure k c) t = (modifyChild k w ∘ ensure k c) t := by
    simp only [Function.comp_apply, modifyChild, hi]
  rw [modify_congr ht hwrite]

theorem focused_within (hm : Focused m r w) :
    Focused (within k c m) (fun t => r ((t.child? k).getD c)) (modifyChild k w ∘ ensure k c) := by
  intro s p t hp ht
  exact run_within hm (by rw [List.headD_eq_head?_getD, hp, Option.getD_some]) ht

end Within

section Children

variable {skip : κ → Bool} {body : κ → Program δ κ α} {r : κ → Tree δ κ → α}
  {w : κ → Tree δ κ → Tree δ κ}

/-- What the loop over the children leaves of one of them. -/
def walked (skip : κ → Bool) (w : κ → Tree δ κ → Tree δ κ) (c : κ × Tree δ κ) : κ × Tree δ κ :=
  if skip c.1 then c else (c.1, w c.1 c.2)

/-- The loop over the children behind those that are done. -/
theorem run_visit (skip : κ → Bool) (hbody : ∀ k, Focused (body k) (r k) (w k)) {d : δ} (todo : List (κ × Tree δ κ))
    (done : List (κ × Tree δ κ)) (hp : s.stack.head? = some p)
    (ht : at? p s.tree = some (node d (done ++ todo))) :
    visit skip body (List.range' done.length todo.length) s =
      some ((todo.filter fun c => !skip c.1).map (fun c => r c.1 c.2),
        { s with tree := modify p (fun _ => node d (done ++ todo.map (walked skip w))) s.tree }) := by
  induction todo generalizing done s with
  | nil =>
    have hsame := modify_congr (f := fun _ => node d (done ++ [])) (g := id) ht rfl
    rw [modify_id] at hsame
    simp only [List.map_nil, hsame]
    rfl
  | cons c todo ih =>
    have hget : (node d (done ++ c :: todo)).children[done.length]? = some c := by simp
    have hrange : List.range' done.length (c :: todo).length =
        done.length :: List.range' (done ++ [c]).length todo.length := by
      simp [List.range'_succ]
    rw [hrange, visit, run_bind (current_eq hp ht), hget]
    cases hskip : skip c.1 with
    | true =>
      have hrest := ih (done ++ [c]) hp (by simpa using ht)
      simp only [if_true, hskip, Bool.not_true, Bool.false_eq_true, not_false_eq_true,
        List.filter_cons_of_neg]
      rw [hrest]
      simp [walked, hskip]
    | false =>
      have hat : at? [done.length] (node d (done ++ c :: todo)) = some c.2 := by simp [at?]
      have hone := run_below (hbody c.1) hp ht hat
      have hwrite : modify [done.length] (w c.1) (node d (done ++ c :: todo)) =
          node d ((done ++ [walked skip w c]) ++ todo) := by
        simp [modify, walked, hskip, List.modify_eq_take_cons_drop]
      have hnext := at?_modify (f := modify [done.length] (w c.1)) ht
      rw [hwrite] at hnext
      have hrest := ih (s := { s with tree := modify p (modify [done.length] (w c.1)) s.tree })
        (done ++ [walked skip w c]) hp hnext
      have hlength : (done ++ [walked skip w c]).length = (done ++ [c]).length := by simp
      rw [hlength] at hrest
      simp only [Bool.false_eq_true, if_false, hskip, Bool.not_false, List.filter_cons_of_pos,
        List.map_cons]
      rw [run_bind hone, run_bind hrest, modify_modify]
      simp [Function.comp_def]
      rfl

theorem focused_forChildren (hbody : ∀ k, Focused (body k) (r k) (w k)) :
    Focused (forChildren skip body)
      (fun t => (t.children.filter fun c => !skip c.1).map fun c => r c.1 c.2)
      (fun t => node t.data (t.children.map (walked skip w))) := by
  intro s p t hp ht
  obtain ⟨d, cs⟩ := t
  rw [forChildren, run_bind (current_eq hp ht), List.range_eq_range']
  have hrun := run_visit skip hbody cs [] hp ht
  rw [List.length_nil] at hrun
  rw [children_node, hrun]
  congr 3
  exact modify_congr ht rfl

end Children

end Tree.Program

end TmkDcl
