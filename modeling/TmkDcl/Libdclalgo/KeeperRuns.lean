import TmkDcl.Lts
import TmkDcl.Libdclalgo.KeeperStore

/-!
# Runs with keepers of two element types (libdclalgo/include/ImageKeeper.h)

The objects of the element types `α` and `β` have memories of their own, and `convertTo` goes from
one to the other. In every run of operations that are `Ok` all coordinates stay independent, and
the first operation that is not ends it.
-/

namespace TmkDcl.Libdclalgo

open ImageKeeper

/-- The objects of two element types. -/
structure KeeperWorld (ι κ α β : Type*) where
  left : KeeperStore ι α
  right : KeeperStore κ β

inductive WorldOp (ι κ α β : Type*) where
  | left (op : KeeperOp ι α)
  | right (op : KeeperOp κ β)
  | convert (i : ι) (j : κ) (a : Option ℕ)
  | convertBack (j : κ) (i : ι) (a : Option ℕ)

namespace KeeperStore

variable {ι κ α β : Type*} [DecidableEq κ] [Inhabited β] {s : KeeperStore ι α}
  {t t' : KeeperStore κ β} {i : ι} {j l : κ} {f : α → β}

/-- `convertTo` of the object `i` into the object `j` of another element type. -/
def convertInto (f : α → β) (s : KeeperStore ι α) (t : KeeperStore κ β) (i : ι) (j : κ)
    (a : Option ℕ) : Option (KeeperStore κ β) :=
  (convertTo f s.mem (s.keepers i) t.mem (t.keepers j) a).map (t.put j)

theorem convertTo_inv {m : Memory α} {m' m'' : Memory β} {k other k'' : ImageKeeper} {a : Option ℕ}
    (h : k.Owns m) (h' : other.Owns m') (hc : convertTo f m k m' other a = some (m'', k'')) :
    (a = none ∧ m'' = dropped m' other ∧ k'' = ⟨k.size, k.rows, k.cols, k.channels, none⟩) ∨
    ∃ b, a = some b ∧ dropped m' other b = none ∧
      m'' = Function.update (dropped m' other) b (some ((contents m k).map f)) ∧
      k'' = ⟨k.size, k.rows, k.cols, k.channels, some b⟩ := by
  obtain ⟨⟨m₁, k₁⟩, hr, hloop⟩ := Option.bind_eq_some_iff.mp hc
  obtain ⟨m₂, hclear, hbuild⟩ := Option.bind_eq_some_iff.mp hr
  obtain rfl : dropped m' other = m₂ := Option.some.inj (h'.clear_eq.symm.trans hclear)
  cases build_built hbuild with
  | thrown =>
    cases hloop
    exact .inl ⟨rfl, rfl, by rw [h.mod_size]⟩
  | filled b xs hfree hlen =>
    have heq := convertTo_eq f h h' hfree
    rw [heq] at hc
    cases hc
    exact .inr ⟨b, rfl, hfree, rfl, rfl⟩

omit [DecidableEq κ] in
theorem Sound.convert_others {m'' : Memory β} {k'' : ImageKeeper} {a : Option ℕ} (h : s.Sound)
    (ht : t.Sound) (hc : convertTo f s.mem (s.keepers i) t.mem (t.keepers j) a = some (m'', k''))
    (l : κ) (b : ℕ) (hl : l ≠ j) (hb : (t.keepers l).data = some b) :
    m'' b = t.mem b ∧ k''.data ≠ some b := by
  obtain ⟨hne, hmem⟩ := ht.others hl hb
  have hdrop : dropped t.mem (t.keepers j) b = t.mem b := dropped_of_ne hne
  rcases convertTo_inv (h.owns i) (ht.owns j) hc with ⟨-, rfl, rfl⟩ | ⟨c, -, hfree, rfl, rfl⟩
  · exact ⟨hdrop, by simp⟩
  · have hbc : b ≠ c := by
      rintro rfl
      exact hmem (hdrop ▸ hfree)
    exact ⟨(Function.update_of_ne hbc ..).trans hdrop, fun he => hbc (Option.some.inj he).symm⟩

theorem Sound.convertInto {a : Option ℕ} (h : s.Sound) (ht : t.Sound)
    (ha : a = none → (s.keepers i).size = 0) (hc : convertInto f s t i j a = some t') :
    t'.Sound := by
  obtain ⟨⟨m'', k''⟩, hto, rfl⟩ := Option.map_eq_some_iff.mp hc
  have howns := h.owns i
  refine ht.replace ?_ fun l b hl hb => h.convert_others ht hto l b hl hb
  rcases convertTo_inv howns (ht.owns j) hto with ⟨hnone, rfl, rfl⟩ | ⟨b, -, -, rfl, rfl⟩
  · exact ⟨howns.size_eq, howns.size_lt, fun _ => ha hnone, fun b hb => absurd hb (by simp)⟩
  · refine ⟨howns.size_eq, howns.size_lt, fun he => absurd he (by simp), fun c hc => ?_⟩
    cases hc
    exact ⟨_, Function.update_self .., (List.length_map f).trans howns.length_contents⟩

/-- What `convertTo` of one object into another gives. -/
structure Converted (f : α → β) (s : KeeperStore ι α) (i : ι) (t' : KeeperStore κ β) (j : κ) :
    Prop where
  coords : (t'.keepers j).coords = (s.keepers i).coords
  read : ∀ p, t'.read j p = (s.read i p).map f

theorem Sound.convert_spec {a : ℕ} (h : s.Sound) (ht : t.Sound) (ha : t.Available j a) :
    ∃ t', KeeperStore.convertInto f s t i j (some a) = some t' ∧ Converted f s i t' j := by
  have heq := convertTo_eq f (h.owns i) (ht.owns j) (dropped_available ha)
  have hc : KeeperStore.convertInto f s t i j (some a) = some _ :=
    Option.map_eq_some_iff.mpr ⟨_, heq, rfl⟩
  have hsound := h.convertInto ht (fun he => absurd he (by simp)) hc
  refine ⟨_, hc, by rw [put_self]; rfl, fun p => ?_⟩
  rw [hsound.read_eq, h.read_eq, put_self, put_mem, contents_eq rfl (Function.update_self ..),
    List.getElem?_map]
  rfl

theorem Sound.convert_frame {a : Option ℕ} (h : s.Sound) (ht : t.Sound) (hl : l ≠ j)
    (hc : KeeperStore.convertInto f s t i j a = some t') :
    t'.keepers l = t.keepers l ∧ ∀ p, t'.read l p = t.read l p := by
  obtain ⟨⟨m'', k''⟩, hto, rfl⟩ := Option.map_eq_some_iff.mp hc
  exact read_put hl fun b hb => (h.convert_others ht hto l b hl hb).1

/-- `new` throwing leaves the dimensions of a keeper with cells and no array. -/
theorem Sound.not_independent_convert (h : s.Sound) (ht : t.Sound) (hn : (s.keepers i).size ≠ 0)
    (hc : KeeperStore.convertInto f s t i j none = some t') : ¬ t'.Independent := by
  obtain ⟨⟨m'', k''⟩, hto, rfl⟩ := Option.map_eq_some_iff.mp hc
  rcases convertTo_inv (h.owns i) (ht.owns j) hto with ⟨-, rfl, rfl⟩ | ⟨b, hb, -⟩
  · refine not_independent_of_null (i := j) (by rw [put_self]) ?_
    rw [put_self]
    exact (h.owns i).size_eq ▸ hn
  · cases hb

end KeeperStore

/-! ### Runs -/

namespace WorldOp

variable {ι κ α β : Type*}

/-- The operations after which every object has an array of its own and of its dimensions. -/
def Ok (w : KeeperWorld ι κ α β) : WorldOp ι κ α β → Prop
  | .left op => op.Ok w.left
  | .right op => op.Ok w.right
  | .convert i _ a => a = none → (w.left.keepers i).size = 0
  | .convertBack j _ a => a = none → (w.right.keepers j).size = 0

/-- The operation is one on the object `l` of the type `α`. -/
def TargetsLeft (l : ι) : WorldOp ι κ α β → Prop
  | .left op => op.Targets l
  | .convertBack _ i _ => l = i
  | _ => False

/-- The operation is one on the object `l` of the type `β`. -/
def TargetsRight (l : κ) : WorldOp ι κ α β → Prop
  | .right op => op.Targets l
  | .convert _ j _ => l = j
  | _ => False

end WorldOp

namespace KeeperWorld

open KeeperStore

variable {ι κ α β : Type*} [DecidableEq ι] [DecidableEq κ] [Inhabited α] [Inhabited β]

/-- One operation, with the conversions of elements. -/
def step (f : α → β) (g : β → α) (w : KeeperWorld ι κ α β) :
    WorldOp ι κ α β → Option (KeeperWorld ι κ α β)
  | .left op => (w.left.step op).map fun s => { w with left := s }
  | .right op => (w.right.step op).map fun t => { w with right := t }
  | .convert i j a => (convertInto f w.left w.right i j a).map fun t => { w with right := t }
  | .convertBack j i a => (convertInto g w.right w.left j i a).map fun s => { w with left := s }

/-- All objects are empty; memory may have arrays that are not theirs. -/
def system (f : α → β) (g : β → α) : Lts (KeeperWorld ι κ α β) (WorldOp ι κ α β) where
  init w := (∀ i, w.left.keepers i = empty) ∧ ∀ j, w.right.keepers j = empty
  step := step f g

/-- The coordinates of all objects are independent, conversions keep the values, and what an
operation is not on keeps its values too. -/
structure Independent (f : α → β) (g : β → α) (w : KeeperWorld ι κ α β) : Prop where
  left : w.left.Independent
  right : w.right.Independent
  convert : ∀ i j a, w.right.Available j a → ∃ w', step f g w (.convert i j (some a)) = some w' ∧
    Converted f w.left i w'.right j
  convertBack : ∀ j i a, w.left.Available i a →
    ∃ w', step f g w (.convertBack j i (some a)) = some w' ∧ Converted g w.right j w'.left i
  frame : ∀ op w', step f g w op = some w' →
    (∀ l, ¬ op.TargetsLeft l → w'.left.keepers l = w.left.keepers l ∧
      ∀ p, w'.left.read l p = w.left.read l p) ∧
    ∀ l, ¬ op.TargetsRight l → w'.right.keepers l = w.right.keepers l ∧
      ∀ p, w'.right.read l p = w.right.read l p

section Runs

variable {f : α → β} {g : β → α} {w w' : KeeperWorld ι κ α β}

/-- Every object of both types has its array to itself. -/
def Sound (w : KeeperWorld ι κ α β) : Prop := w.left.Sound ∧ w.right.Sound

theorem Sound.step {op : WorldOp ι κ α β} (h : w.Sound) (ho : op.Ok w)
    (hs : step f g w op = some w') : w'.Sound := by
  cases op with
  | left op =>
    obtain ⟨s, hleft, rfl⟩ := Option.map_eq_some_iff.mp hs
    exact ⟨h.1.step ho hleft, h.2⟩
  | right op =>
    obtain ⟨t, hright, rfl⟩ := Option.map_eq_some_iff.mp hs
    exact ⟨h.1, h.2.step ho hright⟩
  | convert i j a =>
    obtain ⟨t, hright, rfl⟩ := Option.map_eq_some_iff.mp hs
    exact ⟨h.1, h.1.convertInto h.2 ho hright⟩
  | convertBack j i a =>
    obtain ⟨s, hleft, rfl⟩ := Option.map_eq_some_iff.mp hs
    exact ⟨h.2.convertInto h.1 ho hleft, h.2⟩

theorem Sound.frame {op : WorldOp ι κ α β} (h : w.Sound)
    (hs : KeeperWorld.step f g w op = some w') :
    (∀ l, ¬ op.TargetsLeft l → w'.left.keepers l = w.left.keepers l ∧
      ∀ p, w'.left.read l p = w.left.read l p) ∧
    ∀ l, ¬ op.TargetsRight l → w'.right.keepers l = w.right.keepers l ∧
      ∀ p, w'.right.read l p = w.right.read l p := by
  cases op with
  | left op =>
    obtain ⟨s, hleft, rfl⟩ := Option.map_eq_some_iff.mp hs
    exact ⟨fun l hl => h.1.frame hleft hl, fun l _ => ⟨rfl, fun _ => rfl⟩⟩
  | right op =>
    obtain ⟨t, hright, rfl⟩ := Option.map_eq_some_iff.mp hs
    exact ⟨fun l _ => ⟨rfl, fun _ => rfl⟩, fun l hl => h.2.frame hright hl⟩
  | convert i j a =>
    obtain ⟨t, hright, rfl⟩ := Option.map_eq_some_iff.mp hs
    exact ⟨fun l _ => ⟨rfl, fun _ => rfl⟩, fun l hl => h.1.convert_frame h.2 hl hright⟩
  | convertBack j i a =>
    obtain ⟨s, hleft, rfl⟩ := Option.map_eq_some_iff.mp hs
    exact ⟨fun l hl => h.2.convert_frame h.1 hl hleft, fun l _ => ⟨rfl, fun _ => rfl⟩⟩

theorem Sound.independent (h : w.Sound) : w.Independent f g := by
  refine ⟨h.1.independent, h.2.independent, fun i j a ha => ?_, fun j i a ha => ?_,
    fun op w' hs => h.frame hs⟩
  · obtain ⟨t, ht, hspec⟩ := h.1.convert_spec (i := i) (f := f) h.2 ha
    exact ⟨{ w with right := t }, by rw [KeeperWorld.step, ht]; rfl, hspec⟩
  · obtain ⟨s, hs, hspec⟩ := h.2.convert_spec (i := j) (f := g) h.1 ha
    exact ⟨{ w with left := s }, by rw [KeeperWorld.step, hs]; rfl, hspec⟩

/-- The first operation that is not `Ok` ends the independence. -/
theorem Sound.not_independent {op : WorldOp ι κ α β} (h : w.Sound) (ho : ¬ op.Ok w)
    (hs : KeeperWorld.step f g w op = some w') : ¬ w'.Independent f g := by
  intro hind
  cases op with
  | left op =>
    obtain ⟨s, hleft, rfl⟩ := Option.map_eq_some_iff.mp hs
    exact h.1.not_independent ho hleft hind.left
  | right op =>
    obtain ⟨t, hright, rfl⟩ := Option.map_eq_some_iff.mp hs
    exact h.2.not_independent ho hright hind.right
  | convert i j a =>
    obtain ⟨t, hright, rfl⟩ := Option.map_eq_some_iff.mp hs
    obtain ⟨rfl, hsize⟩ := Classical.not_imp.mp ho
    exact h.1.not_independent_convert h.2 hsize hright hind.right
  | convertBack j i a =>
    obtain ⟨s, hleft, rfl⟩ := Option.map_eq_some_iff.mp hs
    obtain ⟨rfl, hsize⟩ := Classical.not_imp.mp ho
    exact h.2.not_independent_convert h.1 hsize hleft hind.left

theorem reach_sound (h : (system f g).Reach (fun w op => op.Ok w) w) : w.Sound := by
  refine h.invariant Sound (fun w hw => ?_) fun w op w' _ hI ho hs => hI.step ho hs
  have hnone : ∀ b, ImageKeeper.empty.data ≠ some b := fun b => by simp [empty]
  refine ⟨⟨fun i => ?_, fun i j b hb => ?_⟩, fun i => ?_, fun i j b hb => ?_⟩
  · exact hw.1 i ▸ empty_owns w.left.mem
  · exact absurd (hw.1 i ▸ hb) (hnone b)
  · exact hw.2 i ▸ empty_owns w.right.mem
  · exact absurd (hw.2 i ▸ hb) (hnone b)

end Runs

/-- In a run whose operations are all `Ok` the coordinates of all objects are independent, and the
next operation keeps them so exactly if it is `Ok`. -/
theorem reach_independent (f : α → β) (g : β → α) (w : KeeperWorld ι κ α β)
    (h : (system f g).Reach (fun w op => op.Ok w) w) :
    w.Independent f g ∧
      ∀ op w', step f g w op = some w' → (w'.Independent f g ↔ op.Ok w) := by
  have hsound := reach_sound h
  refine ⟨hsound.independent, fun op w' hs => ⟨fun hind => ?_, fun ho => ?_⟩⟩
  · by_contra ho
    exact hsound.not_independent ho hs hind
  · exact (hsound.step ho hs).independent

/-- One object of each type, and no other array. -/
def blank : KeeperWorld Unit Unit ℕ ℕ :=
  ⟨⟨fun _ => none, fun _ => empty⟩, ⟨fun _ => none, fun _ => empty⟩⟩

/-- An image of 2 rows, 3 columns and 2 channels is made, and a converted one of it. -/
theorem reach_independent_converted :
    ∃ w w' : KeeperWorld Unit Unit ℕ ℕ,
      step id id blank (.left (.recreate () 2 3 2 none (some 0))) = some w ∧
      step id id w (.convert () () (some 0)) = some w' ∧ w'.Independent id id := by
  obtain ⟨w, hw⟩ : ∃ w : KeeperWorld Unit Unit ℕ ℕ,
      step id id blank (.left (.recreate () 2 3 2 none (some 0))) = some w := ⟨_, rfl⟩
  have hok : (WorldOp.left (.recreate () 2 3 2 none (some 0))).Ok blank :=
    ⟨by decide, fun he => absurd he (by simp)⟩
  have hinit : (system id id).init blank := ⟨fun _ => rfl, fun _ => rfl⟩
  have hmade : (system id id).Reach (fun w op => op.Ok w) w := .step (.init hinit) hok hw
  obtain ⟨hind, hnext⟩ := reach_independent id id w hmade
  have hfree : w.right.Available () 0 := by
    cases hw
    exact .inl rfl
  obtain ⟨w', hs, -⟩ := hind.convert () () 0 hfree
  exact ⟨w, w', hw, hs, (hnext _ w' hs).mpr fun he => absurd he (by simp)⟩

/-- With 2^63 + 1 rows of 2 columns the size is 2, and the cells (0, 0) and (2^63, 0) are one. -/
theorem not_independent_overflow :
    ∃ w : KeeperWorld Unit Unit ℕ ℕ,
      step id id blank (.left (.recreate () 9223372036854775809 2 1 none (some 0))) = some w ∧
      (w.left.keepers ()).size = 2 ∧
      (w.left.keepers ()).index (9223372036854775808, 0, 0) =
        (w.left.keepers ()).index (0, 0, 0) ∧
      ¬ w.Independent id id := by
  refine ⟨_, rfl, by rfl, by rfl, fun hind => ?_⟩
  exact not_bijOn rfl (by decide) (hind.left.index ())

end KeeperWorld

end TmkDcl.Libdclalgo
