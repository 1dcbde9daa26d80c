import Mathlib.Logic.Equiv.Basic
import TmkDcl.Libdclalgo.ImageKeeper

/-!
# Keepers of one element type (libdclalgo/include/ImageKeeper.h)

Any number of objects of the class over one memory, and what the callers do with them. As long as
every object has an array of its own the coordinates of all objects are independent of each other.
Three things end that: dimensions whose product leaves `size_t`, `new` throwing in an object that is
used on, and the copy constructor that the class does not declare and so gets, which copies `_data`.
-/

namespace TmkDcl.Libdclalgo

open ImageKeeper

/-- The objects and the memory that their arrays are in, among others. -/
structure KeeperStore (ι α : Type*) where
  mem : Memory α
  keepers : ι → ImageKeeper

/-- What is done with the objects; the address is what `new` gives. `recreate` on an empty object is
its constructor. -/
inductive KeeperOp (ι α : Type*) where
  | recreate (i : ι) (rows cols channels : ℕ) (dataptr a : Option ℕ)
  | assign (i j : ι) (a : Option ℕ)
  | write (i : ι) (p : ℕ × ℕ × ℕ) (v : α)
  | swap (i j : ι)
  | copy (i j : ι)
  | destroy (i : ι)

namespace KeeperStore

variable {ι α : Type*}

/-- The value that `at(row, col, channel)` of the object `i` reads. -/
def read (s : KeeperStore ι α) (i : ι) (p : ℕ × ℕ × ℕ) : Option α :=
  atIndex s.mem (s.keepers i) ((s.keepers i).index p)

/-- An address that `new` may give once the object `i` has deleted its array. -/
def Available (s : KeeperStore ι α) (i : ι) (a : ℕ) : Prop :=
  s.mem a = none ∨ (s.keepers i).data = some a

variable [DecidableEq ι]

def put (s : KeeperStore ι α) (i : ι) (r : Memory α × ImageKeeper) : KeeperStore ι α :=
  ⟨r.1, Function.update s.keepers i r.2⟩

@[simp] theorem put_mem (s : KeeperStore ι α) (i : ι) (r : Memory α × ImageKeeper) :
    (s.put i r).mem = r.1 := rfl

@[simp] theorem put_self (s : KeeperStore ι α) (i : ι) (r : Memory α × ImageKeeper) :
    (s.put i r).keepers i = r.2 := Function.update_self ..

theorem put_of_ne (s : KeeperStore ι α) {i l : ι} (h : l ≠ i) (r : Memory α × ImageKeeper) :
    (s.put i r).keepers l = s.keepers l := Function.update_of_ne h ..

/-- `operator=` (`ImageKeeper.h:29-35`). -/
def assign [Inhabited α] (s : KeeperStore ι α) (i j : ι) (a : Option ℕ) :
    Option (KeeperStore ι α) :=
  if i = j then some s
  else
    (recreate s.mem (s.keepers i) (s.keepers j).rows (s.keepers j).cols (s.keepers j).channels
      (s.keepers j).data a).map (s.put i)

/-- One operation; `none` is an exception of `at`, or an access outside of live memory. -/
def step [Inhabited α] (s : KeeperStore ι α) : KeeperOp ι α → Option (KeeperStore ι α)
  | .recreate i rows cols channels dataptr a =>
    (recreate s.mem (s.keepers i) rows cols channels dataptr a).map (s.put i)
  | .assign i j a => s.assign i j a
  | .write i p v =>
    (setIndex s.mem (s.keepers i) ((s.keepers i).index p) v).map fun m => { s with mem := m }
  | .swap i j => some { s with keepers := s.keepers ∘ Equiv.swap i j }
  | .copy i j =>
    if s.keepers i = empty ∧ i ≠ j then some (s.put i (s.mem, s.keepers j)) else none
  | .destroy i => (deleteArray s.mem (s.keepers i).data).map fun m => s.put i (m, empty)

end KeeperStore

/-- The operation is one on the object `l`. -/
def KeeperOp.Targets {ι α : Type*} (l : ι) : KeeperOp ι α → Prop
  | .recreate i _ _ _ _ _ | .assign i _ _ | .write i _ _ | .copy i _ | .destroy i => l = i
  | .swap i j => l = i ∨ l = j

namespace KeeperStore

variable {ι α : Type*} [DecidableEq ι] [Inhabited α]

/-- The coordinates of the objects are independent: those of an object are the indexes of its array,
a write changes what is read at no other coordinate, assignment keeps the values, and no operation
on other objects changes them. -/
structure Independent (s : KeeperStore ι α) : Prop where
  index : ∀ i, Set.BijOn (s.keepers i).index (s.keepers i).coords (Finset.range (s.keepers i).size)
  write : ∀ i p v, p ∈ (s.keepers i).coords → ∃ s', s.step (.write i p v) = some s' ∧
    s'.read i p = some v ∧ ∀ q ∈ (s.keepers i).coords, q ≠ p → s'.read i q = s.read i q
  assign : ∀ i j a, s.Available i a → ∃ s', s.step (.assign i j (some a)) = some s' ∧
    (s'.keepers i).coords = (s.keepers j).coords ∧ ∀ p, s'.read i p = s.read j p
  frame : ∀ op s' l, s.step op = some s' → ¬ op.Targets l →
    s'.keepers l = s.keepers l ∧ ∀ p, s'.read l p = s.read l p

end KeeperStore

/-- An operation after which every object still has an array of its own and the size of its
dimensions. -/
def KeeperOp.Ok {ι α : Type*} (s : KeeperStore ι α) : KeeperOp ι α → Prop
  | .recreate _ rows cols channels _ a =>
    rows * cols * channels < UInt64.size ∧ (a = none → rows * cols * channels = 0)
  | .assign i j a => a = none → i = j ∨ (s.keepers j).size = 0
  | .copy _ j => (s.keepers j).data = none
  | _ => True

namespace KeeperStore

variable {ι α : Type*}

/-- Every object has its array to itself. -/
structure Sound (s : KeeperStore ι α) : Prop where
  owns : ∀ i, (s.keepers i).Owns s.mem
  apart : ∀ i j a, (s.keepers i).data = some a → (s.keepers j).data = some a → i = j

section Sound

variable {s s' : KeeperStore ι α} {i j l : ι} {k : ImageKeeper} {m : Memory α} {a b : ℕ}

theorem Sound.others (h : s.Sound) (hj : j ≠ i) (hb : (s.keepers j).data = some b) :
    (s.keepers i).data ≠ some b ∧ s.mem b ≠ none := by
  refine ⟨fun hi => hj (h.apart j i b hb hi), ?_⟩
  obtain ⟨xs, hxs, -⟩ := (h.owns j).array b hb
  rw [hxs]
  exact Option.some_ne_none xs

theorem owns_congr (h : k.Owns s.mem) (hm : ∀ b, k.data = some b → m b = s.mem b) : k.Owns m := by
  refine ⟨h.size_eq, h.size_lt, h.null, fun b hb => ?_⟩
  rw [hm b hb]
  exact h.array b hb

/-- One object and memory change, but no array of another object. -/
theorem Sound.replace [DecidableEq ι] (h : s.Sound) (hk : k.Owns m)
    (hframe : ∀ j b, j ≠ i → (s.keepers j).data = some b → m b = s.mem b ∧ k.data ≠ some b) :
    (s.put i (m, k)).Sound := by
  constructor
  · intro j
    by_cases hj : j = i
    · subst hj
      rw [put_self]
      exact hk
    · rw [put_of_ne s hj]
      exact owns_congr (h.owns j) fun b hb => (hframe j b hj hb).1
  · intro j l b hjb hlb
    by_cases hj : j = i <;> by_cases hl : l = i
    · rw [hj, hl]
    · subst hj
      rw [put_self] at hjb
      rw [put_of_ne s hl] at hlb
      exact absurd hjb (hframe l b hl hlb).2
    · subst hl
      rw [put_self] at hlb
      rw [put_of_ne s hj] at hjb
      exact absurd hlb (hframe j b hj hjb).2
    · rw [put_of_ne s hj] at hjb
      rw [put_of_ne s hl] at hlb
      exact h.apart j l b hjb hlb

theorem atIndex_congr {n : ℕ} (hm : ∀ b, k.data = some b → m b = s.mem b) :
    atIndex m k n = atIndex s.mem k n := by
  unfold atIndex
  split
  · rfl
  · cases hd : k.data with
    | none => rfl
    | some b => rw [Option.bind_some, Option.bind_some, hm b hd]

theorem read_put [DecidableEq ι] (hl : l ≠ i)
    (hframe : ∀ b, (s.keepers l).data = some b → m b = s.mem b) :
    (s.put i (m, k)).keepers l = s.keepers l ∧
      ∀ p, (s.put i (m, k)).read l p = s.read l p := by
  refine ⟨put_of_ne s hl _, fun p => ?_⟩
  rw [read, put_of_ne s hl]
  exact atIndex_congr hframe

end Sound

section Steps

variable {s s' : KeeperStore ι α} {i j l : ι} {m m' : Memory α} {k : ImageKeeper}

theorem Sound.write (h : s.Sound) {b : ℕ} {xs ys : List α} (hb : s.mem b = some xs)
    (hlen : ys.length = xs.length) :
    ({ s with mem := Function.update s.mem b (some ys) } : KeeperStore ι α).Sound := by
  refine ⟨fun j => ⟨(h.owns j).size_eq, (h.owns j).size_lt, (h.owns j).null, fun c hc => ?_⟩,
    h.apart⟩
  obtain ⟨zs, hzs, hz⟩ := (h.owns j).array c hc
  by_cases hcb : c = b
  · subst hcb
    obtain rfl : xs = zs := Option.some.inj (hb.symm.trans hzs)
    exact ⟨ys, Function.update_self .., hlen.trans hz⟩
  · exact ⟨zs, (Function.update_of_ne hcb ..).trans hzs, hz⟩

theorem Sound.swap [DecidableEq ι] (h : s.Sound) (i j : ι) :
    ({ s with keepers := s.keepers ∘ Equiv.swap i j } : KeeperStore ι α).Sound :=
  ⟨fun _ => h.owns _, fun _ _ b hl hl' => (Equiv.swap i j).injective (h.apart _ _ b hl hl')⟩

variable [Inhabited α]

theorem Sound.recreate_others {rows cols channels : ℕ} {dataptr a : Option ℕ} (h : s.Sound)
    (hr : recreate s.mem (s.keepers i) rows cols channels dataptr a = some (m, k)) (l : ι) (b : ℕ)
    (hl : l ≠ i) (hb : (s.keepers l).data = some b) : m b = s.mem b ∧ k.data ≠ some b := by
  obtain ⟨hne, hmem⟩ := h.others hl hb
  exact recreate_frame hr hne hmem

variable [DecidableEq ι]

theorem assign_inv {a : Option ℕ} (hs : s.assign i j a = some s') :
    (i = j ∧ s' = s) ∨
    (i ≠ j ∧ ∃ r, ImageKeeper.recreate s.mem (s.keepers i) (s.keepers j).rows (s.keepers j).cols
      (s.keepers j).channels (s.keepers j).data a = some r ∧ s' = s.put i r) := by
  unfold KeeperStore.assign at hs
  split at hs
  · cases hs
    exact .inl ⟨‹i = j›, rfl⟩
  · obtain ⟨r, hr, rfl⟩ := Option.map_eq_some_iff.mp hs
    exact .inr ⟨‹i ≠ j›, r, hr, rfl⟩

theorem copy_inv (hs : s.step (.copy i j) = some s') :
    i ≠ j ∧ s' = s.put i (s.mem, s.keepers j) := by
  simp only [KeeperStore.step, Option.ite_none_right_eq_some, Option.some.injEq] at hs
  obtain ⟨⟨-, hij⟩, rfl⟩ := hs
  exact ⟨hij, rfl⟩

theorem Sound.recreate {rows cols channels : ℕ} {dataptr a : Option ℕ} (h : s.Sound)
    (hr : recreate s.mem (s.keepers i) rows cols channels dataptr a = some (m, k))
    (hn : rows * cols * channels < UInt64.size) (ha : a = none → rows * cols * channels = 0) :
    (s.put i (m, k)).Sound :=
  h.replace (recreate_owns hr hn ha) fun l b hl hb => h.recreate_others hr l b hl hb

theorem Sound.step {op : KeeperOp ι α} (h : s.Sound) (ho : op.Ok s) (hs : s.step op = some s') :
    s'.Sound := by
  cases op with
  | recreate i rows cols channels dataptr a =>
    obtain ⟨r, hr, rfl⟩ := Option.map_eq_some_iff.mp hs
    exact h.recreate hr ho.1 ho.2
  | assign i j a =>
    rcases assign_inv hs with ⟨-, rfl⟩ | ⟨hij, r, hr, rfl⟩
    · exact h
    · have hsize := (h.owns j).size_eq
      refine h.recreate hr (hsize ▸ (h.owns j).size_lt) fun ha => ?_
      rw [← hsize]
      exact (ho ha).resolve_left hij
  | write i p v =>
    obtain ⟨m', hm', rfl⟩ := Option.map_eq_some_iff.mp hs
    obtain ⟨b, xs, -, hxs, -, rfl⟩ := setIndex_inv hm'
    exact h.write hxs List.length_set
  | swap i j =>
    cases hs
    exact h.swap i j
  | copy i j =>
    obtain ⟨-, rfl⟩ := copy_inv hs
    have hdata : (s.keepers j).data = none := ho
    exact h.replace (h.owns j) fun l b _ _ => ⟨rfl, by simp [hdata]⟩
  | destroy i =>
    obtain ⟨m', hm', rfl⟩ := Option.map_eq_some_iff.mp hs
    refine h.replace (empty_owns m') fun l b hl hb => ⟨?_, by simp [ImageKeeper.empty]⟩
    exact deleteArray_frame hm' (h.others hl hb).1

theorem Sound.frame {op : KeeperOp ι α} (h : s.Sound) (hs : s.step op = some s')
    (hl : ¬ op.Targets l) : s'.keepers l = s.keepers l ∧ ∀ p, s'.read l p = s.read l p := by
  cases op with
  | recreate i rows cols channels dataptr a =>
    obtain ⟨r, hr, rfl⟩ := Option.map_eq_some_iff.mp hs
    exact read_put hl fun b hb => (h.recreate_others hr l b hl hb).1
  | assign i j a =>
    rcases assign_inv hs with ⟨-, rfl⟩ | ⟨-, r, hr, rfl⟩
    · exact ⟨rfl, fun _ => rfl⟩
    · exact read_put hl fun b hb => (h.recreate_others hr l b hl hb).1
  | write i p v =>
    obtain ⟨m', hm', rfl⟩ := Option.map_eq_some_iff.mp hs
    obtain ⟨b, xs, hd, -, -, rfl⟩ := setIndex_inv hm'
    refine ⟨rfl, fun q => atIndex_congr fun c hc => Function.update_of_ne ?_ ..⟩
    rintro rfl
    exact hl (h.apart l i c hc hd)
  | swap i j =>
    cases hs
    have hswap : Equiv.swap i j l = l := Equiv.swap_apply_of_ne_of_ne
      (fun he => hl (.inl he)) fun he => hl (.inr he)
    refine ⟨congrArg s.keepers hswap, fun p => ?_⟩
    simp only [read, Function.comp_apply, hswap]
  | copy i j =>
    obtain ⟨-, rfl⟩ := copy_inv hs
    exact read_put hl fun _ _ => rfl
  | destroy i =>
    obtain ⟨m', hm', rfl⟩ := Option.map_eq_some_iff.mp hs
    exact read_put hl fun b hb => deleteArray_frame hm' (h.others hl hb).1

/-! ### Independence -/

omit [Inhabited α] [DecidableEq ι] in
theorem Sound.read_eq (h : s.Sound) (i : ι) (p : ℕ × ℕ × ℕ) :
    s.read i p = (contents s.mem (s.keepers i))[(s.keepers i).index p]? :=
  (h.owns i).atIndex_eq _

omit [Inhabited α] [DecidableEq ι] in
theorem dropped_available {a : ℕ} (ha : s.Available i a) :
    dropped s.mem (s.keepers i) a = none := by
  by_cases hd : (s.keepers i).data = some a
  · exact dropped_self hd
  · rw [dropped_of_ne hd]
    exact ha.resolve_right hd

theorem Sound.write_spec (h : s.Sound) {p : ℕ × ℕ × ℕ} (hp : p ∈ (s.keepers i).coords) (v : α) :
    ∃ s', s.step (.write i p v) = some s' ∧ s'.read i p = some v ∧
      ∀ q ∈ (s.keepers i).coords, q ≠ p → s'.read i q = s.read i q := by
  have hbij := (h.owns i).bijOn
  have hlt : (s.keepers i).index p < (s.keepers i).size :=
    Finset.mem_range.mp (Finset.mem_coe.mp (hbij.mapsTo hp))
  obtain ⟨b, xs, hd, hxs, hlen⟩ := (h.owns i).exists_array hlt
  have hset := setIndex_eq hd hlt hxs (hlen ▸ hlt) v
  have hset_length : (xs.set ((s.keepers i).index p) v).length = xs.length := List.length_set
  have hsound := h.write hxs hset_length
  refine ⟨_, by rw [KeeperStore.step, hset]; rfl, ?_, fun q hq hne => ?_⟩
  · rw [hsound.read_eq, contents_eq hd (Function.update_self ..), List.getElem?_set_self]
    exact hlen ▸ hlt
  · have hindex : (s.keepers i).index p ≠ (s.keepers i).index q :=
      fun he => hne (hbij.injOn hp hq he).symm
    rw [hsound.read_eq, h.read_eq, contents_eq hd hxs,
      contents_eq hd (Function.update_self ..), List.getElem?_set_ne hindex]

omit [DecidableEq ι] in
theorem Sound.recreate_from {a : ℕ} (h : s.Sound) (hij : i ≠ j) (ha : s.Available i a) :
    ∃ m k, ImageKeeper.recreate s.mem (s.keepers i) (s.keepers j).rows (s.keepers j).cols
      (s.keepers j).channels (s.keepers j).data (some a) = some (m, k) ∧
      contents m k = contents s.mem (s.keepers j) := by
  have hfree := dropped_available ha
  have hmod := (h.owns j).mod_size
  cases hd : (s.keepers j).data with
  | none =>
    refine ⟨_, _, recreate_fill (h.owns i) hfree, ?_⟩
    rw [contents_eq rfl (Function.update_self ..), hmod, (h.owns j).null hd, contents, hd]
    rfl
  | some p =>
    obtain ⟨xs, hxs, hlen⟩ := (h.owns j).array p hd
    have hp : dropped s.mem (s.keepers i) p = some xs :=
      (dropped_of_ne (h.others hij.symm hd).1).trans hxs
    refine ⟨_, _, recreate_copy (h.owns i) hfree hp (hmod.trans hlen.symm).le, ?_⟩
    rw [contents_eq rfl (Function.update_self ..), contents_eq hd hxs, hmod, ← hlen,
      List.take_length]

theorem Sound.assign_spec {a : ℕ} (h : s.Sound) (ha : s.Available i a) :
    ∃ s', s.step (.assign i j (some a)) = some s' ∧
      (s'.keepers i).coords = (s.keepers j).coords ∧ ∀ p, s'.read i p = s.read j p := by
  by_cases hij : i = j
  · refine ⟨s, ?_, by rw [hij], fun p => by rw [hij]⟩
    rw [KeeperStore.step, KeeperStore.assign, if_pos hij]
  obtain ⟨m, k, hr, hcontents⟩ := h.recreate_from hij ha
  have hstep : s.step (.assign i j (some a)) = some (s.put i (m, k)) := by
    rw [KeeperStore.step, KeeperStore.assign, if_neg hij, hr]
    rfl
  have hok : (KeeperOp.assign i j (some a)).Ok s := fun he => absurd he (by simp)
  have hsound := h.step hok hstep
  have hdims := recreate_dims hr
  refine ⟨_, hstep, ?_, fun p => ?_⟩
  · rw [put_self, hdims]
    rfl
  · have hindex : k.index p = (s.keepers j).index p := by rw [hdims]; rfl
    rw [hsound.read_eq, h.read_eq, put_self, put_mem, hcontents, hindex]

theorem Sound.independent (h : s.Sound) : s.Independent where
  index := fun i => (h.owns i).bijOn
  write := fun _ _ v hp => h.write_spec hp v
  assign := fun _ _ _ ha => h.assign_spec ha
  frame := fun _ _ _ hs hl => h.frame hs hl

/-- An object with cells and without an array cannot be written to. -/
theorem not_independent_of_null (hd : (s.keepers i).data = none)
    (hn : (s.keepers i).rows * (s.keepers i).cols * (s.keepers i).channels ≠ 0) :
    ¬ s.Independent := by
  intro h
  have hpos : 0 < (s.keepers i).coords.card := by
    rw [coords, MixedRadix.card_cells]
    exact Nat.pos_of_ne_zero hn
  obtain ⟨p, hp⟩ := Finset.card_pos.mp hpos
  obtain ⟨s', hs, -⟩ := h.write i p default hp
  simp [step, setIndex, hd] at hs

/-- The copy constructor leaves an array that assignment would read after deleting it. -/
theorem not_independent_of_shared (hij : i ≠ j) {b : ℕ} (hi : (s.keepers i).data = some b)
    (hj : (s.keepers j).data = some b) : ¬ s.Independent := by
  intro h
  obtain ⟨s', hs, -⟩ := h.assign i j b (.inr hi)
  rw [step, assign, if_neg hij, hj] at hs
  obtain ⟨⟨m, k⟩, hr, -⟩ := Option.map_eq_some_iff.mp hs
  obtain ⟨m₁, hclear, hbuild⟩ := Option.bind_eq_some_iff.mp hr
  simp [build, clear_self hclear hi] at hbuild

/-- The operations that are not `Ok` end the independence. -/
theorem Sound.not_independent {op : KeeperOp ι α} (h : s.Sound) (ho : ¬ op.Ok s)
    (hs : s.step op = some s') : ¬ s'.Independent := by
  cases op with
  | recreate i rows cols channels dataptr a =>
    obtain ⟨⟨m, k⟩, hr, rfl⟩ := Option.map_eq_some_iff.mp hs
    have hdims := recreate_dims hr
    by_cases hn : rows * cols * channels < UInt64.size
    · obtain ⟨ha, hcells⟩ := Classical.not_imp.mp fun hnull => ho ⟨hn, hnull⟩
      refine not_independent_of_null (i := i) ?_ ?_
      · rw [put_self, hdims]
        exact ha
      · rw [put_self, hdims]
        exact hcells
    · intro hind
      have hbij := hind.index i
      rw [put_self, hdims] at hbij
      exact not_bijOn rfl (Nat.le_of_not_lt hn) hbij
  | assign i j a =>
    obtain ⟨ha, hnot⟩ := Classical.not_imp.mp ho
    obtain ⟨hij, hsize⟩ := not_or.mp hnot
    obtain ⟨he, -⟩ | ⟨-, ⟨m, k⟩, hr, rfl⟩ := assign_inv hs
    · exact absurd he hij
    have hdims := recreate_dims hr
    refine not_independent_of_null (i := i) ?_ ?_
    · rw [put_self, hdims]
      exact ha
    · rw [put_self, hdims]
      exact (h.owns j).size_eq ▸ hsize
  | copy i j =>
    obtain ⟨b, hb⟩ := Option.ne_none_iff_exists'.mp ho
    obtain ⟨hij, rfl⟩ := copy_inv hs
    refine not_independent_of_shared hij (b := b) ?_ ?_
    · rw [put_self]
      exact hb
    · rw [put_of_ne s (Ne.symm hij)]
      exact hb
  | write | swap | destroy => exact absurd trivial ho

end Steps

end KeeperStore

end TmkDcl.Libdclalgo
