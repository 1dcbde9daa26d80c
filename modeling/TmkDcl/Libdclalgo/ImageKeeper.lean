import TmkDcl.MixedRadix

/-!
# Keepers of images (libdclalgo/include/ImageKeeper.h)

An `ImageKeeper` has one flat array for the cells of an image. `recreate` deletes the array that the
object has and makes another, and copy assignment and `convertTo` are built on it. Sizes and indexes
are products in `size_t`.

The elements are values (`memcpy` copies them). Memory is what is live of an element type by
addresses; `new` gives an address that is not live, or throws.
-/

namespace TmkDcl.Libdclalgo

/-- The live arrays of an element type. -/
abbrev Memory (α : Type*) := ℕ → Option (List α)

/-- An object of the class; `data` is the address of its array, or null. -/
structure ImageKeeper where
  size : ℕ
  rows : ℕ
  cols : ℕ
  channels : ℕ
  data : Option ℕ
  deriving DecidableEq

namespace ImageKeeper

variable {α β : Type*}

/-- `ImageKeeper()`. -/
def empty : ImageKeeper := ⟨0, 0, 0, 0, none⟩

/-- `delete[]`: null is left alone, and an address that is not live must not be deleted. -/
def deleteArray (m : Memory α) : Option ℕ → Option (Memory α)
  | none => some m
  | some a => if m a = none then none else some (Function.update m a none)

/-- The call of `clear` at the start of `recreate` (`ImageKeeper.h:92-94`); the members that it sets
to 0 are assigned next. -/
def clear (m : Memory α) (k : ImageKeeper) : Option (Memory α) :=
  if k.size ≠ 0 ∨ k.data ≠ none then deleteArray m k.data else some m

/-- The rest of `recreate` (`ImageKeeper.h:96-106`) after the deletion. The members are assigned
before `new` gives `a`, or throws (`none`). -/
def build [Inhabited α] (m : Memory α) (rows cols channels : ℕ) (dataptr a : Option ℕ) :
    Option (Memory α × ImageKeeper) :=
  let size := rows * cols * channels % UInt64.size
  match a with
  | none => some (m, ⟨size, rows, cols, channels, none⟩)
  | some a =>
    if m a ≠ none then none
    else
      match dataptr with
      | none =>
        some (Function.update m a (some (List.replicate size default)),
          ⟨size, rows, cols, channels, some a⟩)
      | some p =>
        (m p).bind fun xs =>
          if size ≤ xs.length then
            some (Function.update m a (some (xs.take size)), ⟨size, rows, cols, channels, some a⟩)
          else none

/-- `recreate` (`ImageKeeper.h:90-107`). -/
def recreate [Inhabited α] (m : Memory α) (k : ImageKeeper) (rows cols channels : ℕ)
    (dataptr a : Option ℕ) : Option (Memory α × ImageKeeper) :=
  (clear m k).bind fun m => build m rows cols channels dataptr a

/-- `at(i)` (`ImageKeeper.h:37-42`); `none` is an exception, or no access to live memory. -/
def atIndex (m : Memory α) (k : ImageKeeper) (i : ℕ) : Option α :=
  if i ≥ k.size then none else k.data.bind fun a => (m a).bind (·[i]?)

/-- An assignment to `at(i)`. -/
def setIndex (m : Memory α) (k : ImageKeeper) (i : ℕ) (v : α) : Option (Memory α) :=
  if i ≥ k.size then none
  else k.data.bind fun a => (m a).bind fun xs =>
    if i < xs.length then some (Function.update m a (some (xs.set i v))) else none

/-- The index of `at(row, col, channel)` (`ImageKeeper.h:54`). -/
def index (k : ImageKeeper) : ℕ × ℕ × ℕ → ℕ
  | (row, col, channel) => (col + row * k.cols + channel * k.cols * k.rows) % UInt64.size

/-- The coordinates `(row, col, channel)` that the assertions of `at` allow. -/
def coords (k : ImageKeeper) : Finset (ℕ × ℕ × ℕ) := MixedRadix.cells k.rows k.cols k.channels

/-- `convertTo` to another element type (`ImageKeeper.h:71-77`), with the conversion of an
element. -/
def convertTo [Inhabited β] (f : α → β) (m : Memory α) (k : ImageKeeper) (m' : Memory β)
    (other : ImageKeeper) (a : Option ℕ) : Option (Memory β × ImageKeeper) :=
  (recreate m' other k.rows k.cols k.channels none a).bind fun r =>
    if a = none then some r
    else ((List.range k.size).foldlM
      (fun m' i => (atIndex m k i).bind fun v => setIndex m' r.2 i (f v)) r.1).map fun m' => (m', r.2)

/-! ### Arrays -/

/-- An object that is as its constructors leave it: the product of its dimensions is its size, and
it has an array of that size, or is empty. -/
structure Owns (k : ImageKeeper) (m : Memory α) : Prop where
  size_eq : k.size = k.rows * k.cols * k.channels
  size_lt : k.size < UInt64.size
  null : k.data = none → k.size = 0
  array : ∀ a, k.data = some a → ∃ xs, m a = some xs ∧ xs.length = k.size

/-- The elements of the array. -/
def contents (m : Memory α) (k : ImageKeeper) : List α := (k.data.bind m).getD []

/-- Memory without the array. -/
def dropped (m : Memory α) (k : ImageKeeper) : Memory α :=
  k.data.elim m fun a => Function.update m a none

section Arrays

variable {m m' : Memory α} {k : ImageKeeper} {a i : ℕ} {p : ℕ × ℕ × ℕ} {v : α} {xs : List α}

theorem Owns.mod_size (h : k.Owns m) : k.rows * k.cols * k.channels % UInt64.size = k.size := by
  rw [← h.size_eq]
  exact Nat.mod_eq_of_lt h.size_lt

theorem Owns.length_contents (h : k.Owns m) : (contents m k).length = k.size := by
  unfold contents
  cases hd : k.data with
  | none => exact (h.null hd).symm
  | some a =>
    obtain ⟨xs, hxs, hlen⟩ := h.array a hd
    simpa [hxs] using hlen

theorem Owns.atIndex_eq (h : k.Owns m) (i : ℕ) : atIndex m k i = (contents m k)[i]? := by
  unfold atIndex
  split
  · exact (List.getElem?_eq_none (h.length_contents ▸ ‹i ≥ k.size›)).symm
  · cases hd : k.data with
    | none => exact absurd (h.null hd) (by omega)
    | some a =>
      obtain ⟨xs, hxs, -⟩ := h.array a hd
      simp [contents, hd, hxs]

theorem setIndex_eq (hd : k.data = some a) (hi : i < k.size) (hm : m a = some xs)
    (hlen : i < xs.length) (v : α) :
    setIndex m k i v = some (Function.update m a (some (xs.set i v))) := by
  rw [setIndex, if_neg (Nat.not_le.mpr hi), hd, Option.bind_some, hm, Option.bind_some,
    if_pos hlen]

theorem setIndex_inv (h : setIndex m k i v = some m') :
    ∃ b xs, k.data = some b ∧ m b = some xs ∧ i < xs.length ∧
      m' = Function.update m b (some (xs.set i v)) := by
  rw [setIndex, Option.ite_none_left_eq_some] at h
  obtain ⟨b, hd, h⟩ := Option.bind_eq_some_iff.mp h.2
  obtain ⟨xs, hxs, h⟩ := Option.bind_eq_some_iff.mp h
  rw [Option.ite_none_right_eq_some] at h
  exact ⟨b, xs, hd, hxs, h.1, (Option.some.inj h.2).symm⟩

theorem contents_eq (hd : k.data = some a) (hm : m a = some xs) : contents m k = xs := by
  rw [contents, hd, Option.bind_some, hm, Option.getD_some]

theorem empty_owns (m : Memory α) : empty.Owns m :=
  ⟨rfl, by decide, fun _ => rfl, fun a ha => absurd ha (by simp [empty])⟩

theorem Owns.exists_array (h : k.Owns m) (hi : i < k.size) :
    ∃ a xs, k.data = some a ∧ m a = some xs ∧ xs.length = k.size := by
  cases hd : k.data with
  | none => exact absurd (h.null hd) (by omega)
  | some a =>
    obtain ⟨xs, hxs, hlen⟩ := h.array a hd
    exact ⟨a, xs, rfl, hxs, hlen⟩

theorem index_flat (k : ImageKeeper) (p : ℕ × ℕ × ℕ) :
    k.index p = MixedRadix.flat k.cols k.rows p % UInt64.size := by
  rw [index, MixedRadix.flat, Nat.mul_assoc]

theorem Owns.index_eq (h : k.Owns m) (hp : p ∈ k.coords) :
    k.index p = MixedRadix.flat k.cols k.rows p := by
  have hlt := MixedRadix.flat_lt hp
  rw [← h.size_eq] at hlt
  rw [index_flat, Nat.mod_eq_of_lt (hlt.trans h.size_lt)]

theorem Owns.bijOn (h : k.Owns m) : Set.BijOn k.index k.coords (Finset.range k.size) := by
  have hflat := MixedRadix.flat_bijOn k.rows k.cols k.channels
  rw [← h.size_eq] at hflat
  exact hflat.congr fun p hp => (h.index_eq hp).symm

/-- Dimensions whose product leaves `size_t` have more coordinates than indexes. -/
theorem not_bijOn (hs : k.size = k.rows * k.cols * k.channels % UInt64.size)
    (hn : UInt64.size ≤ k.rows * k.cols * k.channels) :
    ¬ Set.BijOn k.index k.coords (Finset.range k.size) := by
  intro h
  have hcard := Finset.card_nbij k.index h.mapsTo h.injOn h.surjOn
  rw [coords, MixedRadix.card_cells, Finset.card_range] at hcard
  have hlt : k.size < UInt64.size := hs ▸ Nat.mod_lt _ (by decide)
  omega

end Arrays

/-! ### recreate -/

section Recreate

variable {m m' : Memory α} {k k' : ImageKeeper} {rows cols channels b : ℕ}
  {dataptr a : Option ℕ} {xs : List α}

theorem Owns.clear_eq (h : k.Owns m) : clear m k = some (dropped m k) := by
  unfold clear dropped
  cases hd : k.data with
  | none => simp [h.null hd]
  | some a =>
    obtain ⟨xs, hxs, -⟩ := h.array a hd
    simp [deleteArray, hxs]

theorem dropped_of_ne (hb : k.data ≠ some b) : dropped m k b = m b := by
  unfold dropped
  cases hd : k.data with
  | none => rfl
  | some a =>
    have hne : b ≠ a := fun he => hb (he ▸ hd)
    exact Function.update_of_ne hne ..

theorem dropped_self (hb : k.data = some b) : dropped m k b = none := by
  simp [dropped, hb]

theorem deleteArray_frame {d : Option ℕ} (h : deleteArray m d = some m') (hb : d ≠ some b) :
    m' b = m b := by
  cases d with
  | none => exact congrFun (Option.some.inj h).symm b
  | some a =>
    have hne : b ≠ a := fun he => hb (he ▸ rfl)
    rw [deleteArray, Option.ite_none_left_eq_some] at h
    rw [← Option.some.inj h.2, Function.update_of_ne hne]

theorem clear_frame (h : clear m k = some m') (hb : k.data ≠ some b) : m' b = m b := by
  unfold clear at h
  split at h
  · exact deleteArray_frame h hb
  · exact congrFun (Option.some.inj h).symm b

theorem clear_self (h : clear m k = some m') (hb : k.data = some b) : m' b = none := by
  rw [clear, if_pos (.inr (by simp [hb])), hb, deleteArray, Option.ite_none_left_eq_some] at h
  rw [← Option.some.inj h.2, Function.update_self]

variable [Inhabited α]

/-- What `new` throwing, or giving an address and the array being filled, leaves. -/
inductive Built (m : Memory α) (rows cols channels : ℕ) : Option ℕ → Memory α → ImageKeeper → Prop
  | thrown : Built m rows cols channels none m
      ⟨rows * cols * channels % UInt64.size, rows, cols, channels, none⟩
  | filled (a : ℕ) (xs : List α) (hfree : m a = none)
      (hlen : xs.length = rows * cols * channels % UInt64.size) :
      Built m rows cols channels (some a) (Function.update m a (some xs))
        ⟨rows * cols * channels % UInt64.size, rows, cols, channels, some a⟩

theorem build_built (h : build m rows cols channels dataptr a = some (m', k')) :
    Built m rows cols channels a m' k' := by
  cases a with
  | none =>
    cases h
    exact .thrown
  | some a =>
    simp only [build, Option.ite_none_left_eq_some, not_not] at h
    obtain ⟨hfree, h⟩ := h
    cases dataptr with
    | none =>
      cases h
      exact .filled a _ hfree (by simp)
    | some p =>
      obtain ⟨xs, _, hxs⟩ := Option.bind_eq_some_iff.mp h
      rw [Option.ite_none_right_eq_some] at hxs
      obtain ⟨hle, hxs⟩ := hxs
      cases hxs
      exact .filled a _ hfree (by simpa using hle)

theorem recreate_frame (h : recreate m k rows cols channels dataptr a = some (m', k'))
    (hb : k.data ≠ some b) (hm : m b ≠ none) : m' b = m b ∧ k'.data ≠ some b := by
  obtain ⟨m₁, hclear, hbuild⟩ := Option.bind_eq_some_iff.mp h
  have hframe := clear_frame hclear hb
  cases build_built hbuild with
  | thrown => exact ⟨hframe, by simp⟩
  | filled a xs hfree hlen =>
    have hne : b ≠ a := by
      rintro rfl
      exact hm (hframe ▸ hfree)
    rw [Function.update_of_ne hne]
    exact ⟨hframe, fun he => hne (Option.some.inj he).symm⟩

theorem recreate_owns (h : recreate m k rows cols channels dataptr a = some (m', k'))
    (hn : rows * cols * channels < UInt64.size) (ha : a = none → rows * cols * channels = 0) :
    k'.Owns m' := by
  obtain ⟨m₁, _, hbuild⟩ := Option.bind_eq_some_iff.mp h
  have hmod := Nat.mod_eq_of_lt hn
  cases build_built hbuild with
  | thrown => exact ⟨hmod, hmod.trans_lt hn, fun _ => hmod.trans (ha rfl), fun a ha => by cases ha⟩
  | filled a xs hfree hlen =>
    refine ⟨hmod, hmod.trans_lt hn, fun he => absurd he (by simp), fun b hb => ?_⟩
    cases hb
    exact ⟨xs, Function.update_self .., hlen⟩

theorem recreate_dims (h : recreate m k rows cols channels dataptr a = some (m', k')) :
    k' = ⟨rows * cols * channels % UInt64.size, rows, cols, channels, a⟩ := by
  obtain ⟨m₁, _, hbuild⟩ := Option.bind_eq_some_iff.mp h
  cases build_built hbuild with
  | thrown => rfl
  | filled a xs hfree hlen => rfl

theorem recreate_fill (h : k.Owns m) (hfree : dropped m k b = none) :
    recreate m k rows cols channels none (some b) =
      some (Function.update (dropped m k) b
        (some (List.replicate (rows * cols * channels % UInt64.size) default)),
        ⟨rows * cols * channels % UInt64.size, rows, cols, channels, some b⟩) := by
  rw [recreate, h.clear_eq, Option.bind_some, build, if_neg (not_not.mpr hfree)]

theorem recreate_copy {p : ℕ} (h : k.Owns m) (hfree : dropped m k b = none)
    (hp : dropped m k p = some xs) (hlen : rows * cols * channels % UInt64.size ≤ xs.length) :
    recreate m k rows cols channels (some p) (some b) =
      some (Function.update (dropped m k) b
        (some (xs.take (rows * cols * channels % UInt64.size))),
        ⟨rows * cols * channels % UInt64.size, rows, cols, channels, some b⟩) := by
  rw [recreate, h.clear_eq, Option.bind_some, build, if_neg (not_not.mpr hfree)]
  simp only [hp, Option.bind_some, if_pos hlen]

end Recreate

/-! ### convertTo -/

section Convert

variable [Inhabited β] {f : α → β} {m : Memory α} {m' : Memory β} {k other : ImageKeeper} {b n : ℕ}

omit [Inhabited β] in
theorem set_take_append {ys : List β} {d : β} {size : ℕ} (hn : n < ys.length) (hs : n < size) :
    (ys.take n ++ List.replicate (size - n) d).set n ys[n] =
      ys.take (n + 1) ++ List.replicate (size - (n + 1)) d := by
  have hle : (ys.take n).length = n := List.length_take_of_le hn.le
  have hrest : size - n = (size - (n + 1)) + 1 := by omega
  rw [List.set_append_right _ _ hle.le, hle, Nat.sub_self, hrest, List.replicate_succ,
    List.set_cons_zero, List.take_add_one, List.getElem?_eq_getElem hn, List.append_assoc]
  rfl

theorem convert_loop (h : k.Owns m) (hother : other.data = some b) (hsize : other.size = k.size)
    (hm : m' b = some (List.replicate k.size default)) (hn : n ≤ k.size) :
    (List.range n).foldlM
      (fun m' i => (atIndex m k i).bind fun v => setIndex m' other i (f v)) m' =
      some (Function.update m' b (some (((contents m k).map f).take n ++
        List.replicate (k.size - n) default))) := by
  have hlen : ((contents m k).map f).length = k.size := by rw [List.length_map, h.length_contents]
  induction n with
  | zero => simp [← hm]
  | succ n ih =>
    have hlt : n < ((contents m k).map f).length := by omega
    rw [List.range_succ, List.foldlM_append, ih (Nat.le_of_succ_le hn)]
    have hat : (atIndex m k n).map f = some ((contents m k).map f)[n] := by
      rw [h.atIndex_eq, ← List.getElem?_map, List.getElem?_eq_getElem hlt]
    obtain ⟨v, hv, hfv⟩ := Option.map_eq_some_iff.mp hat
    have hwrite : n < (((contents m k).map f).take n ++
        List.replicate (k.size - n) default).length := by
      rw [List.length_append, List.length_take, List.length_replicate]
      omega
    simp only [Option.bind_eq_bind, Option.bind_some, List.foldlM_cons, List.foldlM_nil, hv]
    rw [setIndex_eq hother (hsize ▸ hn) (Function.update_self ..) hwrite, hfv,
      set_take_append hlt hn, Function.update_idem]
    rfl

theorem convertTo_eq (f : α → β) (h : k.Owns m) (h' : other.Owns m')
    (hfree : dropped m' other b = none) :
    convertTo f m k m' other (some b) =
      some (Function.update (dropped m' other) b (some ((contents m k).map f)),
        ⟨k.size, k.rows, k.cols, k.channels, some b⟩) := by
  rw [convertTo, recreate_fill h' hfree, h.mod_size, Option.bind_some, if_neg (by simp)]
  have hdata : (⟨k.size, k.rows, k.cols, k.channels, some b⟩ : ImageKeeper).data = some b := rfl
  have hnew := Function.update_self b (some (List.replicate k.size default)) (dropped m' other)
  have hloop := convert_loop (f := f) h hdata rfl hnew le_rfl
  simp only [hloop, Option.map_some, Function.update_idem, Nat.sub_self, List.replicate_zero,
    List.append_nil]
  rw [List.take_of_length_le (by rw [List.length_map, h.length_contents])]

end Convert

end ImageKeeper

end TmkDcl.Libdclalgo
