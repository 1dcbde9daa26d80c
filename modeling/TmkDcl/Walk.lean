import Mathlib.Data.List.Nodup
import Mathlib.Data.Nat.Notation

/-!
# Walks along a successor function

The places `0..n-1` with a partial successor function: a walk that follows the successors from a
start, visits every place once and stops where there is no successor.
-/

namespace TmkDcl

/-- `path` is the walk of `succ` from `start`, and it visits every place below `n` once. -/
structure Visits (succ : ℕ → Option ℕ) (n start : ℕ) (path : List ℕ) : Prop where
  head : path[0]? = some start
  next : ∀ p i, path[p]? = some i → succ i = path[p + 1]?
  nodup : path.Nodup
  mem : ∀ i, i ∈ path ↔ i < n

namespace Visits

variable {succ succ' : ℕ → Option ℕ} {n start i k : ℕ} {path : List ℕ}

theorem congr (h : Visits succ n start path) (heq : ∀ i < n, succ' i = succ i) :
    Visits succ' n start path where
  head := h.head
  next := fun p i hp => by rw [heq i ((h.mem i).mp (List.mem_of_getElem? hp)), h.next p i hp]
  nodup := h.nodup
  mem := h.mem

theorem length_eq (h : Visits succ n start path) : path.length = n := by
  have hrange : path.Perm (List.range n) :=
    (List.perm_ext_iff_of_nodup h.nodup List.nodup_range).mpr fun i => by
      rw [h.mem, List.mem_range]
  rw [hrange.length_eq, List.length_range]

theorem exists_pred (h : Visits succ n start path) (hi : i < n) (hne : i ≠ start) :
    ∃ k < n, succ k = some i := by
  obtain ⟨p, hp⟩ := List.mem_iff_getElem?.mp ((h.mem i).mpr hi)
  cases p with
  | zero => exact absurd (Option.some.inj (hp.symm.trans h.head)) hne
  | succ p =>
    have hlt : p < path.length := Nat.lt_of_succ_lt (List.getElem?_eq_some_iff.mp hp).1
    have hk := List.getElem?_eq_getElem hlt
    exact ⟨path[p], (h.mem _).mp (List.getElem_mem hlt), (h.next p _ hk).trans hp⟩

theorem succ_eq_none (h : Visits succ n start path) (hi : i < n) :
    succ i = none ↔ path.getLast? = some i := by
  obtain ⟨p, hp⟩ := List.mem_iff_getElem?.mp ((h.mem i).mpr hi)
  have hlt := (List.getElem?_eq_some_iff.mp hp).1
  rw [h.next p i hp, List.getElem?_eq_none_iff, List.getLast?_eq_getElem?]
  constructor
  · intro hle
    have hlast : path.length - 1 = p := by omega
    rw [hlast, hp]
  · intro hlast
    have hinj := (List.getElem?_inj hlt h.nodup).mp (hp.trans hlast.symm)
    omega

theorem stop_unique (h : Visits succ n start path) (hi : i < n) (hk : k < n)
    (hsi : succ i = none) (hsk : succ k = none) : i = k :=
  Option.some.inj (((h.succ_eq_none hi).mp hsi).symm.trans ((h.succ_eq_none hk).mp hsk))

theorem exists_stop (h : Visits succ n start path) : ∃ i < n, succ i = none := by
  have hne : path ≠ [] := by
    rintro rfl
    cases h.head
  have hlt : path.getLast hne < n := (h.mem _).mp (List.getLast_mem hne)
  exact ⟨_, hlt, (h.succ_eq_none hlt).mpr (List.getLast?_eq_some_getLast hne)⟩

end Visits

end TmkDcl
