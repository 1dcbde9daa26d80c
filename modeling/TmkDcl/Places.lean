import Mathlib.Algebra.BigOperators.Group.Finset.Basic
import Mathlib.Data.Multiset.Count
import Mathlib.Algebra.Order.BigOperators.Group.Finset

/-!
# Tokens in places

Finitely many places hold multisets of tokens. A step that takes a token out of
one place and puts it into another one conserves the sum over all places, and a
sum without duplicates means that each of its tokens is in exactly one place.
-/

namespace TmkDcl.Places

variable {ι α : Type*} {S : Finset ι} {f g : ι → Multiset α} {p q : ι} {a : α}

theorem sum_change {β : Type*} [AddCommMonoid β] {f g : ι → β} (hp : p ∈ S)
    (h : ∀ r, r ≠ p → g r = f r) : ∑ r ∈ S, g r + f p = ∑ r ∈ S, f r + g p := by
  classical
  rw [← Finset.add_sum_erase S g hp, ← Finset.add_sum_erase S f hp]
  have he : ∑ r ∈ S.erase p, g r = ∑ r ∈ S.erase p, f r :=
    Finset.sum_congr rfl fun r hr => h r (Finset.ne_of_mem_erase hr)
  rw [he, add_comm (f p), add_comm (g p), add_assoc, add_assoc, add_comm (g p)]

/-- Moving a token from one place to another conserves the sum. -/
theorem sum_move (hp : p ∈ S) (hq : q ∈ S) (hne : p ≠ q) (hout : f p = a ::ₘ g p)
    (hin : g q = a ::ₘ f q) (h : ∀ r, r ≠ p → r ≠ q → g r = f r) :
    ∑ r ∈ S, g r = ∑ r ∈ S, f r := by
  classical
  let mid : ι → Multiset α := Function.update f p (g p)
  have h1 : ∑ r ∈ S, mid r + f p = ∑ r ∈ S, f r + mid p :=
    sum_change hp fun r hr => Function.update_of_ne hr ..
  have h2 : ∑ r ∈ S, g r + mid q = ∑ r ∈ S, mid r + g q := by
    refine sum_change hq fun r hr => ?_
    by_cases hrp : r = p
    · simp [mid, hrp]
    · simp [mid, hrp, h r hrp hr]
  have hmp : mid p = g p := Function.update_self ..
  have hmq : mid q = f q := Function.update_of_ne hne.symm ..
  rw [hmp, hout, ← Multiset.singleton_add, ← add_assoc] at h1
  rw [hmq, hin, ← Multiset.singleton_add, ← add_assoc] at h2
  have h3 : ∑ r ∈ S, mid r + {a} = ∑ r ∈ S, f r := add_right_cancel h1
  exact (add_right_cancel h2).trans h3

theorem add_le_sum (hp : p ∈ S) (hq : q ∈ S) (hne : p ≠ q) : f p + f q ≤ ∑ r ∈ S, f r := by
  classical
  rw [← Finset.add_sum_erase S f hp]
  exact add_le_add_right (Multiset.le_sum_of_mem (Multiset.mem_map_of_mem f
    (Finset.mem_erase.mpr ⟨hne.symm, hq⟩))) _

theorem eq_of_mem (hn : (∑ r ∈ S, f r).Nodup) (hp : p ∈ S) (hq : q ∈ S) (hap : a ∈ f p)
    (haq : a ∈ f q) : p = q := by
  by_contra hne
  have hd := Multiset.nodup_add.mp (Multiset.nodup_of_le (add_le_sum hp hq hne) hn)
  exact Multiset.disjoint_left.mp hd.2.2 hap haq

theorem exists_place [DecidableEq α] (hn : (∑ r ∈ S, f r).Nodup) (ha : a ∈ ∑ r ∈ S, f r) :
    ∃ p ∈ S, Multiset.count a (f p) = 1 ∧ ∀ q ∈ S, q ≠ p → a ∉ f q := by
  obtain ⟨p, hp, hap⟩ := Multiset.mem_sum.mp ha
  have hle : f p ≤ ∑ r ∈ S, f r := Multiset.le_sum_of_mem (Multiset.mem_map_of_mem f hp)
  have hc := Multiset.count_eq_one_of_mem (Multiset.nodup_of_le hle hn) hap
  refine ⟨p, hp, hc, fun q hq hqp haq => ?_⟩
  exact hqp (eq_of_mem hn hq hp haq hap)

end TmkDcl.Places
