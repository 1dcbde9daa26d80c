import Mathlib.Data.List.Sort

/-!
# Selection

What a partial sort leaves: the element of a rank at its place, no greater one before it and no
smaller one behind it.
-/

namespace TmkDcl.Selection

variable {α : Type*} [LinearOrder α]

def sorted (xs : List α) : List α := xs.insertionSort (· ≤ ·)

variable {xs ys zs : List α} {n : ℕ} {a : α}

end TmkDcl.Selection
