import Mathlib.Algebra.Order.Field.Rat
import Mathlib.Tactic.Linarith
import Mathlib.Tactic.Ring
import TmkDcl.Selection

/-!
# The median (CommonFunctions.cpp)

`getMedian` selects the upper one of the two places in the middle, and then the lower one. Its
length is an `int`. The arithmetic of its elements is exact here.
-/

namespace TmkDcl.Libdclalgo

open TmkDcl.Selection

section Lengths

variable {vec : List ℚ}

end Lengths

/-! ### What the selections leave -/

section Selections

variable {vec : List ℚ} {nthElement : List ℚ → ℕ → List ℚ} {i : ℕ}

end Selections

/-! ### What it comes to -/

section Results

variable {vec : List ℚ} {nthElement : List ℚ → ℕ → List ℚ}

end Results

/-! ### When it is the median -/

section Medians

variable {vec : List ℚ}

end Medians

end TmkDcl.Libdclalgo
