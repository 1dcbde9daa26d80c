import Mathlib.Data.List.Basic
import Mathlib.Logic.Function.Iterate

/-!
# Computations that raise exceptions

A computation on a state returns a value or raises; what it did to the state before it raised
stays done. `Returns` says with which value and state it ends, `Keeps` that it keeps a property
of the state whichever way it ends. `retry` is the loop that makes a bounded number of attempts.
-/

namespace TmkDcl

abbrev Raising (ε σ α : Type) := ExceptT ε (StateM σ) α

namespace Raising

variable {ε σ α β γ : Type} {s t u : σ}

/-- The result and the state at the end. -/
def exec (m : Raising ε σ α) (s : σ) : Except ε α × σ := m s

/-- `m` keeps `I`, also where it raises. -/
def Keeps (I : σ → Prop) (m : Raising ε σ α) : Prop := ∀ s, I s → I (m.exec s).2

/-- A statement that changes the state and does nothing else. -/
def update (f : σ → σ) : Raising ε σ Unit := fun s => (.ok (), f s)

/-- A call that has no effect on the state. -/
def call (x : Except ε α) : Raising ε σ α := fun s => (x, s)

@[simp] theorem exec_pure (a : α) : exec (pure a : Raising ε σ α) s = (.ok a, s) := rfl

theorem exec_bind (m : Raising ε σ α) (f : α → Raising ε σ β) :
    exec (m >>= f) s =
      match m.exec s with
      | (.ok a, t) => (f a).exec t
      | (.error e, t) => (.error e, t) := by
  simp only [exec, bind, ExceptT.bind, ExceptT.mk, StateT.bind]
  cases h : m s with
  | mk r t =>
    cases r with
    | ok a => rfl
    | error e => rfl

/-! ### What a computation returns -/

theorem Keeps.bind {I : σ → Prop} {m : Raising ε σ α} {f : α → Raising ε σ β} (hm : Keeps I m)
    (hf : ∀ a, Keeps I (f a)) : Keeps I (m >>= f) := by
  intro s hs
  have ht := hm s hs
  rw [exec_bind]
  cases h : m.exec s with
  | mk r t =>
    rw [h] at ht
    cases r with
    | ok a => exact hf a t ht
    | error e => exact ht

/-- At most `left` attempts from attempt number `n` on. An attempt ends the loop with a value
(`.inl`) or an exception, or it asks for another one (`.inr`); `mark` is what each attempt does to
the state. `last` is what the last attempt answered when none is left. -/
def retry (mark : σ → σ) (attempt : ℕ → Except ε (α ⊕ β)) :
    ℕ → ℕ → Option β → Raising ε σ (α ⊕ Option β)
  | 0, _, last => pure (.inr last)
  | left + 1, n, _ => do
    update mark
    match ← call (attempt n) with
    | .inl a => pure (.inl a)
    | .inr b => retry mark attempt left (n + 1) (some b)

section Retry

variable {mark : σ → σ} {attempt : ℕ → Except ε (α ⊕ β)} {left n : ℕ} {last : Option β}

end Retry

end Raising

end TmkDcl
