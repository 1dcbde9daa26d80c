import Mathlib.Data.List.Basic
import Mathlib.Data.Nat.Notation

/-!
# Lifetimes

A log of what is done with resources (memory, descriptors) is sound if every resource is acquired
once, used only while it is held, and released at most once.
-/

namespace TmkDcl.Lifetime

inductive Act (α : Type*) where
  | acquire (a : α)
  | use (a : α)
  | release (a : α)
  deriving DecidableEq

variable {α : Type*} {log : List (Act α)} {a b : α}

/-- Acquired, and not released yet. -/
def Held (log : List (Act α)) (a : α) : Prop := .acquire a ∈ log ∧ .release a ∉ log

inductive Sound : List (Act α) → Prop
  | nil : Sound []
  | acquire {log : List (Act α)} {a : α} : Sound log → .acquire a ∉ log → Sound (log ++ [.acquire a])
  | use {log : List (Act α)} {a : α} : Sound log → Held log a → Sound (log ++ [.use a])
  | release {log : List (Act α)} {a : α} : Sound log → Held log a → Sound (log ++ [.release a])

theorem Sound.acquired (h : Sound log) (ha : .release a ∈ log) : .acquire a ∈ log := by
  induction h with
  | nil => cases ha
  | acquire _ _ ih => simp_all
  | use _ _ ih => simp_all
  | release _ hheld ih =>
    cases List.mem_append.mp ha with
    | inl hold => exact List.mem_append_left _ (ih hold)
    | inr hnew =>
      cases List.mem_singleton.mp hnew
      exact List.mem_append_left _ hheld.1

theorem held_release : Held (log ++ [.release b]) a ↔ Held log a ∧ a ≠ b := by
  simp [Held, and_assoc]

theorem held_uses (l : List α) : Held (log ++ l.map .use) a ↔ Held log a := by
  simp [Held]

theorem Sound.held_acquire (h : Sound log) (hb : .acquire b ∉ log) :
    Held (log ++ [.acquire b]) a ↔ Held log a ∨ a = b := by
  have hnot : .release b ∉ log := fun hr => hb (h.acquired hr)
  simp only [Held, List.mem_append, List.mem_singleton, Act.acquire.injEq, reduceCtorEq, or_false]
  constructor
  · intro hheld
    exact hheld.1.imp_left fun ha => ⟨ha, hheld.2⟩
  · intro hheld
    cases hheld with
    | inl hheld => exact ⟨.inl hheld.1, hheld.2⟩
    | inr heq => exact ⟨.inr heq, heq ▸ hnot⟩

theorem Sound.uses (h : Sound log) (l : List α) (hl : ∀ a ∈ l, Held log a) :
    Sound (log ++ l.map .use) := by
  induction l generalizing log with
  | nil => simpa using h
  | cons a l ih =>
    rw [List.map_cons, ← List.singleton_append, ← List.append_assoc]
    apply ih (h.use (hl a List.mem_cons_self))
    intro b hb
    exact (held_uses [a]).mpr (hl b (List.mem_cons_of_mem _ hb))

variable [DecidableEq α]

end TmkDcl.Lifetime
