import Mathlib.Logic.Relation
import Mathlib.Order.Nat

/-!
# Labelled step systems

A system is a set of initial states and a partial step function on labels. A
run may be restricted to the steps that a predicate `ok` allows, so that an
assumption on the environment of a program ("no child stores -1") is an
assumption on the steps of its runs. The module has the invariant rule, the
bridge from executed label lists to reachability, and the rule that turns a
decreasing measure into a finite continuation.
-/

namespace TmkDcl

/-- A labelled step system: `step s a` is `none` where `a` is not enabled in `s`. -/
structure Lts (σ α : Type*) where
  init : σ → Prop
  step : σ → α → Option σ

namespace Lts

variable {σ α : Type*} {T : Lts σ α} {ok ok' : σ → α → Prop} {s t : σ}

/-- States reached from an initial state by steps that `ok` allows. -/
inductive Reach (T : Lts σ α) (ok : σ → α → Prop) : σ → Prop
  | init {s : σ} : T.init s → Reach T ok s
  | step {s s' : σ} {a : α} : Reach T ok s → ok s a → T.step s a = some s' → Reach T ok s'

/-- `t` follows `s` by one step that `ok` allows. -/
def Next (T : Lts σ α) (ok : σ → α → Prop) (s t : σ) : Prop :=
  ∃ a, ok s a ∧ T.step s a = some t

/-- `t` follows `s` by finitely many steps that `ok` allows. -/
def Steps (T : Lts σ α) (ok : σ → α → Prop) : σ → σ → Prop :=
  Relation.ReflTransGen (T.Next ok)

/-- Some allowed step is enabled. -/
def Enabled (T : Lts σ α) (ok : σ → α → Prop) (s : σ) : Prop := ∃ t, T.Next ok s t

/-- Every label is allowed. -/
def anyStep : σ → α → Prop := fun _ _ => True

/-- The invariant rule: what the initial states have and every step from a
reachable state keeps holds in every reachable state. -/
theorem Reach.invariant (I : σ → Prop) (h0 : ∀ s, T.init s → I s)
    (hs : ∀ s a s', T.Reach ok s → I s → ok s a → T.step s a = some s' → I s')
    (h : T.Reach ok s) : I s := by
  induction h with
  | init hi => exact h0 _ hi
  | step hr ho ht ih => exact hs _ _ _ hr ih ho ht

theorem Reach.steps (h : T.Reach ok s) (hs : T.Steps ok s t) : T.Reach ok t := by
  induction hs with
  | refl => exact h
  | tail _ ht ih =>
    obtain ⟨a, ho, hstep⟩ := ht
    exact .step ih ho hstep

theorem Reach.mono (hm : ∀ s a, ok s a → ok' s a) (h : T.Reach ok s) : T.Reach ok' s := by
  induction h with
  | init hi => exact .init hi
  | step _ ho hstep ih => exact .step ih (hm _ _ ho) hstep

theorem Steps.mono (hm : ∀ s a, ok s a → ok' s a) (h : T.Steps ok s t) : T.Steps ok' s t := by
  induction h with
  | refl => exact .refl
  | tail _ ht ih =>
    obtain ⟨a, ho, hstep⟩ := ht
    exact .tail ih ⟨a, hm _ _ ho, hstep⟩

/-- An invariant of the steps holds along every finite continuation. -/
theorem Steps.invariant (I : σ → Prop)
    (hs : ∀ s a s', I s → ok s a → T.step s a = some s' → I s')
    (h : T.Steps ok s t) (h0 : I s) : I t := by
  induction h with
  | refl => exact h0
  | tail _ ht ih =>
    obtain ⟨a, ho, hstep⟩ := ht
    exact hs _ _ _ ih ho hstep

theorem Steps.range (g : ℕ → σ) (n : ℕ) (h : ∀ i < n, T.Steps ok (g i) (g (i + 1))) :
    T.Steps ok (g 0) (g n) := by
  induction n with
  | zero => exact .refl
  | succ n ih =>
    have hbefore := ih fun i hi => h i (Nat.lt_succ_of_lt hi)
    exact hbefore.trans (h n n.lt_succ_self)

/-- The state after a list of labels. -/
def exec (T : Lts σ α) : σ → List α → Option σ
  | s, [] => some s
  | s, a :: as => (T.step s a).bind fun s' => exec T s' as

theorem exec_append {u : σ} {as bs : List α} (h1 : T.exec s as = some t)
    (h2 : T.exec t bs = some u) : T.exec s (as ++ bs) = some u := by
  induction as generalizing s with
  | nil =>
    simp only [exec, Option.some.injEq] at h1
    exact h1 ▸ h2
  | cons a as ih =>
    obtain ⟨s', hs', ht⟩ := Option.bind_eq_some_iff.mp h1
    simp only [List.cons_append, exec, hs', Option.bind_some]
    exact ih ht

theorem steps_of_exec {as : List α} (hok : ∀ s a, a ∈ as → ok s a)
    (h : T.exec s as = some t) : T.Steps ok s t := by
  induction as generalizing s with
  | nil =>
    simp only [exec, Option.some.injEq] at h
    exact h ▸ .refl
  | cons a as ih =>
    obtain ⟨s', hs', ht⟩ := Option.bind_eq_some_iff.mp h
    have htail := ih (fun s b hb => hok s b (List.mem_cons_of_mem _ hb)) ht
    exact .head ⟨a, hok s a List.mem_cons_self, hs'⟩ htail

theorem reach_exec (T : Lts σ α) (ok : σ → α → Prop) (as : List α) (h0 : T.init s)
    (h : (T.exec s as).isSome = true) (hok : ∀ s a, a ∈ as → ok s a) : T.Reach ok ((T.exec s as).get h) :=
  (Reach.init h0).steps (steps_of_exec hok (Option.some_get h).symm)

/-- The steps that `w` counts are at most as many as the potential and the gains pay for. -/
theorem exec_countP_le (I : σ → Prop) (μ gain : σ → ℕ) (c : ℕ) (w : α → Bool)
    (hs : ∀ s a s', I s → T.step s a = some s' →
      I s' ∧ (w a).toNat + μ s' + c * gain s ≤ μ s + c * gain s') {as : List α} (h0 : I s)
    (h : T.exec s as = some t) : as.countP w + μ t + c * gain s ≤ μ s + c * gain t := by
  induction as generalizing s with
  | nil =>
    simp only [exec, Option.some.injEq] at h
    subst h
    simp
  | cons a as ih =>
    obtain ⟨u, hu, ht⟩ := Option.bind_eq_some_iff.mp h
    obtain ⟨hI, hle⟩ := hs s a u h0 hu
    have htail := ih hI ht
    rw [List.countP_cons]
    cases hw : w a <;> simp only [hw, Bool.toNat_true, Bool.toNat_false, if_true,
      Bool.false_eq_true, if_false] at hle ⊢ <;> omega

/-- The system that takes only the steps that `ok` allows, to run a list of labels under `ok`. -/
def guard (T : Lts σ α) (ok : σ → α → Prop) [∀ s a, Decidable (ok s a)] : Lts σ α where
  init := T.init
  step s a := if ok s a then T.step s a else none

theorem reach_of_guard [∀ s a, Decidable (ok s a)] (h : (T.guard ok).Reach ok' s) :
    T.Reach ok s := by
  induction h with
  | init hi => exact .init hi
  | @step s s' a _ _ hs ih =>
    by_cases ho : ok s a
    · simp only [guard, if_pos ho] at hs
      exact .step ih ho hs
    · simp [guard, ho] at hs

/-- A measure that some allowed steps decrease, as long as the goal is not
reached, gives a finite continuation to the goal. -/
theorem exists_steps_of_measure (I goal : σ → Prop) (μ : σ → ℕ)
    (hμ : ∀ s, I s → ¬ goal s → ∃ t, T.Steps ok s t ∧ I t ∧ μ t < μ s) (hs : I s) :
    ∃ t, T.Steps ok s t ∧ goal t := by
  induction hn : μ s using Nat.strongRecOn generalizing s with
  | _ n ih =>
    by_cases hg : goal s
    · exact ⟨s, .refl, hg⟩
    · obtain ⟨u, hu, hI, hlt⟩ := hμ s hs hg
      obtain ⟨t, ht, hgt⟩ := ih (μ u) (hn ▸ hlt) hI rfl
      exact ⟨t, hu.trans ht, hgt⟩

end Lts

end TmkDcl
