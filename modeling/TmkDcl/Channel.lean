import Mathlib.Data.List.Infix

/-!
# One-place channels

A channel with room for one message: a put needs the place free, a take needs
it filled. What has been received is a prefix of what has been sent, and all of
it once the place is free. `EndsOnce` says of the messages of a stream that a
closing one comes once and last.
-/

namespace TmkDcl

/-- The history of a channel with one place. -/
structure Channel (α : Type*) where
  sent : List α
  place : Option α
  received : List α

namespace Channel

variable {α : Type*} {c c' : Channel α} {a : α}

inductive Step (c : Channel α) : Channel α → Prop
  | put (a : α) (h : c.place = none) : Step c { c with sent := c.sent ++ [a], place := some a }
  | take (a : α) (h : c.place = some a) :
      Step c { c with place := none, received := c.received ++ [a] }

/-- Nothing is lost, received twice or reordered. -/
def Good (c : Channel α) : Prop := c.sent = c.received ++ c.place.toList

theorem Step.good (h : Step c c') (hc : c.Good) : c'.Good := by
  unfold Good at *
  cases h with
  | put a h => simp [hc, h]
  | take a h => simp [hc, h]

theorem Good.received_isPrefix (hc : c.Good) : c.received <+: c.sent := ⟨_, hc.symm⟩

theorem Good.length_le (hc : c.Good) : c.sent.length ≤ c.received.length + 1 := by
  rw [hc, List.length_append]
  cases c.place <;> simp

theorem Good.received_eq (hc : c.Good) (h : c.place = none) : c.received = c.sent := by
  rw [hc, h]
  simp

end Channel

/-- The stream `ms` has no closing message before it is closed; once it is, its
last message is the only closing one. -/
structure EndsOnce {α : Type*} (stop : α → Prop) (closed : Prop) (ms : List α) : Prop where
  running : ¬ closed → ∀ m ∈ ms, ¬ stop m
  ended : closed → ∃ js m, ms = js ++ [m] ∧ stop m ∧ ∀ x ∈ js, ¬ stop x

namespace EndsOnce

variable {α : Type*} {stop : α → Prop} {closed closed' : Prop} {ms : List α} {m : α}

theorem nil (h : ¬ closed) : EndsOnce stop closed [] := ⟨fun _ => by simp, fun hc => absurd hc h⟩

theorem congr (h : EndsOnce stop closed ms) (hc : closed' ↔ closed) : EndsOnce stop closed' ms :=
  ⟨fun hn => h.running (hc.not.mp hn), fun hn => h.ended (hc.mp hn)⟩

theorem put (h : EndsOnce stop closed ms) (hc : ¬ closed) (hc' : ¬ closed') (hm : ¬ stop m) :
    EndsOnce stop closed' (ms ++ [m]) := by
  refine ⟨fun _ x hx => ?_, fun hn => absurd hn hc'⟩
  rcases List.mem_append.mp hx with hx | hx
  · exact h.running hc x hx
  · rwa [List.mem_singleton.mp hx]

theorem close (h : EndsOnce stop closed ms) (hc : ¬ closed) (hc' : closed') (hm : stop m) :
    EndsOnce stop closed' (ms ++ [m]) :=
  ⟨fun hn => absurd hc' hn, fun _ => ⟨ms, m, rfl, hm, h.running hc⟩⟩

end EndsOnce

end TmkDcl
