import Mathlib.Data.List.Induction

/-!
# Notifications on their way to the queue (winnum_sender_service/sent_to_winnum.py)

`handle_notify` runs once for each readable event of the connection. `c.poll()` appends all new
notifications to `notifies`, and one of them is popped and put in the queue, so the two numbers
agree only where each event brings one notification.
-/

namespace TmkDcl.Winnum

variable {α : Type}

/-- `notifies` of the connection, what has been put in the queue, and whether a call of
`handle_notify` has raised (the event loop reports it and goes on). -/
structure Listener (α : Type) where
  notifies : List α
  queue : List α
  raised : Bool

/-- `handle_notify` (165-167), where `batch` is what `c.poll()` brings. -/
def handleNotify (s : Listener α) (batch : List α) : Listener α :=
  match s.notifies ++ batch with
  | [] => { s with notifies := [], raised := true }
  | n :: rest => { s with notifies := rest, queue := s.queue ++ [n] }

/-- The readable events so far, each with its new notifications. -/
def listen (batches : List (List α)) : Listener α := batches.foldl handleNotify ⟨[], [], false⟩

/-- Everything received is in the queue once and in order, and no call has raised. -/
structure Delivered (batches : List (List α)) : Prop where
  queue : (listen batches).queue = batches.flatten
  notRaised : (listen batches).raised = false

theorem listen_concat (batches : List (List α)) (batch : List α) :
    listen (batches ++ [batch]) = handleNotify (listen batches) batch := by
  simp [listen]

/-- What `handle_notify` does not put in the queue stays in `notifies`: nothing is dropped,
repeated or moved. -/
theorem queue_append_notifies (batches : List (List α)) :
    (listen batches).queue ++ (listen batches).notifies = batches.flatten := by
  induction batches using List.reverseRecOn with
  | nil => rfl
  | append_singleton batches batch ih =>
    rw [listen_concat, List.flatten_concat, ← ih, List.append_assoc, handleNotify]
    cases h : (listen batches).notifies ++ batch with
    | nil => simp
    | cons n rest => simp

theorem delivered_concat {batches : List (List α)} (h : Delivered batches) (batch : List α) :
    Delivered (batches ++ [batch]) ↔ batch.length = 1 := by
  have hempty : (listen batches).notifies = [] := by
    have hall := queue_append_notifies batches
    rw [h.queue] at hall
    simpa using hall
  have hstep := listen_concat batches batch
  simp only [handleNotify, hempty, List.nil_append] at hstep
  cases batch with
  | nil =>
    constructor
    · intro hd
      have hraised := hd.notRaised
      rw [hstep] at hraised
      cases hraised
    · intro hd
      cases hd
  | cons n rest =>
    have hlen : (n :: rest).length = 1 ↔ rest = [] := by simp
    rw [hlen]
    constructor
    · intro hd
      have hqueue := hd.queue
      rw [hstep, h.queue, List.flatten_concat] at hqueue
      simpa using hqueue.symm
    · rintro rfl
      constructor
      · rw [hstep, h.queue, List.flatten_concat]
      · rw [hstep]
        exact h.notRaised

/-- Nothing is ever lost, late or raised exactly if every event brings one notification. -/
theorem delivered_iff (batches : List (List α)) :
    (∀ events, events <+: batches → Delivered events) ↔ ∀ batch ∈ batches, batch.length = 1 := by
  induction batches using List.reverseRecOn with
  | nil =>
    refine iff_of_true ?_ ?_
    · intro events h
      rw [List.prefix_nil.mp h]
      exact ⟨rfl, rfl⟩
    · intro batch h
      exact absurd h List.not_mem_nil
  | append_singleton batches batch ih =>
    have hsplit : (∀ events, events <+: batches ++ [batch] → Delivered events) ↔
        (∀ events, events <+: batches → Delivered events) ∧ Delivered (batches ++ [batch]) := by
      constructor
      · intro h
        exact ⟨fun events he => h events (he.trans (List.prefix_append _ _)), h _ List.prefix_rfl⟩
      · intro h events he
        cases List.prefix_concat_iff.mp he with
        | inl heq => exact heq ▸ h.2
        | inr hpre => exact h.1 events hpre
    rw [hsplit, ih, List.forall_mem_append, List.forall_mem_singleton]
    constructor
    · intro h
      have hall := ih.mpr h.1
      exact ⟨h.1, (delivered_concat (hall batches List.prefix_rfl) batch).mp h.2⟩
    · intro h
      have hall := ih.mpr h.1
      exact ⟨h.1, (delivered_concat (hall batches List.prefix_rfl) batch).mpr h.2⟩

/-- Two notifications in one event, and no event after it: the second one stays in `notifies`. -/
theorem not_delivered_two :
    ¬ ∀ events, events <+: [["a", "b"]] → Delivered events := by
  intro h
  have hqueue := (h [["a", "b"]] List.prefix_rfl).queue
  exact absurd hqueue (by decide)

end TmkDcl.Winnum
