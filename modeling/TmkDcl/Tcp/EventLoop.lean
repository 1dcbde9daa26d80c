import TmkDcl.Tcp.ConnectionList

/-!
# The event loops (tcp/src/messenger.c)

`tcp_server_process` and `event_thread` wait in `epoll_pwait` and go through the events it returns.
A connection that cannot be read is deleted there and then.
-/

namespace TmkDcl.Tcp

open Messenger (readConnectionData connectionExtractMessage)

/-- What an entry of `events` points to. -/
inductive EpollEvent where
  | listen
  | conn (c : ℕ)
  deriving DecidableEq

/-- The connections among the events. -/
def connsOf (evs : List EpollEvent) : List ℕ :=
  evs.filterMap fun
    | .listen => none
    | .conn c => some c

/-- Where a loop is: in `epoll_pwait`, before the rest of the events, between `connection_add` and
`epoll_ctl`, between `read_connection_data` and `connection_extract_message`, or behind the loop. -/
inductive Loop where
  | waiting
  | events (evs : List EpollEvent)
  | added (c : ℕ) (evs : List EpollEvent)
  | readData (c : ℕ) (evs : List EpollEvent)
  | ended
  deriving DecidableEq

def Loop.rest : Loop → List EpollEvent
  | .waiting | .ended => []
  | .events evs | .added _ evs | .readData _ evs => evs

/-- The connections that the loop is still going to use. -/
def Loop.pending : Loop → List ℕ
  | .waiting | .ended => []
  | .events evs => connsOf evs
  | .added c evs | .readData c evs => c :: connsOf evs

/-- What a loop works on; the server's has the listening socket in its epoll set. -/
structure EventLoop where
  conns : Connections
  loop : Loop
  exitFlag : Bool
  listens : Bool

namespace EventLoop

inductive Label where
  | epollPwait (evs : List EpollEvent)
  | leave
  | fail
  | read (bs : Bytes)
  | extract (stop : Bool)
  | endEvents

/-- The steps of a loop apart from those for a new connection. `epoll_pwait` returns an event for
each descriptor at most. The callback may set the flag, and a buffer without a newline is the
`memmove` through the NULL pointer. -/
def step (s : EventLoop) : Label → Option EventLoop
  | .epollPwait evs =>
    if s.loop = .waiting ∧ s.exitFlag = false ∧ evs.Nodup ∧
        (∀ c ∈ connsOf evs, c ∈ s.conns.epollSet) ∧ (.listen ∈ evs → s.listens = true) then
      some { s with loop := .events evs }
    else none
  | .leave => if s.loop = .waiting ∧ s.exitFlag = true then some { s with loop := .ended } else none
  | .fail => if s.loop = .waiting then some { s with loop := .ended } else none
  | .read bs =>
    match s.loop with
    | .events (.conn c :: evs) =>
      match readConnectionData (s.conns.contents c) bs with
      | (1, _) => some { s with conns := (s.conns.call c).delete c, loop := .events evs }
      | (_, conn) =>
        some { s with
          conns := { s.conns.call c with contents := Function.update s.conns.contents c conn }
          loop := .readData c evs }
    | _ => none
  | .extract stop =>
    match s.loop with
    | .readData c evs =>
      (connectionExtractMessage (s.conns.contents c)).map fun r =>
        { s with
          conns := { s.conns.access [c] with contents := Function.update s.conns.contents c r.1 }
          loop := .events evs
          exitFlag := s.exitFlag || stop }
    | _ => none
  | .endEvents =>
    if s.loop = .events [] then
      some { s with loop := if s.exitFlag = true then .ended else .waiting }
    else none

/-- The connections are used properly, and the loop only has to do with those in the list, each of
them once. -/
structure Ok (s : EventLoop) : Prop where
  owned : s.conns.Owned
  nodup : s.loop.rest.Nodup
  pending : ∀ c ∈ s.loop.pending, c ∈ s.conns.connectionList

/-- What a step of the loop does with the connections: it deletes one that it has an event for and
cannot read, or none. -/
structure Moves (s : EventLoop) (a : Label) (s' : EventLoop) : Prop where
  kept : ∀ c ∈ s.conns.connectionList, c ∈ s'.conns.connectionList ∨ ∃ evs bs, a = .read bs ∧
    s.loop = .events (.conn c :: evs) ∧ (readConnectionData (s.conns.contents c) bs).1 = 1
  epollSet : ∀ c ∈ s'.conns.epollSet, c ∈ s.conns.epollSet
  pending : ∀ c ∈ s'.loop.pending, c ∈ s.loop.pending ∨ c ∈ s.conns.epollSet
  quiet : s.loop = .waiting ∨ s.loop = .ended → (∀ evs, a ≠ .epollPwait evs) →
    s'.loop = .ended ∧ s'.conns = s.conns

section Steps

variable {s s' : EventLoop} {a : Label} {c : ℕ} {evs : List EpollEvent}

theorem mem_connsOf : c ∈ connsOf evs ↔ .conn c ∈ evs := by
  induction evs with
  | nil => simp [connsOf]
  | cons e evs ih =>
    cases e with
    | listen =>
      show c ∈ connsOf evs ↔ _
      rw [ih]
      simp
    | conn d =>
      show c ∈ d :: connsOf evs ↔ _
      rw [List.mem_cons, ih]
      simp

theorem step_ended (h : s.loop = .ended) (a : Label) : s.step a = none := by
  cases a <;> simp [EventLoop.step, h]

theorem mem_delete {conns : Connections} {d : ℕ} (hd : d ∈ conns.connectionList) (hne : d ≠ c) :
    d ∈ (conns.delete c).connectionList := (List.mem_erase_of_ne hne).mpr hd

theorem Ok.step (h : s.Ok) (hs : s.step a = some s') : s'.Ok := by
  cases a with
  | epollPwait evs =>
    obtain ⟨hguard, hs⟩ := Option.ite_none_right_eq_some.mp hs
    cases hs
    exact ⟨h.owned, hguard.2.2.1, fun c hc => h.owned.registered c (hguard.2.2.2.1 c hc)⟩
  | leave =>
    obtain ⟨-, hs⟩ := Option.ite_none_right_eq_some.mp hs
    cases hs
    exact ⟨h.owned, List.nodup_nil, by simp [Loop.pending]⟩
  | fail =>
    obtain ⟨-, hs⟩ := Option.ite_none_right_eq_some.mp hs
    cases hs
    exact ⟨h.owned, List.nodup_nil, by simp [Loop.pending]⟩
  | endEvents =>
    obtain ⟨-, hs⟩ := Option.ite_none_right_eq_some.mp hs
    cases hs
    cases hexit : s.exitFlag
    · exact ⟨h.owned, List.nodup_nil, by simp [Loop.pending]⟩
    · exact ⟨h.owned, List.nodup_nil, by simp [Loop.pending]⟩
  | read bs =>
    simp only [EventLoop.step] at hs
    split at hs
    · rename_i c evs hloop
      have hpending := h.pending
      have hnodup := h.nodup
      rw [hloop] at hpending hnodup
      obtain ⟨hnot, hnodup⟩ := List.nodup_cons.mp hnodup
      have hc : c ∈ s.conns.connectionList := hpending c List.mem_cons_self
      have hcall := h.owned.call hc
      split at hs
      · cases hs
        refine ⟨hcall.delete hc, hnodup, ?_⟩
        intro d hd
        apply mem_delete (hpending d (List.mem_cons_of_mem _ hd))
        intro heq
        exact hnot (mem_connsOf.mp (heq ▸ hd))
      · cases hs
        refine ⟨⟨hcall.count, hcall.nodup, hcall.memory, hcall.descriptors, hcall.held,
          hcall.heldDescriptor, hcall.made, hcall.madeDescriptor, hcall.registered⟩, hnodup, ?_⟩
        exact hpending
    · cases hs
  | extract stop =>
    simp only [EventLoop.step] at hs
    split at hs
    · rename_i c evs hloop
      have hpending := h.pending
      have hnodup := h.nodup
      rw [hloop] at hpending hnodup
      obtain ⟨r, -, hs⟩ := Option.map_eq_some_iff.mp hs
      cases hs
      have haccess := h.owned.access (l := [c]) (by simpa using hpending c List.mem_cons_self)
      refine ⟨⟨haccess.count, haccess.nodup, haccess.memory, haccess.descriptors, haccess.held,
        haccess.heldDescriptor, haccess.made, haccess.madeDescriptor, haccess.registered⟩, hnodup, ?_⟩
      intro d hd
      exact hpending d (List.mem_cons_of_mem _ hd)
    · cases hs

theorem step_moves (hs : s.step a = some s') : s.Moves a s' := by
  cases a with
  | epollPwait evs =>
    obtain ⟨hguard, hs⟩ := Option.ite_none_right_eq_some.mp hs
    cases hs
    refine ⟨fun c hc => .inl hc, fun c hc => hc, fun c hc => .inr (hguard.2.2.2.1 c hc), ?_⟩
    intro _ hnot
    exact absurd rfl (hnot evs)
  | leave =>
    obtain ⟨-, hs⟩ := Option.ite_none_right_eq_some.mp hs
    cases hs
    exact ⟨fun c hc => .inl hc, fun c hc => hc, by simp [Loop.pending], fun _ _ => ⟨rfl, rfl⟩⟩
  | fail =>
    obtain ⟨-, hs⟩ := Option.ite_none_right_eq_some.mp hs
    cases hs
    exact ⟨fun c hc => .inl hc, fun c hc => hc, by simp [Loop.pending], fun _ _ => ⟨rfl, rfl⟩⟩
  | endEvents =>
    obtain ⟨hguard, hs⟩ := Option.ite_none_right_eq_some.mp hs
    cases hs
    refine ⟨fun c hc => .inl hc, fun c hc => hc, ?_, by simp [hguard]⟩
    cases hexit : s.exitFlag <;> simp [Loop.pending]
  | read bs =>
    simp only [EventLoop.step] at hs
    split at hs
    · rename_i c evs hloop
      have hquiet : ¬ (s.loop = .waiting ∨ s.loop = .ended) := by simp [hloop]
      split at hs
      · rename_i hread
        cases hs
        refine ⟨?_, fun d hd => (List.mem_filter.mp hd).1, ?_, fun h => absurd h hquiet⟩
        · intro d hd
          by_cases heq : d = c
          · right
            exact ⟨evs, bs, rfl, heq ▸ hloop, by rw [heq, hread]⟩
          · exact .inl (mem_delete hd heq)
        · intro d hd
          left
          rw [hloop]
          exact List.mem_cons_of_mem _ hd
      · cases hs
        refine ⟨fun d hd => .inl hd, fun d hd => hd, ?_, fun h => absurd h hquiet⟩
        intro d hd
        left
        rw [hloop]
        exact hd
    · cases hs
  | extract stop =>
    simp only [EventLoop.step] at hs
    split at hs
    · rename_i c evs hloop
      have hquiet : ¬ (s.loop = .waiting ∨ s.loop = .ended) := by simp [hloop]
      obtain ⟨r, -, hs⟩ := Option.map_eq_some_iff.mp hs
      cases hs
      refine ⟨fun d hd => .inl hd, fun d hd => hd, ?_, fun h => absurd h hquiet⟩
      intro d hd
      left
      rw [hloop]
      exact List.mem_cons_of_mem _ hd
    · cases hs

end Steps

end EventLoop

end TmkDcl.Tcp
