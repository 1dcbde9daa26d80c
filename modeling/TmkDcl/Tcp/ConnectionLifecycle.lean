import TmkDcl.Lts
import TmkDcl.Tcp.EventLoop

/-!
# The life of a connection (server.c, client.c, messenger.c)

The listening thread of a server adds the connections that it accepts, the command thread of a
client those that it makes. Where the epoll set does not take one, `connection_delete` frees it and
`free` frees it again. `server_destroy` deletes the connections before it sets the flag that stops
the listening thread, and `client_destroy` after the event thread has ended.
-/

namespace TmkDcl.Tcp

open Lifetime

namespace ServerLife

/-- Where `server_destroy` is. -/
inductive Destroyer where
  | before
  | deleting
  | joining
  | done
  deriving DecidableEq

structure State where
  ev : EventLoop
  destroyer : Destroyer

/-- The steps of the listening thread for a new connection. -/
inductive AcceptLabel where
  | fails
  | accept (host service : Bytes)
  | register (ok : Bool)

/-- The steps of `server_destroy`. -/
inductive DestroyLabel where
  | call
  | deleteFirst
  | setExitFlag
  | join

inductive Label where
  | loop (a : EventLoop.Label)
  | accept (a : AcceptLabel)
  | destroy (a : DestroyLabel)

/-- `server_create`, with the listening thread at its loop. -/
def initial : State := ⟨⟨.empty, .waiting, false, true⟩, .before⟩

/-- The new connection of `server_add_connection` (`messenger.c:27-52`); without memory for it, or
when `accept` fails, the loop goes on. -/
def stepAccept (s : State) : AcceptLabel → Option State
  | .fails =>
    match s.ev.loop with
    | .events (.listen :: evs) => some { s with ev := { s.ev with loop := .events evs } }
    | _ => none
  | .accept host service =>
    match s.ev.loop with
    | .events (.listen :: evs) =>
      let c := s.ev.conns.created
      some { s with ev := { s.ev with
        conns := s.ev.conns.add.name c host service
        loop := .added c evs } }
    | _ => none
  | .register ok =>
    match s.ev.loop with
    | .added c evs =>
      some { s with ev := { s.ev with conns := s.ev.conns.register ok c, loop := .events evs } }
    | _ => none

/-- `server_destroy` (`server.c:60-77`). -/
def stepDestroy (s : State) : DestroyLabel → Option State
  | .call => if s.destroyer = .before then some { s with destroyer := .deleting } else none
  | .deleteFirst =>
    match s.destroyer, s.ev.conns.connectionList with
    | .deleting, c :: _ => some { s with ev := { s.ev with conns := s.ev.conns.delete c } }
    | _, _ => none
  | .setExitFlag =>
    if s.destroyer = .deleting ∧ s.ev.conns.connectionList = [] then
      some { ev := { s.ev with exitFlag := true }, destroyer := .joining }
    else none
  | .join =>
    if s.destroyer = .joining ∧ s.ev.loop = .ended then some { s with destroyer := .done } else none

def step (s : State) : Label → Option State
  | .loop a => (s.ev.step a).map fun ev => { s with ev := ev }
  | .accept a => stepAccept s a
  | .destroy a => stepDestroy s a

def lts : Lts State Label where
  init s := s = initial
  step := step

/-- Every connection can be registered, `server_destroy` is called while the listening thread waits
or has ended, and nothing arrives from then on. -/
def Undisturbed (s : State) : Label → Prop
  | .accept (.register ok) => ok = true
  | .destroy .call => s.ev.loop = .waiting ∨ s.ev.loop = .ended
  | .loop (.epollPwait _) => s.destroyer = .before
  | _ => True

instance (s : State) : (a : Label) → Decidable (Undisturbed s a)
  | .accept (.register ok) => inferInstanceAs (Decidable (ok = true))
  | .destroy .call => inferInstanceAs (Decidable (s.ev.loop = .waiting ∨ s.ev.loop = .ended))
  | .loop (.epollPwait _) => inferInstanceAs (Decidable (s.destroyer = .before))
  | .loop .leave | .loop .fail | .loop (.read _) | .loop (.extract _) | .loop .endEvents
  | .accept .fails | .accept (.accept _ _)
  | .destroy .deleteFirst | .destroy .setExitFlag | .destroy .join => isTrue trivial

structure Inv (s : State) : Prop where
  ok : s.ev.Ok
  quiet : s.destroyer ≠ .before → s.ev.loop = .waiting ∨ s.ev.loop = .ended
  nil : s.destroyer = .joining ∨ s.destroyer = .done → s.ev.conns.connectionList = []

section Steps

variable {s s' : State}

theorem inv_initial : Inv initial where
  ok := ⟨Connections.owned_empty, List.nodup_nil, by simp [initial, Loop.pending]⟩
  quiet := by simp [initial]
  nil := by simp [initial]

/-- The thread is in the middle of its events only before `server_destroy`. -/
theorem Inv.before (h : Inv s) (hloop : s.ev.loop ≠ .waiting ∧ s.ev.loop ≠ .ended) :
    s.destroyer = .before := by
  by_contra hne
  cases h.quiet hne with
  | inl hw => exact hloop.1 hw
  | inr he => exact hloop.2 he

theorem Inv.of_before {ev : EventLoop} (hok : ev.Ok) (hbefore : s.destroyer = .before) :
    Inv { s with ev := ev } where
  ok := hok
  quiet hne := absurd hbefore hne
  nil hend := by
    rw [hbefore] at hend
    simp at hend

theorem Inv.loop {b : EventLoop.Label} {ev : EventLoop} (h : Inv s)
    (hok : Undisturbed s (.loop b)) (hs : s.ev.step b = some ev) : Inv { s with ev := ev } := by
  by_cases hbefore : s.destroyer = .before
  · exact .of_before (h.ok.step hs) hbefore
  · have hnot : ∀ evs, b ≠ .epollPwait evs := by
      intro evs heq
      rw [heq] at hok
      exact hbefore hok
    obtain ⟨hended, hconns⟩ := (EventLoop.step_moves hs).quiet (h.quiet hbefore) hnot
    refine ⟨h.ok.step hs, fun _ => .inr hended, ?_⟩
    intro hend
    rw [hconns]
    exact h.nil hend

theorem Inv.stepAccept {a : AcceptLabel} (h : Inv s) (hok : Undisturbed s (.accept a))
    (hs : stepAccept s a = some s') : Inv s' := by
  have howned := h.ok.owned
  have hnodup := h.ok.nodup
  have hpending := h.ok.pending
  cases a with
  | fails =>
    simp only [ServerLife.stepAccept] at hs
    split at hs
    · rename_i evs hloop
      cases hs
      rw [hloop] at hnodup hpending
      exact .of_before ⟨howned, hnodup.of_cons, hpending⟩ (h.before (by simp [hloop]))
    · cases hs
  | accept host service =>
    simp only [ServerLife.stepAccept] at hs
    split at hs
    · rename_i evs hloop
      cases hs
      rw [hloop] at hnodup hpending
      have hnew : s.ev.conns.created ∈ s.ev.conns.add.connectionList :=
        List.mem_append_right _ List.mem_cons_self
      refine .of_before ⟨howned.add.name hnew, hnodup.of_cons, ?_⟩ (h.before (by simp [hloop]))
      intro c hc
      cases List.mem_cons.mp hc with
      | inl heq => exact heq ▸ hnew
      | inr hold => exact List.mem_append_left _ (hpending c hold)
    · cases hs
  | register ok =>
    simp only [ServerLife.stepAccept] at hs
    split at hs
    · rename_i c evs hloop
      cases hs
      rw [hloop] at hnodup hpending
      have hc : c ∈ s.ev.conns.connectionList := hpending c List.mem_cons_self
      rw [show ok = true from hok]
      refine .of_before ⟨howned.register hc, hnodup, ?_⟩ (h.before (by simp [hloop]))
      intro d hd
      exact hpending d (List.mem_cons_of_mem _ hd)
    · cases hs

theorem Inv.stepDestroy {a : DestroyLabel} (h : Inv s) (hok : Undisturbed s (.destroy a))
    (hs : stepDestroy s a = some s') : Inv s' := by
  cases a with
  | call =>
    obtain ⟨-, hs⟩ := Option.ite_none_right_eq_some.mp hs
    cases hs
    exact ⟨h.ok, fun _ => hok, by simp⟩
  | deleteFirst =>
    simp only [ServerLife.stepDestroy] at hs
    split at hs
    · rename_i c rest hdestroyer hlist
      cases hs
      have hquiet := h.quiet (by simp [hdestroyer])
      have hc : c ∈ s.ev.conns.connectionList := by
        rw [hlist]
        exact List.mem_cons_self
      refine ⟨⟨h.ok.owned.delete hc, h.ok.nodup, ?_⟩, fun _ => hquiet, by simp [hdestroyer]⟩
      intro d hd
      cases hquiet with
      | inl hw => simp [hw, Loop.pending] at hd
      | inr he => simp [he, Loop.pending] at hd
    · cases hs
  | setExitFlag =>
    obtain ⟨hguard, hs⟩ := Option.ite_none_right_eq_some.mp hs
    cases hs
    have hquiet := h.quiet (by simp [hguard.1])
    exact ⟨⟨h.ok.owned, h.ok.nodup, h.ok.pending⟩, fun _ => hquiet, fun _ => hguard.2⟩
  | join =>
    obtain ⟨hguard, hs⟩ := Option.ite_none_right_eq_some.mp hs
    cases hs
    exact ⟨h.ok, fun _ => .inr hguard.2, fun _ => h.nil (.inl hguard.1)⟩

theorem reach_inv (h : lts.Reach Undisturbed s) : Inv s := by
  apply h.invariant Inv
  · intro s hs
    exact hs ▸ inv_initial
  · intro s a s' _ hinv hok hs
    cases a with
    | loop b =>
      obtain ⟨ev, hev, rfl⟩ := Option.map_eq_some_iff.mp hs
      exact hinv.loop hok hev
    | accept a => exact hinv.stepAccept hok hs
    | destroy a => exact hinv.stepDestroy hok hs

end Steps

end ServerLife

/-! ### The client -/

namespace ClientLife

/-- Where the command thread is: at the next command, before and behind the comparison of an item in
`connection_get`, in `client_add_connection` for CONNECT or to send, between `connection_get` and
`write`, at a NULL connection, or in `client_destroy`. -/
inductive Command where
  | reading
  | looking (host port : Bytes) (item : Option ℕ)
  | passing (host port : Bytes) (c : ℕ)
  | adding (host port : Bytes) (send : Bool)
  | added (c : ℕ) (send : Bool)
  | found (c : ℕ)
  | nullConn
  | joining
  | destroying
  | done
  deriving DecidableEq

/-- The connection that the command thread has a pointer to and is going to use. -/
@[simp] def Command.held : Command → Option ℕ
  | .looking _ _ item => item
  | .passing _ _ c | .found c => some c
  | _ => none

structure State where
  ev : EventLoop
  command : Command

/-- The steps of the loop over the commands. -/
inductive ReadLabel where
  | quit
  | leave
  | connect (host port : Bytes)
  | send (host port : Bytes)
  | compare
  | next
  | notFound
  | write

/-- The steps of `client_add_connection`. -/
inductive AddLabel where
  | fails
  | mallocFails
  | add
  | register (ok : Bool)

/-- The steps behind the loop, and of `client_destroy`. -/
inductive DestroyLabel where
  | join
  | deleteFirst
  | finish

inductive Label where
  | loop (a : EventLoop.Label)
  | read (a : ReadLabel)
  | add (a : AddLabel)
  | destroy (a : DestroyLabel)

/-- `client_create`, with both threads of `tcp_client_process` at their loops. -/
def initial : State := ⟨⟨.empty, .waiting, false, false⟩, .reading⟩

/-- What follows `client_add_connection`: the sender goes on with the NULL that `connection_get`
returned (`messenger.c:281-294`). -/
def afterAdd (send : Bool) : Command := if send = true then .nullConn else .reading

/-- A command that is read (`messenger.c:240-303`), with the walk of `connection_get`
(`connection.c:29-43`) through a list that the event thread changes meanwhile. -/
def stepRead (s : State) : ReadLabel → Option State
  | .quit =>
    if s.command = .reading then some { s with ev := { s.ev with exitFlag := true } } else none
  | .leave =>
    if s.command = .reading ∧ s.ev.exitFlag = true then some { s with command := .joining } else none
  | .connect host port =>
    if s.command = .reading then some { s with command := .adding host port false } else none
  | .send host port =>
    if s.command = .reading then some { s with command := .looking host port s.ev.conns.first }
    else none
  | .compare =>
    match s.command with
    | .looking host port (some c) =>
      some ⟨{ s.ev with conns := s.ev.conns.access [c] },
        if s.ev.conns.names c = (host, port) then .found c else .passing host port c⟩
    | _ => none
  | .next =>
    match s.command with
    | .passing host port c =>
      some ⟨{ s.ev with conns := s.ev.conns.access [c] }, .looking host port (s.ev.conns.next c)⟩
    | _ => none
  | .notFound =>
    match s.command with
    | .looking host port none => some { s with command := .adding host port true }
    | _ => none
  | .write =>
    match s.command with
    | .found c => some ⟨{ s.ev with conns := s.ev.conns.call c }, .reading⟩
    | _ => none

/-- `client_add_connection` (`messenger.c:55-116`): it returns -1 without a connection, 1 without
memory, and the descriptor when the epoll set has the connection. -/
def stepAdd (s : State) : AddLabel → Option State
  | .fails =>
    match s.command with
    | .adding _ _ _ => some { s with command := .reading }
    | _ => none
  | .mallocFails =>
    match s.command with
    | .adding _ _ send => some { s with command := afterAdd send }
    | _ => none
  | .add =>
    match s.command with
    | .adding host port send =>
      let c := s.ev.conns.created
      some ⟨{ s.ev with conns := s.ev.conns.add.name c host port }, .added c send⟩
    | _ => none
  | .register ok =>
    match s.command with
    | .added c send =>
      some ⟨{ s.ev with conns := s.ev.conns.register ok c },
        if ok = true then afterAdd send else .reading⟩
    | _ => none

/-- The end of `tcp_client_process`, and `client_destroy` (`client.c:46-56`). -/
def stepDestroy (s : State) : DestroyLabel → Option State
  | .join =>
    if s.command = .joining ∧ s.ev.loop = .ended then some { s with command := .destroying } else none
  | .deleteFirst =>
    match s.command, s.ev.conns.connectionList with
    | .destroying, c :: _ => some { s with ev := { s.ev with conns := s.ev.conns.delete c } }
    | _, _ => none
  | .finish =>
    if s.command = .destroying ∧ s.ev.conns.connectionList = [] then some { s with command := .done }
    else none

def step (s : State) : Label → Option State
  | .loop a => (s.ev.step a).map fun ev => { s with ev := ev }
  | .read a => stepRead s a
  | .add a => stepAdd s a
  | .destroy a => stepDestroy s a

def lts : Lts State Label where
  init s := s = initial
  step := step

/-- Every connection can be registered, and none that the command thread holds is one that the event
thread cannot read. -/
def Undisturbed (s : State) : Label → Prop
  | .add (.register ok) => ok = true
  | .loop (.read bs) => ∀ c evs, s.command.held = some c → s.ev.loop = .events (.conn c :: evs) →
      (Messenger.readConnectionData (s.ev.conns.contents c) bs).1 ≠ 1
  | _ => True

structure Inv (s : State) : Prop where
  ok : s.ev.Ok
  added : ∀ c send, s.command = .added c send → c ∈ s.ev.conns.connectionList ∧
    c ∉ s.ev.conns.epollSet ∧ c ∉ s.ev.loop.pending
  held : ∀ c, s.command.held = some c → c ∈ s.ev.conns.connectionList
  ended : s.command = .destroying ∨ s.command = .done → s.ev.loop = .ended
  nil : s.command = .done → s.ev.conns.connectionList = []

section Steps

variable {s s' : State}

theorem inv_initial : Inv initial where
  ok := ⟨Connections.owned_empty, List.nodup_nil, by simp [initial, Loop.pending]⟩
  added := by simp [initial]
  held := by simp [initial]
  ended := by simp [initial]
  nil := by simp [initial]

theorem Inv.loop {b : EventLoop.Label} {ev : EventLoop} (h : Inv s)
    (hok : Undisturbed s (.loop b)) (hs : s.ev.step b = some ev) : Inv { s with ev := ev } := by
  have hmoves := EventLoop.step_moves hs
  constructor
  · exact h.ok.step hs
  · intro c send hc
    obtain ⟨hlist, hepoll, hpending⟩ := h.added c send hc
    refine ⟨?_, fun hnew => hepoll (hmoves.epollSet c hnew), ?_⟩
    · cases hmoves.kept c hlist with
      | inl hkept => exact hkept
      | inr hdeleted =>
        obtain ⟨evs, bs, -, hloop, -⟩ := hdeleted
        rw [hloop] at hpending
        exact absurd List.mem_cons_self hpending
    · intro hnew
      cases hmoves.pending c hnew with
      | inl hold => exact hpending hold
      | inr hold => exact hepoll hold
  · intro c hc
    cases hmoves.kept c (h.held c hc) with
    | inl hkept => exact hkept
    | inr hdeleted =>
      obtain ⟨evs, bs, hb, hloop, hread⟩ := hdeleted
      rw [hb] at hok
      exact absurd hread (hok c evs hc hloop)
  · intro hend
    rw [EventLoop.step_ended (h.ended hend)] at hs
    cases hs
  · intro hdone
    rw [EventLoop.step_ended (h.ended (.inr hdone))] at hs
    cases hs

theorem mem_first {conns : Connections} {c : ℕ} (h : conns.first = some c) : c ∈ conns.connectionList :=
  List.mem_of_mem_head? h

theorem mem_next {conns : Connections} {c d : ℕ} (h : conns.next c = some d) : d ∈ conns.connectionList :=
  List.dropWhile_subset _ (List.mem_of_mem_tail (List.mem_of_mem_head? h))

/-- An access of the command thread to the connection that it holds. -/
theorem Inv.access {c : ℕ} (h : Inv s) (hc : s.command.held = some c) :
    EventLoop.Ok { s.ev with conns := s.ev.conns.access [c] } :=
  ⟨h.ok.owned.access (by simpa using h.held c hc), h.ok.nodup, h.ok.pending⟩

theorem Inv.stepRead {a : ReadLabel} (h : Inv s) (hs : stepRead s a = some s') : Inv s' := by
  cases a with
  | quit =>
    obtain ⟨hguard, hs⟩ := Option.ite_none_right_eq_some.mp hs
    cases hs
    exact ⟨⟨h.ok.owned, h.ok.nodup, h.ok.pending⟩, h.added, h.held, h.ended, h.nil⟩
  | leave =>
    obtain ⟨hguard, hs⟩ := Option.ite_none_right_eq_some.mp hs
    cases hs
    exact ⟨h.ok, by simp, by simp, by simp, by simp⟩
  | connect host port =>
    obtain ⟨hguard, hs⟩ := Option.ite_none_right_eq_some.mp hs
    cases hs
    exact ⟨h.ok, by simp, by simp, by simp, by simp⟩
  | send host port =>
    obtain ⟨hguard, hs⟩ := Option.ite_none_right_eq_some.mp hs
    cases hs
    exact ⟨h.ok, by simp, fun c hc => mem_first hc, by simp, by simp⟩
  | compare =>
    simp only [ClientLife.stepRead] at hs
    split at hs
    · rename_i host port c hcommand
      cases hs
      have hheld : s.command.held = some c := by rw [hcommand]; rfl
      have hok := h.access hheld
      have hc := h.held c hheld
      by_cases hfound : s.ev.conns.names c = (host, port)
      · rw [if_pos hfound]
        refine ⟨hok, by simp, fun d hd => ?_, by simp, by simp⟩
        exact Option.some.inj hd ▸ hc
      · rw [if_neg hfound]
        refine ⟨hok, by simp, fun d hd => ?_, by simp, by simp⟩
        exact Option.some.inj hd ▸ hc
    · cases hs
  | next =>
    simp only [ClientLife.stepRead] at hs
    split at hs
    · rename_i host port c hcommand
      cases hs
      have hheld : s.command.held = some c := by rw [hcommand]; rfl
      exact ⟨h.access hheld, by simp, fun d hd => mem_next hd, by simp, by simp⟩
    · cases hs
  | notFound =>
    simp only [ClientLife.stepRead] at hs
    split at hs
    · cases hs
      exact ⟨h.ok, by simp, by simp, by simp, by simp⟩
    · cases hs
  | write =>
    simp only [ClientLife.stepRead] at hs
    split at hs
    · rename_i c hcommand
      cases hs
      have hc : c ∈ s.ev.conns.connectionList := h.held c (by rw [hcommand]; rfl)
      exact ⟨⟨h.ok.owned.call hc, h.ok.nodup, h.ok.pending⟩, by simp, by simp, by simp,
        by simp⟩
    · cases hs

/-- After `client_add_connection` nothing is held by the command thread. -/
theorem Inv.of_afterAdd {ev : EventLoop} {command : Command} (hok : ev.Ok)
    (h : command = .reading ∨ command = .nullConn) : Inv ⟨ev, command⟩ := by
  cases h with
  | inl heq => exact heq ▸ ⟨hok, by simp, by simp, by simp, by simp⟩
  | inr heq => exact heq ▸ ⟨hok, by simp, by simp, by simp, by simp⟩

theorem afterAdd_cases (send : Bool) : afterAdd send = .reading ∨ afterAdd send = .nullConn := by
  cases send
  · exact .inl rfl
  · exact .inr rfl

theorem Inv.stepAdd {a : AddLabel} (h : Inv s) (hok : Undisturbed s (.add a))
    (hs : stepAdd s a = some s') : Inv s' := by
  cases a with
  | fails =>
    simp only [ClientLife.stepAdd] at hs
    split at hs
    · cases hs
      exact .of_afterAdd h.ok (.inl rfl)
    · cases hs
  | mallocFails =>
    simp only [ClientLife.stepAdd] at hs
    split at hs
    · cases hs
      exact .of_afterAdd h.ok (afterAdd_cases _)
    · cases hs
  | add =>
    simp only [ClientLife.stepAdd] at hs
    split at hs
    · cases hs
      have hnot : s.ev.conns.created ∉ s.ev.conns.connectionList := fun hc =>
        lt_irrefl _ (h.ok.owned.lt_created hc)
      have hnew : s.ev.conns.created ∈ s.ev.conns.add.connectionList :=
        List.mem_append_right _ List.mem_cons_self
      refine ⟨⟨h.ok.owned.add.name hnew, h.ok.nodup, ?_⟩, ?_, by simp, by simp, by simp⟩
      · intro c hc
        exact List.mem_append_left _ (h.ok.pending c hc)
      · intro c send hc
        cases hc
        exact ⟨hnew, fun hc => hnot (h.ok.owned.registered _ hc), fun hc => hnot (h.ok.pending _ hc)⟩
    · cases hs
  | register ok =>
    simp only [ClientLife.stepAdd] at hs
    split at hs
    · rename_i c send hc
      cases hs
      rw [show ok = true from hok]
      exact .of_afterAdd ⟨h.ok.owned.register (h.added c send hc).1, h.ok.nodup, h.ok.pending⟩
        (afterAdd_cases send)
    · cases hs

theorem Inv.stepDestroy {a : DestroyLabel} (h : Inv s) (hs : stepDestroy s a = some s') :
    Inv s' := by
  cases a with
  | join =>
    obtain ⟨hguard, hs⟩ := Option.ite_none_right_eq_some.mp hs
    cases hs
    exact ⟨h.ok, by simp, by simp, fun _ => hguard.2, by simp⟩
  | deleteFirst =>
    simp only [ClientLife.stepDestroy] at hs
    split at hs
    · rename_i c rest hcommand hlist
      cases hs
      have hended := h.ended (.inl hcommand)
      have hc : c ∈ s.ev.conns.connectionList := by
        rw [hlist]
        exact List.mem_cons_self
      refine ⟨⟨h.ok.owned.delete hc, h.ok.nodup, ?_⟩, ?_, ?_, fun _ => hended, ?_⟩
      · simp [hended, Loop.pending]
      · simp [hcommand]
      · simp [hcommand]
      · simp [hcommand]
    · cases hs
  | finish =>
    obtain ⟨hguard, hs⟩ := Option.ite_none_right_eq_some.mp hs
    cases hs
    exact ⟨h.ok, by simp, by simp, fun _ => h.ended (.inl hguard.1), fun _ => hguard.2⟩

theorem reach_inv (h : lts.Reach Undisturbed s) : Inv s := by
  apply h.invariant Inv
  · intro s hs
    exact hs ▸ inv_initial
  · intro s a s' _ hinv hok hs
    cases a with
    | loop b =>
      obtain ⟨ev, hev, rfl⟩ := Option.map_eq_some_iff.mp hs
      exact hinv.loop hok hev
    | read a => exact hinv.stepRead hs
    | add a => exact hinv.stepAdd hok hs
    | destroy a => exact hinv.stepDestroy hs

end Steps

end ClientLife

/-! ### The lives of connections -/

end TmkDcl.Tcp
