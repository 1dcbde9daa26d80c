import TmkDcl.Pipeline.Moves

/-!
# The mailbox between two modules

A module hands a command over to its next one through the fields `cmd` and
`dataoffset` of that module, guarded by its semaphores `result` (the place is
free) and `new_cmd` (the place is filled). A thread takes part as the sender of
its next module's mailbox and as the receiver of its own; its program point
determines a phase in either part. `LinkInv` ties the two phases and the two
semaphores together: exactly one of "free", "being written", "filled" and
"being read" holds once the receiver is initialised.
-/

namespace TmkDcl.Pipeline

/-- The part of a thread as the sender to its next module. -/
inductive SendPhase where
  | idle
  | cmd
  | offset
  | post
  | stopCmd
  | stopPost
  /-- the stop command has been posted -/
  | stopped
  deriving DecidableEq

/-- The part of a thread as the receiver of its own mailbox. -/
inductive RecvPhase where
  | uninit
  | idle
  | cmd
  | offset
  | post
  /-- the stop command has been taken -/
  | stopped
  deriving DecidableEq

def Pc.sendPhase : Pc → SendPhase
  | .putCmd => .cmd
  | .putOffset => .offset
  | .postNext => .post
  | .stopPutCmd => .stopCmd
  | .stopPostNext => .stopPost
  | .checkNextIdx | .stopSetCmd | .stopPostJob | .stopWaitResult | .setInit | .done => .stopped
  | _ => .idle

def Pc.recvPhase : Pc → RecvPhase
  | .uninit => .uninit
  | .readCmd => .cmd
  | .readOffset => .offset
  | .postResult => .post
  | .stopWaitNext | .stopPutCmd | .stopPostNext | .checkNextIdx | .stopSetCmd | .stopPostJob
  | .stopWaitResult | .setInit | .done => .stopped
  | _ => .idle

/-- The sender is between its wait on `result` and its post of `new_cmd`. -/
def SendPhase.writing : SendPhase → ℕ
  | .idle | .stopped => 0
  | _ => 1

/-- The receiver is between its wait on `new_cmd` and its post of `result`. -/
def RecvPhase.reading : RecvPhase → ℕ
  | .cmd | .offset | .post => 1
  | _ => 0

/-- A letter has been posted and its `dataoffset` has not been read yet. -/
def Unread (b : Mailbox) (r : Pc) : Prop :=
  0 < b.newCmd ∨ r.recvPhase = .cmd ∨ r.recvPhase = .offset

instance (b : Mailbox) (r : Pc) : Decidable (Unread b r) := inferInstanceAs (Decidable (_ ∨ _))

/-- The receiver has the stop command. -/
def GotStop (r : Thread) : Prop :=
  (r.pc.recvPhase = .post ∧ r.cmd = .stop) ∨ r.pc.recvPhase = .stopped

/-- The invariant of the mailbox `b` from the thread `a` to the thread `r`. -/
structure LinkInv (a : Thread) (b : Mailbox) (r : Thread) : Prop where
  tokens : b.result + a.pc.sendPhase.writing + b.newCmd + r.pc.recvPhase.reading =
    if r.pc.recvPhase = .uninit then 0 else 1
  cmd_job : a.pc.sendPhase = .offset ∨ a.pc.sendPhase = .post → b.cmd = .job
  offs : a.pc.sendPhase = .post → b.dataoffset = a.dataoffset
  cmd_stop : a.pc.sendPhase = .stopPost ∨ a.pc.sendPhase = .stopped → b.cmd = .stop
  read : r.pc.recvPhase = .offset → r.cmd = b.cmd
  stop_iff : a.pc.sendPhase = .stopped ↔ (Unread b r.pc ∧ b.cmd = .stop) ∨ GotStop r

/-- What a statement of the sender does to the mailbox. -/
inductive SendMove (a a' : Thread) (b : Mailbox) : Mailbox → Prop
  | stay (h : a.pc.sendPhase = .idle ∨ a.pc.sendPhase = .stopped)
      (h' : a'.pc.sendPhase = a.pc.sendPhase) : SendMove a a' b b
  | wait (h : a.pc.sendPhase = .idle) (hr : 0 < b.result)
      (h' : a'.pc.sendPhase = .cmd ∨ a'.pc.sendPhase = .stopCmd) :
      SendMove a a' b { b with result := b.result - 1 }
  | cmd (h : a.pc.sendPhase = .cmd) (h' : a'.pc.sendPhase = .offset) :
      SendMove a a' b { b with cmd := .job }
  | offset (h : a.pc.sendPhase = .offset) (h' : a'.pc.sendPhase = .post)
      (ho : a'.dataoffset = a.dataoffset) :
      SendMove a a' b { b with dataoffset := a.dataoffset }
  | post (h : a.pc.sendPhase = .post) (h' : a'.pc.sendPhase = .idle) :
      SendMove a a' b { b with newCmd := b.newCmd + 1 }
  | stopCmd (h : a.pc.sendPhase = .stopCmd) (h' : a'.pc.sendPhase = .stopPost) :
      SendMove a a' b { b with cmd := .stop }
  | stopPost (h : a.pc.sendPhase = .stopPost) (h' : a'.pc.sendPhase = .stopped) :
      SendMove a a' b { b with newCmd := b.newCmd + 1 }

/-- What a statement of the receiver does to its mailbox. -/
inductive RecvMove (r r' : Thread) (b : Mailbox) : Mailbox → Prop
  | stay (h : r.pc.recvPhase = .idle ∨ r.pc.recvPhase = .stopped)
      (h' : r'.pc.recvPhase = r.pc.recvPhase) : RecvMove r r' b b
  | wait (h : r.pc.recvPhase = .idle) (hr : 0 < b.newCmd) (h' : r'.pc.recvPhase = .cmd) :
      RecvMove r r' b { b with newCmd := b.newCmd - 1 }
  | cmd (h : r.pc.recvPhase = .cmd) (h' : r'.pc.recvPhase = .offset) (hc : r'.cmd = b.cmd) :
      RecvMove r r' b b
  | offset (h : r.pc.recvPhase = .offset) (h' : r'.pc.recvPhase = .post) (hc : r'.cmd = r.cmd)
      (ho : r'.dataoffset = b.dataoffset) : RecvMove r r' b b
  | post (h : r.pc.recvPhase = .post) (hc : r.cmd = .job) (h' : r'.pc.recvPhase = .idle) :
      RecvMove r r' b { b with result := b.result + 1 }
  | postStop (h : r.pc.recvPhase = .post) (hc : r.cmd = .stop)
      (h' : r'.pc.recvPhase = .stopped) : RecvMove r r' b { b with result := b.result + 1 }

section Moves

variable {cfg : Config} {s s' : State} {i j k : ℕ}

theorem ThreadMove.thr_of_ne (h : ThreadMove cfg s k s') (hi : i ≠ k) : s'.thr i = s.thr i := by
  cases h <;> exact Function.update_of_ne hi ..

theorem ThreadMove.box_of_ne (h : ThreadMove cfg s k s') (hj : j ≠ k)
    (hn : cfg.next k ≠ some j) : s'.box j = s.box j := by
  cases h
  case waitNext hj' _ | stopWaitNext hj' _ | putCmd hj' | putOffset hj' | stopPutCmd hj'
    | stopPostNext hj' | postNext hj' _ _ =>
    exact Function.update_of_ne (fun he : j = _ => hn (by rw [he, hj'])) ..
  case waitCmd | postStop | postTaken => exact Function.update_of_ne hj ..
  all_goals rfl

theorem ThreadMove.send (h : ThreadMove cfg s k s') (hn : cfg.next k = some j) (hne : k ≠ j)
    (hm : cfg.method k ≠ some .finalizationThread) :
    SendMove (s.thr k) (s'.thr k) (s.box j) (s'.box j) := by
  cases h
  case waitNext hpc hn' hr =>
    obtain rfl := Option.some_inj.mp (hn.symm.trans hn')
    simpa using SendMove.wait (by simp [hpc, Pc.sendPhase]) hr (Or.inl rfl)
  case putCmd hpc hn' =>
    obtain rfl := Option.some_inj.mp (hn.symm.trans hn')
    simpa using SendMove.cmd (by simp [hpc, Pc.sendPhase]) rfl
  case putOffset hpc hn' =>
    obtain rfl := Option.some_inj.mp (hn.symm.trans hn')
    have hmove : SendMove (s.thr k) { s.thr k with pc := .postNext } (s.box j) _ :=
      .offset (by rw [hpc]; rfl) rfl rfl
    simpa using hmove
  case postNext hpc hn' pc hs =>
    obtain rfl := Option.some_inj.mp (hn.symm.trans hn')
    simpa using SendMove.post (by simp [hpc, Pc.sendPhase]) (by rw [hs]; split <;> rfl)
  case stopWaitNext hpc hn' hr =>
    obtain rfl := Option.some_inj.mp (hn.symm.trans hn')
    simpa using SendMove.wait (by simp [hpc, Pc.sendPhase]) hr (Or.inr rfl)
  case stopPutCmd hpc hn' =>
    obtain rfl := Option.some_inj.mp (hn.symm.trans hn')
    simpa using SendMove.stopCmd (by simp [hpc, Pc.sendPhase]) rfl
  case stopPostNext hpc hn' =>
    obtain rfl := Option.some_inj.mp (hn.symm.trans hn')
    simpa using SendMove.stopPost (by simp [hpc, Pc.sendPhase]) rfl
  case startPost hpc pc hs | stopWaitResult hpc pc hs _ =>
    simpa using SendMove.stay (by simp [hpc, Pc.sendPhase])
      (by rw [hs, hpc]; split <;> rfl)
  case postStop hpc _ _ pc hs | postTaken hpc _ _ pc hs =>
    rw [if_neg hm] at hs
    simpa [Function.update_of_ne hne.symm] using SendMove.stay (by simp [hpc, Pc.sendPhase])
      (by rw [hs, hpc]; rfl)
  case checkExit hpc _ | checkState hpc _ | readResult hpc _ =>
    refine .stay (by simp [hpc, Pc.sendPhase]) ?_
    simp only [State.goto, State.emit, Function.update_self, hpc]
    split <;> rfl
  all_goals
    simp only [State.goto, State.setBox, State.setProc, State.setChild, State.setChunk,
      State.emit, Function.update_self, Function.update_of_ne hne.symm]
    exact .stay (by simp [*, Pc.sendPhase]) (by simp [*, Pc.sendPhase])

theorem ne_of_next (hne : cfg.next k ≠ some k) (hn : cfg.next k = some j) : k ≠ j := by
  rintro rfl
  exact hne hn

theorem ThreadMove.recv (h : ThreadMove cfg s k s') (hne : cfg.next k ≠ some k)
    (hm : cfg.method k ≠ some .sourceThread) :
    RecvMove (s.thr k) (s'.thr k) (s.box k) (s'.box k) := by
  cases h
  case waitCmd hpc _ hr => simpa using RecvMove.wait (by simp [hpc, Pc.recvPhase]) hr rfl
  case readCmd hpc _ =>
    have hmove : RecvMove (s.thr k) ⟨.readOffset, (s.box k).cmd, (s.thr k).dataoffset⟩ (s.box k) _ :=
      .cmd (by rw [hpc]; rfl) rfl rfl
    simpa using hmove
  case readOffset hpc _ _ _ =>
    have hmove : RecvMove (s.thr k) ⟨.postResult, (s.thr k).cmd, (s.box k).dataoffset⟩ (s.box k) _ :=
      .offset (by rw [hpc]; rfl) rfl rfl rfl
    simpa using hmove
  case postStop hpc _ hc pc hs =>
    simpa using RecvMove.postStop (by simp [hpc, Pc.recvPhase]) hc (by rw [hs]; split <;> rfl)
  case postTaken hpc _ hc pc hs =>
    simpa using RecvMove.post (by simp [hpc, Pc.recvPhase]) hc (by rw [hs]; split <;> rfl)
  case waitNext hpc hn _ | putCmd hpc hn | putOffset hpc hn | stopWaitNext hpc hn _
    | stopPutCmd hpc hn | stopPostNext hpc hn =>
    have hj := ne_of_next hne hn
    simpa [Function.update_of_ne hj] using
      RecvMove.stay (by simp [hpc, Pc.recvPhase]) (by rw [hpc]; rfl)
  case postNext hpc hn pc hs =>
    have hj := ne_of_next hne hn
    rw [if_neg hm] at hs
    simpa [Function.update_of_ne hj] using
      RecvMove.stay (by simp [hpc, Pc.recvPhase]) (by rw [hpc, hs]; rfl)
  case startPost hpc pc hs | stopWaitResult hpc pc hs _ =>
    rw [if_neg hm] at hs
    simpa using RecvMove.stay (by simp [hpc, Pc.recvPhase]) (by rw [hs, hpc]; rfl)
  case readResult hpc _ =>
    refine .stay (by simp [hpc, Pc.recvPhase]) ?_
    simp only [State.goto, State.emit, Function.update_self, hpc]
    split <;> rfl
  all_goals
    first
    | exact absurd (by assumption) hm
    | simp only [State.goto, State.setProc, State.setChild, State.setChunk, State.emit,
        Function.update_self]
      exact .stay (by simp [*, Pc.recvPhase]) (by simp [*, Pc.recvPhase])

end Moves

/-! ### The moves keep the invariant -/

section Preserved

variable {a a' r r' : Thread} {b b' : Mailbox}

theorem LinkInv.send (h : LinkInv a b r) (hm : SendMove a a' b b') : LinkInv a' b' r := by
  obtain ⟨htok, hjob, hoffs, hstop, hread, hiff⟩ := h
  cases hm with
  | stay h h' =>
    constructor <;> grind [SendPhase.writing, Unread, GotStop]
  | wait h hr h' => constructor <;> grind [SendPhase.writing, Unread, GotStop]
  | cmd h h' => constructor <;> grind [SendPhase.writing, Unread, GotStop, RecvPhase.reading]
  | offset h h' ho => constructor <;> grind [SendPhase.writing, Unread, GotStop]
  | post h h' => constructor <;> grind [SendPhase.writing, Unread, GotStop, RecvPhase.reading]
  | stopCmd h h' => constructor <;> grind [SendPhase.writing, Unread, GotStop, RecvPhase.reading]
  | stopPost h h' => constructor <;> grind [SendPhase.writing, Unread, GotStop]

theorem LinkInv.recv (h : LinkInv a b r) (hm : RecvMove r r' b b') : LinkInv a b' r' := by
  obtain ⟨htok, hjob, hoffs, hstop, hread, hiff⟩ := h
  cases hm with
  | stay h h' => constructor <;> grind [RecvPhase.reading, Unread, GotStop]
  | wait h hr h' => constructor <;> grind [RecvPhase.reading, Unread, GotStop]
  | cmd h h' hc => constructor <;> grind [RecvPhase.reading, Unread, GotStop]
  | offset h h' hc ho => constructor <;> grind [RecvPhase.reading, Unread, GotStop]
  | post h hc h' => constructor <;> grind [RecvPhase.reading, Unread, GotStop]
  | postStop h hc h' => constructor <;> grind [RecvPhase.reading, Unread, GotStop]

end Preserved

end TmkDcl.Pipeline
