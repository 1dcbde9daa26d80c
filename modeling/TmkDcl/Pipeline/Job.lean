import TmkDcl.Pipeline.Mailbox

/-!
# The exchange of a module with its child

A thread writes `cmd` and `cmd_offs` of its process entry, posts `sem_job` and
waits on `sem_result`; the child takes the job, runs the action and posts the
result. `JobInv` says that a thread that waits has exactly one job or result
under way, that a thread that does not wait has none, and what the entry holds.
-/

namespace TmkDcl.Pipeline

/-- The part of a thread as the server of its child. -/
inductive JobPhase where
  | idle
  | offs
  | post
  | wait
  | stopPost
  | stopWait
  deriving DecidableEq

def Pc.jobPhase : Pc → JobPhase
  | .setOffs => .offs
  | .postJob => .post
  | .waitResult => .wait
  | .stopPostJob => .stopPost
  | .stopWaitResult => .stopWait
  | _ => .idle

/-- The thread waits on `sem_result`. -/
def JobPhase.waiting : JobPhase → ℕ
  | .wait | .stopWait => 1
  | _ => 0

/-- The child works on a command. -/
def ChildPc.busy : ChildPc → ℕ
  | .readCmd | .action | .post _ => 1
  | _ => 0

/-- The thread has not got past `process_start`. -/
def Pc.starting : Pc → Bool
  | .uninit | .start | .failFlag | .failPost | .failed => true
  | _ => false

/-- The invariant of the process entry `p` between the thread `t` and its child `c`. -/
structure JobInv (t : Thread) (p : ProcessInfo) (c : Child) : Prop where
  tokens : p.semJob + c.pc.busy + p.semResult = t.pc.jobPhase.waiting
  cmd : t.pc = .popWait ∨ t.pc = .popTake ∨ t.pc = .setCmd → t.cmd = .job
  cmd_job : t.pc.jobPhase = .offs ∨ t.pc.jobPhase = .post ∨ t.pc.jobPhase = .wait → p.cmd = .job
  offs : t.pc.jobPhase = .post ∨ t.pc.jobPhase = .wait → p.cmdOffs = t.dataoffset
  cmd_stop : t.pc.jobPhase = .stopPost ∨ t.pc.jobPhase = .stopWait → p.cmd = .stop
  action : c.pc = .action → p.cmd = .job
  absent : t.pc.starting = true → c.pc = .absent

/-- What a statement of a thread does to its process entry. -/
inductive JobMove (t t' : Thread) (p : ProcessInfo) : ProcessInfo → Prop
  | stay (h : t.pc.jobPhase = .idle) (h' : t'.pc.jobPhase = .idle)
      (hs : t'.pc.starting = true → t.pc.starting = true)
      (hc : t'.pc = .popWait ∨ t'.pc = .popTake ∨ t'.pc = .setCmd → t'.cmd = .job) :
      JobMove t t' p p
  | setCmd (h : t.pc = .setCmd) (h' : t'.pc = .setOffs) :
      JobMove t t' p { p with cmd := t.cmd }
  | setOffs (h : t.pc = .setOffs) (h' : t'.pc = .postJob) (ho : t'.dataoffset = t.dataoffset) :
      JobMove t t' p { p with cmdOffs := t.dataoffset }
  | postJob (h : t.pc = .postJob) (h' : t'.pc = .waitResult) (ho : t'.dataoffset = t.dataoffset) :
      JobMove t t' p { p with semJob := p.semJob + 1 }
  | reply (h : t.pc = .waitResult) (hr : 0 < p.semResult)
      (h' : t'.pc = .waitNext ∨ t'.pc = .readResult) :
      JobMove t t' p { p with semResult := p.semResult - 1 }
  | setStop (h : t.pc = .stopSetCmd) (h' : t'.pc = .stopPostJob) :
      JobMove t t' p { p with cmd := .stop }
  | postStop (h : t.pc = .stopPostJob) (h' : t'.pc = .stopWaitResult) :
      JobMove t t' p { p with semJob := p.semJob + 1 }
  | replyStop (h : t.pc = .stopWaitResult) (hr : 0 < p.semResult)
      (h' : t'.pc = .setInit ∨ t'.pc = .done) :
      JobMove t t' p { p with semResult := p.semResult - 1 }

section Moves

variable {cfg : Config} {s s' : State} {i k : ℕ} {a : Label}

theorem ThreadMove.proc_of_ne (h : ThreadMove cfg s k s') (hi : i ≠ k) :
    s'.proc i = s.proc i := by
  cases h
  case setCmd | setOffs | postJob | sourceResult | processResult | stopSetCmd | stopPostJob
    | stopWaitResult => exact Function.update_of_ne hi ..
  all_goals rfl

theorem ThreadMove.child_of_ne (h : ThreadMove cfg s k s') (hi : i ≠ k) :
    s'.child i = s.child i := by
  cases h
  case startFork => exact Function.update_of_ne hi ..
  all_goals rfl

/-- A thread creates its child when it starts and leaves it alone later. -/
theorem ThreadMove.child (h : ThreadMove cfg s k s') :
    s'.child k = s.child k ∨
      (s.thr k).pc = .start ∧ (s'.thr k).pc = .startPost ∧ s'.proc k = s.proc k ∧
        s'.child k = ⟨.waitJob, -1, false⟩ := by
  cases h
  case startFork hpc _ _ => exact Or.inr ⟨hpc, by simp, rfl, by simp⟩
  all_goals exact Or.inl rfl

theorem ThreadMove.forked (h : ThreadMove cfg s k s')
    (hm : cfg.method k ≠ some .finalizationThread) (hs : (s.thr k).pc.starting = true)
    (hs' : (s'.thr k).pc.starting = false) : (s'.child k).pc = .waitJob := by
  cases h
  case startFork => simp
  all_goals simp_all [Pc.starting]

/-- A thread in its part as the server of its child; the mailbox of the head
holds the command that `pipeline_module_init` put there. -/
theorem ThreadMove.job (h : ThreadMove cfg s k s')
    (hb : cfg.method k = some .sourceThread → (s.box k).cmd = .job)
    (hc : (s.thr k).pc = .popWait ∨ (s.thr k).pc = .popTake → (s.thr k).cmd = .job) :
    JobMove (s.thr k) (s'.thr k) (s.proc k) (s'.proc k) := by
  cases h
  case setCmd hpc => simpa using JobMove.setCmd hpc rfl
  case setOffs hpc =>
    have hmove : JobMove (s.thr k) { s.thr k with pc := .postJob } (s.proc k) _ :=
      .setOffs hpc rfl rfl
    simpa using hmove
  case postJob hpc =>
    have hmove : JobMove (s.thr k) { s.thr k with pc := .waitResult } (s.proc k) _ :=
      .postJob hpc rfl rfl
    simpa using hmove
  case sourceResult hpc _ hr => simpa using JobMove.reply hpc hr (Or.inl rfl)
  case processResult hpc _ hr => simpa using JobMove.reply hpc hr (Or.inr rfl)
  case stopSetCmd hpc => simpa using JobMove.setStop hpc rfl
  case stopPostJob hpc => simpa using JobMove.postStop hpc rfl
  case stopWaitResult hpc pc hs hr =>
    simpa using JobMove.replyStop hpc hr (by rw [hs]; split <;> simp)
  case startPost hpc pc hs | postNext hpc _ pc hs | postStop hpc _ _ pc hs =>
    have hpc' : pc.jobPhase = .idle ∧ pc.starting = false ∧ pc ≠ .popWait ∧ pc ≠ .popTake ∧
        pc ≠ .setCmd := by
      rw [hs]; split <;> simp [Pc.jobPhase, Pc.starting]
    simpa using JobMove.stay (by simp [hpc, Pc.jobPhase]) hpc'.1 (by simp [hpc'.2.1])
      (by simp [hpc'.2.2])
  case postTaken hpc _ hcmd pc hs =>
    have hpc' : pc.jobPhase = .idle ∧ pc.starting = false := by
      rw [hs]; split <;> simp [Pc.jobPhase, Pc.starting]
    simpa using JobMove.stay (by simp [hpc, Pc.jobPhase]) hpc'.1 (by simp [hpc'.2])
      (by simp [hcmd])
  case checkExit hpc _ | checkState hpc _ | readResult hpc _ =>
    simp only [State.goto, State.emit, Function.update_self]
    refine .stay (by simp [hpc, Pc.jobPhase]) ?_ ?_ ?_
    all_goals split <;> simp [Pc.jobPhase, Pc.starting]
  case readOwnCmd hpc hm =>
    simpa using JobMove.stay (by simp [hpc, Pc.jobPhase]) rfl (by simp [Pc.starting])
      (by simp [hb hm])
  case popWait hpc _ _ | popTake hpc _ =>
    simpa using JobMove.stay (by simp [hpc, Pc.jobPhase]) rfl (by simp [Pc.starting])
      (by simp [hc, hpc])
  all_goals
    rename_i hpc
    simp only [State.goto, State.setBox, State.setChild, State.setChunk, State.emit,
      Function.update_self]
    exact .stay (by simp [*, Pc.jobPhase]) rfl (by simp [*, Pc.starting]) (by simp)

end Moves

/-! ### The moves keep the invariant -/

section Preserved

variable {cfg : Config} {s s' : State} {t t' : Thread} {p p' : ProcessInfo} {c : Child} {i : ℕ}
  {a : Label}

theorem JobInv.thread (h : JobInv t p c) (hm : JobMove t t' p p') : JobInv t' p' c := by
  obtain ⟨htok, hcmd, hjob, hoffs, hstop, hact, habs⟩ := h
  cases hm with
  | stay h h' hs hc => constructor <;> grind -ring -linarith [JobPhase.waiting]
  | setCmd h h' => constructor <;> grind -ring -linarith [JobPhase.waiting, Pc.jobPhase, Pc.starting]
  | setOffs h h' ho => constructor <;> grind -ring -linarith [JobPhase.waiting, Pc.jobPhase, Pc.starting]
  | postJob h h' ho => constructor <;> grind -ring -linarith [JobPhase.waiting, Pc.jobPhase, Pc.starting]
  | reply h hr h' => constructor <;> grind -ring -linarith [JobPhase.waiting, Pc.jobPhase, Pc.starting]
  | setStop h h' =>
    constructor <;> grind -ring -linarith [JobPhase.waiting, Pc.jobPhase, Pc.starting, ChildPc.busy]
  | postStop h h' => constructor <;> grind -ring -linarith [JobPhase.waiting, Pc.jobPhase, Pc.starting]
  | replyStop h hr h' => constructor <;> grind -ring -linarith [JobPhase.waiting, Pc.jobPhase, Pc.starting]

theorem JobInv.fork (h : JobInv t p c) (ht : t.pc = .start) (ht' : t'.pc = .startPost)
    (b : Bool) (status : ℤ) : JobInv t' p ⟨.waitJob, status, b⟩ := by
  obtain ⟨htok, hcmd, hjob, hoffs, hstop, hact, habs⟩ := h
  constructor <;> simp_all [Pc.jobPhase, JobPhase.waiting, ChildPc.busy, Pc.starting]

theorem JobInv.child (h : JobInv (s.thr i) (s.proc i) (s.child i)) (hm : ChildMove cfg s i a s') :
    JobInv (s'.thr i) (s'.proc i) (s'.child i) := by
  obtain ⟨htok, hcmd, hjob, hoffs, hstop, hact, habs⟩ := h
  rw [hm.thr]
  cases hm
  all_goals
    simp only [State.setProc, State.setChild, State.setChunk, State.emit, Function.update_self]
    constructor <;> grind -ring -linarith [ChildPc.busy]

end Preserved

end TmkDcl.Pipeline
