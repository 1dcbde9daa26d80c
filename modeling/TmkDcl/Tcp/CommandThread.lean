import TmkDcl.Tcp.CommandServer

/-!
# The command server and its end (tcp/src/command_server.c, dclcomponents/server.c)

The network thread puts commands into the queue and calls `command_server_destroy` when its server loop is
over; `command_thread` executes them one after the other until it finds the exit flag set. The destroy sets
the flag and pushes one command more, because `command_thread` may wait for one.
-/

namespace TmkDcl.Tcp.CommandServer

/-- `command_thread` (`command_server.c:85-114`). -/
inductive ThreadPc where
  | test
  | pop
  | exec (cmd : ℕ)
  | free (cmd : ℕ)
  | returned
  deriving DecidableEq

/-- The network thread: `_tcp_server_process` with `putCommand`, then `command_server_destroy`
(`server.c:38-60`, `command_server.c:132-141`). -/
inductive MainPc where
  | serve
  /-- `putCommand` has set the `exit_flag` of `_tcp_server_process`, which is not that of the command
  server -/
  | quit
  /-- the loop is over with this request -/
  | leave
  | setFlag
  | push
  | join
  | destroyRing
  | freeServer
  | returned
  deriving DecidableEq

/-- The queue, `*(cmdsrv->exit_flag)`, the two threads, whether `cmd_ring` is there, and the commands executed and
freed so far. -/
structure Server where
  queue : Queue
  exitFlag : Bool
  thread : ThreadPc
  main : MainPc
  ring : Bool
  executed : List ℕ
  freed : List ℕ

inductive ServerLabel where
  /-- `putCommand` has a STOP, QUIT or EXIT request -/
  | quit
  /-- `push_new_command` stores a command -/
  | push (cmd : ℕ)
  /-- one of the posts behind the store -/
  | post
  | main
  | thread
  /-- `executeAPICommand` returns; STOP sets the exit flag -/
  | exec (stop : Bool)
  deriving DecidableEq

/-- A statement of the network thread outside `push_new_command`. -/
def commandServerDestroy (s : Server) : Option Server :=
  match s.main with
  | .serve | .quit => none
  | .leave => if s.queue.pusher = .idle then some { s with main := .setFlag } else none
  | .setFlag => some { s with exitFlag := true, main := .push }
  | .push => none
  | .join =>
    if s.queue.pusher = .idle ∧ s.thread = .returned then some { s with main := .destroyRing } else none
  | .destroyRing => some { s with ring := false, main := .freeServer }
  | .freeServer => some { s with main := .returned }
  | .returned => none

/-- A statement of `command_thread` outside `executeAPICommand`. -/
def commandThread (s : Server) : Option Server :=
  match s.thread with
  | .test => some { s with thread := if s.exitFlag then .returned else .pop }
  | .pop =>
    match s.queue.popper with
    | .idle => (step s.queue .waitReady).map fun q => { s with queue := q }
    | .ringWait => (step s.queue .waitRing).map fun q => { s with queue := q }
    | .section =>
      let cmd := (ringBufferPop s.queue.cmdRing).1
      (step s.queue .pop).map fun q =>
        { s with queue := q, thread := if cmd = 0 then .test else .exec cmd }
  | .exec _ => none
  | .free cmd => some { s with freed := s.freed ++ [cmd], thread := .test }
  | .returned => none

def serverStep (s : Server) : ServerLabel → Option Server
  | .quit =>
    if s.main = .serve ∧ s.queue.pusher = .idle then some { s with main := .quit } else none
  | .push cmd =>
    match s.main with
    | .serve => (step s.queue (.push cmd)).map fun q => { s with queue := q }
    | .quit => (step s.queue (.push cmd)).map fun q => { s with queue := q, main := .leave }
    | .push => (step s.queue (.push cmd)).map fun q => { s with queue := q, main := .join }
    | _ => none
  | .post =>
    match s.queue.pusher with
    | .idle => none
    | .ringPost => (step s.queue .postRing).map fun q => { s with queue := q }
    | .readyPost => (step s.queue .postReady).map fun q => { s with queue := q }
  | .main => commandServerDestroy s
  | .thread => commandThread s
  | .exec stop =>
    match s.thread with
    | .exec cmd => some { s with
        exitFlag := s.exitFlag || stop
        executed := s.executed ++ [cmd]
        thread := .free cmd }
    | _ => none

def server : Lts Server ServerLabel where
  init s := s = ⟨commandServerInit, false, .test, .serve, true, [], []⟩
  step := serverStep

/-- A command is stored before the end of the ring. -/
def fits (s : Server) : ServerLabel → Prop
  | .push cmd => beforeEnd s.queue (.push cmd)
  | _ => True

instance (s : Server) : ∀ a, Decidable (fits s a)
  | .push cmd => inferInstanceAs (Decidable (beforeEnd s.queue (.push cmd)))
  | .quit | .post | .main | .thread | .exec _ => isTrue trivial

/-! ### What a step does -/

/-- The steps by what they do to the server, with the step of the queue where there is one. -/
inductive ServerMove (s : Server) : ServerLabel → Server → Prop
  | quit (hm : s.main = .serve) : ServerMove s .quit { s with main := .quit }
  | request {cmd : ℕ} {q : Queue} (hm : s.main = .serve) (h : step s.queue (.push cmd) = some q) :
      ServerMove s (.push cmd) { s with queue := q }
  | lastRequest {cmd : ℕ} {q : Queue} (hm : s.main = .quit)
      (h : step s.queue (.push cmd) = some q) :
      ServerMove s (.push cmd) { s with queue := q, main := .leave }
  | stopCommand {cmd : ℕ} {q : Queue} (hm : s.main = .push)
      (h : step s.queue (.push cmd) = some q) :
      ServerMove s (.push cmd) { s with queue := q, main := .join }
  | postRing {q : Queue} (hp : s.queue.pusher = .ringPost) (h : step s.queue .postRing = some q) :
      ServerMove s .post { s with queue := q }
  | postReady {q : Queue} (hp : s.queue.pusher = .readyPost) (h : step s.queue .postReady = some q) :
      ServerMove s .post { s with queue := q }
  | leave (hm : s.main = .leave) (hp : s.queue.pusher = .idle) :
      ServerMove s .main { s with main := .setFlag }
  | setFlag (hm : s.main = .setFlag) : ServerMove s .main { s with exitFlag := true, main := .push }
  | join (hm : s.main = .join) (hp : s.queue.pusher = .idle) (ht : s.thread = .returned) :
      ServerMove s .main { s with main := .destroyRing }
  | destroyRing (hm : s.main = .destroyRing) :
      ServerMove s .main { s with ring := false, main := .freeServer }
  | freeServer (hm : s.main = .freeServer) : ServerMove s .main { s with main := .returned }
  | test (ht : s.thread = .test) :
      ServerMove s .thread { s with thread := if s.exitFlag then .returned else .pop }
  | waitReady {q : Queue} (ht : s.thread = .pop) (hp : s.queue.popper = .idle)
      (h : step s.queue .waitReady = some q) : ServerMove s .thread { s with queue := q }
  | waitRing {q : Queue} (ht : s.thread = .pop) (hp : s.queue.popper = .ringWait)
      (h : step s.queue .waitRing = some q) : ServerMove s .thread { s with queue := q }
  | pop {q : Queue} (ht : s.thread = .pop) (hp : s.queue.popper = .section)
      (h : step s.queue .pop = some q) (pc : ThreadPc)
      (hpc : pc = if (ringBufferPop s.queue.cmdRing).1 = 0 then .test
        else .exec (ringBufferPop s.queue.cmdRing).1) :
      ServerMove s .thread { s with queue := q, thread := pc }
  | free {cmd : ℕ} (ht : s.thread = .free cmd) :
      ServerMove s .thread { s with freed := s.freed ++ [cmd], thread := .test }
  | exec {cmd : ℕ} (ht : s.thread = .exec cmd) (stop : Bool) :
      ServerMove s (.exec stop) { s with
        exitFlag := s.exitFlag || stop
        executed := s.executed ++ [cmd]
        thread := .free cmd }

section Moves

variable {s s' : Server} {a : ServerLabel}

theorem commandServerDestroy_move (h : commandServerDestroy s = some s') : ServerMove s .main s' := by
  unfold commandServerDestroy at h
  split at h
  all_goals rename_i hm
  · cases h
  · cases h
  · split at h <;> cases h
    exact .leave hm (by assumption)
  · cases h
    exact .setFlag hm
  · cases h
  · split at h <;> cases h
    obtain ⟨hp, ht⟩ := ‹_ ∧ _›
    exact .join hm hp ht
  · cases h
    exact .destroyRing hm
  · cases h
    exact .freeServer hm
  · cases h

theorem commandThread_move (h : commandThread s = some s') : ServerMove s .thread s' := by
  unfold commandThread at h
  split at h
  all_goals rename_i ht
  · cases h
    exact .test ht
  · split at h
    all_goals
      rename_i hp
      obtain ⟨q, hq, rfl⟩ := Option.map_eq_some_iff.mp h
    · exact .waitReady ht hp hq
    · exact .waitRing ht hp hq
    · exact .pop ht hp hq _ rfl
  · cases h
  · cases h
    exact .free ht
  · cases h

theorem serverStep_move (h : serverStep s a = some s') : ServerMove s a s' := by
  cases a with
  | quit =>
    simp only [serverStep] at h
    split at h <;> cases h
    obtain ⟨hm, -⟩ := ‹_ ∧ _›
    exact .quit hm
  | push cmd =>
    simp only [serverStep] at h
    split at h
    · obtain ⟨q, hq, rfl⟩ := Option.map_eq_some_iff.mp h
      exact .request (by assumption) hq
    · obtain ⟨q, hq, rfl⟩ := Option.map_eq_some_iff.mp h
      exact .lastRequest (by assumption) hq
    · obtain ⟨q, hq, rfl⟩ := Option.map_eq_some_iff.mp h
      exact .stopCommand (by assumption) hq
    · cases h
  | post =>
    simp only [serverStep] at h
    split at h
    · cases h
    · obtain ⟨q, hq, rfl⟩ := Option.map_eq_some_iff.mp h
      exact .postRing (by assumption) hq
    · obtain ⟨q, hq, rfl⟩ := Option.map_eq_some_iff.mp h
      exact .postReady (by assumption) hq
  | main => exact commandServerDestroy_move h
  | thread => exact commandThread_move h
  | exec stop =>
    simp only [serverStep] at h
    split at h <;> cases h
    exact .exec (by assumption) stop

end Moves

/-! ### Invariants -/

/-- The command that `command_thread` has taken and not executed. -/
def ThreadPc.taken : ThreadPc → List ℕ
  | .exec cmd => [cmd]
  | _ => []

/-- The command that `command_thread` has executed and not freed. -/
def ThreadPc.unfreed : ThreadPc → List ℕ
  | .free cmd => [cmd]
  | _ => []

/-- The store or the take whose semaphore operation is still to come or already done. -/
def Queue.open (q : Queue) : ℕ :=
  (if q.pusher = .ringPost then 1 else 0) + if q.popper = .section then 1 else 0

/-- `command_server_destroy` has set the exit flag. -/
def MainPc.stopping : MainPc → Bool
  | .serve | .quit | .leave | .setFlag => false
  | _ => true

/-- `command_server_destroy` is past its join. -/
def MainPc.joined : MainPc → Bool
  | .destroyRing | .freeServer | .returned => true
  | _ => false

structure ServerInv (s : Server) : Prop where
  queue : Inv s.queue
  sem : s.queue.cmdRing.sem + s.queue.open = s.queue.cmdRing.used
  popper : s.thread ≠ .pop → s.queue.popper = .idle
  taken : s.queue.popped = s.executed ++ s.thread.taken
  unfreed : s.executed = s.freed ++ s.thread.unfreed
  flag : s.main.stopping = true → s.exitFlag = true
  woken : s.main = .join → s.thread = .pop → s.queue.popper = .idle →
    0 < s.queue.commandReady + s.queue.pusher.commands
  joined : s.main.joined = true → s.thread = .returned ∧ s.queue.pusher = .idle
  ring : s.ring = false → s.main.joined = true
  gone : s.main = .returned → s.ring = false
  freeing : s.main = .freeServer → s.ring = false

section Invariants

variable {s s' : Server} {a : ServerLabel}

theorem serverInv_init : ServerInv ⟨commandServerInit, false, .test, .serve, true, [], []⟩ where
  queue := inv_init
  sem := rfl
  popper _ := rfl
  taken := rfl
  unfreed := rfl
  flag h := by cases h
  woken h := by cases h
  joined h := by cases h
  ring h := by cases h
  gone h := by cases h
  freeing h := by cases h

theorem MainPc.not_joined {m : MainPc} (h : m.stopping = false) : m.joined = false := by
  cases m with
  | destroyRing | freeServer | returned => cases h
  | _ => rfl

/-- The network thread goes on before the exit flag is set. -/
theorem ServerInv.before (hi : ServerInv s) {m : MainPc} (hs : s.main.stopping = false)
    (hm : m.stopping = false) : ServerInv { s with main := m } := by
  have hjoined := MainPc.not_joined hm
  refine ⟨hi.queue, hi.sem, hi.popper, hi.taken, hi.unfreed, fun hx => absurd (hm.symm.trans hx) (by simp),
    fun hx => ?_, fun hx => absurd (hjoined.symm.trans hx) (by simp), fun hr => ?_, fun hx => ?_,
    fun hx => ?_⟩
  · dsimp only at hx
    subst hx
    cases hm
  · exact absurd ((MainPc.not_joined hs).symm.trans (hi.ring hr)) (by simp)
  · dsimp only at hx
    subst hx
    cases hm
  · dsimp only at hx
    subst hx
    cases hm

/-- A store of a command, with the place of the network thread behind it. -/
theorem ServerInv.push (hi : ServerInv s) {cmd : ℕ} {q : Queue} {m : MainPc}
    (hfit : beforeEnd s.queue (.push cmd)) (h : step s.queue (.push cmd) = some q)
    (hm : s.main.stopping = false ∧ m.stopping = false ∨ s.main = .push ∧ m = .join) :
    ServerInv { s with queue := q, main := m } := by
  have hq := inv_step hi.queue hfit h
  have hsem := hi.sem
  simp only [step, Option.ite_none_right_eq_some, Option.some.injEq] at h
  obtain ⟨⟨hidle, -⟩, rfl⟩ := h
  have hjoined : s.main.joined = false ∧ m.joined = false := by
    rcases hm with ⟨h1, h2⟩ | ⟨h1, rfl⟩
    · exact ⟨MainPc.not_joined h1, MainPc.not_joined h2⟩
    · simp [h1, MainPc.joined]
  have hring : s.ring = true := by
    cases hr : s.ring with
    | true => rfl
    | false => simpa [hjoined.1] using hi.ring hr
  refine ⟨hq, ?_, hi.popper, hi.taken, hi.unfreed, fun hstop => ?_, fun _ _ _ => ?_, fun hj => ?_,
    fun hr => ?_, fun hgone => ?_, fun hgone => ?_⟩
  · have hused : (ringBufferPush s.queue.cmdRing cmd).used = s.queue.cmdRing.used + 1 := rfl
    have hsame : (ringBufferPush s.queue.cmdRing cmd).sem = s.queue.cmdRing.sem := rfl
    simp only [Queue.open, hidle, reduceCtorEq, if_false, if_true] at hsem ⊢
    omega
  · rcases hm with ⟨-, h2⟩ | ⟨h1, rfl⟩
    · exact absurd (h2.symm.trans hstop) (by simp)
    · exact hi.flag (by rw [h1]; rfl)
  · simp [Pusher.commands]
  · exact absurd (hjoined.2.symm.trans hj) (by simp)
  · exact absurd (hring.symm.trans hr) (by simp)
  · dsimp only at hgone
    rw [hgone] at hjoined
    exact absurd hjoined.2 (by simp [MainPc.joined])
  · dsimp only at hgone
    rw [hgone] at hjoined
    exact absurd hjoined.2 (by simp [MainPc.joined])

/-- A step of the queue that is none of a store and none of a take. -/
theorem ServerInv.onQueue (hi : ServerInv s) {q : Queue} {l : Label}
    (hl : ∀ cmd, l ≠ .push cmd) (h : step s.queue l = some q)
    (hsem : q.cmdRing.sem + q.open = q.cmdRing.used) (hpopped : q.popped = s.queue.popped)
    (hpopper : s.thread ≠ .pop → q.popper = .idle)
    (hpusher : s.main.joined = true → q.pusher = .idle)
    (hwoken : s.main = .join → s.thread = .pop → q.popper = .idle →
      0 < q.commandReady + q.pusher.commands) : ServerInv { s with queue := q } := by
  have hok : beforeEnd s.queue l := by
    cases l with
    | push cmd => exact absurd rfl (hl cmd)
    | _ => trivial
  exact ⟨inv_step hi.queue hok h, hsem, hpopper, hpopped ▸ hi.taken, hi.unfreed, hi.flag, hwoken,
    fun hj => ⟨(hi.joined hj).1, hpusher hj⟩, hi.ring, hi.gone, hi.freeing⟩

theorem ServerInv.running (hi : ServerInv s) (ht : s.thread ≠ .returned) : s.main.joined = false := by
  cases hj : s.main.joined with
  | false => rfl
  | true => exact absurd (hi.joined hj).1 ht

theorem ServerInv.posting (hi : ServerInv s) (hp : s.queue.pusher ≠ .idle) : s.main.joined = false := by
  cases hj : s.main.joined with
  | false => rfl
  | true => exact absurd (hi.joined hj).2 hp

/-- A command that has been taken is no null pointer, so that the thread executes it. -/
theorem ServerInv.pop (hi : ServerInv s) {q : Queue} (ht : s.thread = .pop)
    (hp : s.queue.popper = .section) (h : step s.queue .pop = some q) :
    ServerInv { s with
      queue := q
      thread := if (ringBufferPop s.queue.cmdRing).1 = 0 then .test
        else .exec (ringBufferPop s.queue.cmdRing).1 } := by
  have hnot := hi.running (by simp [ht])
  have htaken := hi.taken
  have hfree := hi.unfreed
  rw [ht] at htaken hfree
  have hq := inv_step (a := .pop) hi.queue trivial h
  have hused := hi.queue.behind.used_ge
  have hcnt := hi.queue.ready
  have hsem := hi.sem
  simp only [step, Option.ite_none_right_eq_some, Option.some.injEq] at h
  obtain ⟨-, rfl⟩ := h
  have hne : (ringBufferPop s.queue.cmdRing).1 ≠ 0 :=
    hq.notNull _ (hq.split ▸ List.mem_append_left _ (by simp))
  rw [if_neg hne]
  refine ⟨hq, ?_, fun _ => rfl, ?_, hfree, hi.flag, (fun _ hx => by cases hx),
    fun hj => absurd hj (by simp [hnot]), hi.ring, hi.gone, hi.freeing⟩
  · have hpop : (ringBufferPop s.queue.cmdRing).2.used = s.queue.cmdRing.used - 1 := rfl
    have hsame : (ringBufferPop s.queue.cmdRing).2.sem = s.queue.cmdRing.sem := rfl
    simp only [hp, Popper.commands] at hcnt
    simp only [Queue.open, hp, reduceCtorEq, if_false, if_true] at hsem ⊢
    omega
  · dsimp only
    rw [htaken]
    simp [ThreadPc.taken]

theorem ServerInv.move (hi : ServerInv s) (hfit : fits s a) (h : ServerMove s a s') : ServerInv s' := by
  have hsem := hi.sem
  cases h with
  | quit hm => exact hi.before (by rw [hm]; rfl) rfl
  | request hm h =>
    have hserve : s.main.stopping = false := by rw [hm]; rfl
    exact hi.push hfit h (Or.inl ⟨hserve, hserve⟩)
  | lastRequest hm h => exact hi.push hfit h (Or.inl ⟨by rw [hm]; rfl, rfl⟩)
  | stopCommand hm h => exact hi.push hfit h (Or.inr ⟨hm, rfl⟩)
  | postRing hp h =>
    have hnot := hi.posting (by simp [hp])
    have hq := h
    simp only [step, Option.ite_none_right_eq_some, Option.some.injEq] at h
    obtain ⟨-, rfl⟩ := h
    refine hi.onQueue (by simp) hq ?_ rfl hi.popper (fun hj => absurd hj (by simp [hnot]))
      fun _ _ _ => by simp [Pusher.commands]
    simp only [Queue.open, hp, reduceCtorEq, if_false, if_true] at hsem ⊢
    omega
  | postReady hp h =>
    have hnot := hi.posting (by simp [hp])
    have hq := h
    simp only [step, Option.ite_none_right_eq_some, Option.some.injEq] at h
    obtain ⟨-, rfl⟩ := h
    refine hi.onQueue (by simp) hq ?_ rfl hi.popper (fun hj => absurd hj (by simp [hnot]))
      fun _ _ _ => Nat.add_pos_left (Nat.succ_pos _) _
    simp only [Queue.open, hp, reduceCtorEq, if_false] at hsem ⊢
    exact hsem
  | leave hm hp => exact hi.before (by rw [hm]; rfl) rfl
  | setFlag hm =>
    refine ⟨hi.queue, hi.sem, hi.popper, hi.taken, hi.unfreed, fun _ => rfl,
      (fun hx => by cases hx), (fun hx => by cases hx), fun hr => ?_, (fun hx => by cases hx),
      (fun hx => by cases hx)⟩
    have hj := hi.ring hr
    rw [hm] at hj
    cases hj
  | join hm hp ht =>
    refine ⟨hi.queue, hi.sem, hi.popper, hi.taken, hi.unfreed, fun _ => hi.flag (by rw [hm]; rfl),
      (fun hx => by cases hx), fun _ => ⟨ht, hp⟩, fun _ => rfl, (fun hx => by cases hx),
      (fun hx => by cases hx)⟩
  | destroyRing hm =>
    have hj := hi.joined (by rw [hm]; rfl)
    exact ⟨hi.queue, hi.sem, hi.popper, hi.taken, hi.unfreed, fun _ => hi.flag (by rw [hm]; rfl),
      (fun hx => by cases hx), fun _ => hj, fun _ => rfl, (fun hx => by cases hx), fun _ => rfl⟩
  | freeServer hm =>
    have hj := hi.joined (by rw [hm]; rfl)
    exact ⟨hi.queue, hi.sem, hi.popper, hi.taken, hi.unfreed, fun _ => hi.flag (by rw [hm]; rfl),
      (fun hx => by cases hx), fun _ => hj, fun _ => rfl, fun _ => hi.freeing hm, (fun hx => by cases hx)⟩
  | test ht =>
    have hnot := hi.running (by simp [ht])
    have hidle := hi.popper (by simp [ht])
    have htaken := hi.taken
    have hfree := hi.unfreed
    rw [ht] at htaken hfree
    refine ⟨hi.queue, hi.sem, fun _ => hidle, ?_, ?_, hi.flag, fun hm hpop _ => ?_,
      fun hj => absurd hj (by simp [hnot]), hi.ring, hi.gone, hi.freeing⟩
    · rw [htaken]
      split <;> rfl
    · dsimp only
      rw [hfree]
      split <;> rfl
    · have hflag := hi.flag (by dsimp only at hm; rw [hm]; rfl)
      simp [hflag] at hpop
  | waitReady ht hp h =>
    have hnot := hi.running (by simp [ht])
    have hq := h
    simp only [step, Option.ite_none_right_eq_some, Option.some.injEq] at h
    obtain ⟨-, rfl⟩ := h
    refine hi.onQueue (by simp) hq ?_ rfl (fun hne => absurd ht hne)
      (fun hj => absurd hj (by simp [hnot])) fun _ _ hidle => by simp at hidle
    simp only [Queue.open, hp, reduceCtorEq, if_false] at hsem ⊢
    exact hsem
  | waitRing ht hp h =>
    have hnot := hi.running (by simp [ht])
    have hq := h
    simp only [step, Option.ite_none_right_eq_some, Option.some.injEq] at h
    obtain ⟨⟨-, hpos⟩, rfl⟩ := h
    refine hi.onQueue (by simp) hq ?_ rfl (fun hne => absurd ht hne)
      (fun hj => absurd hj (by simp [hnot])) fun _ _ hidle => by simp at hidle
    simp only [Queue.open, hp, reduceCtorEq, if_false, if_true] at hsem ⊢
    omega
  | pop ht hp h pc hpc =>
    rw [hpc]
    exact hi.pop ht hp h
  | free ht =>
    have hnot := hi.running (by simp [ht])
    have htaken := hi.taken
    have hfree := hi.unfreed
    rw [ht] at htaken hfree
    exact ⟨hi.queue, hi.sem, fun _ => hi.popper (by simp [ht]), htaken,
      by rw [hfree]; simp [ThreadPc.unfreed], hi.flag, (fun _ hx => by cases hx),
      fun hj => absurd hj (by simp [hnot]), hi.ring, hi.gone, hi.freeing⟩
  | exec ht stop =>
    have hnot := hi.running (by simp [ht])
    have htaken := hi.taken
    have hfree := hi.unfreed
    rw [ht] at htaken hfree
    exact ⟨hi.queue, hi.sem, fun _ => hi.popper (by simp [ht]), by rw [htaken]; simp [ThreadPc.taken],
      by rw [hfree]; simp [ThreadPc.unfreed], fun hstop => by simp [hi.flag hstop],
      (fun _ hx => by cases hx), fun hj => absurd hj (by simp [hnot]), hi.ring, hi.gone, hi.freeing⟩

theorem serverInv (h : server.Reach fits s) : ServerInv s := by
  refine h.invariant ServerInv ?_ fun s a s' _ hi hok hs => hi.move hok (serverStep_move hs)
  rintro s rfl
  exact serverInv_init

end Invariants

/-! ### The end -/

/-- The statements that `command_thread` still does once the exit flag is set. -/
def ThreadPc.left (popper : Popper) : ThreadPc → ℕ
  | .returned => 0
  | .test => 1
  | .free _ => 2
  | .exec _ => 3
  | .pop => match popper with
    | .section => 4
    | .ringWait => 5
    | .idle => 6

/-- The statements that `command_server_destroy` still does. -/
def MainPc.left : MainPc → ℕ
  | .push => 6
  | .join => 3
  | .destroyRing => 2
  | .freeServer => 1
  | _ => 0

/-- The posts behind a store that are still to come. -/
def Pusher.left : Pusher → ℕ
  | .ringPost => 2
  | .readyPost => 1
  | .idle => 0

def Server.left (s : Server) : ℕ :=
  s.thread.left s.queue.popper + s.main.left + s.queue.pusher.left

/-- The executions that are still to come once the exit flag is set. -/
def ThreadPc.due : ThreadPc → ℕ
  | .pop | .exec _ => 1
  | _ => 0

/-- `command_server_destroy` has set the exit flag. -/
def Stopping (s : Server) : Prop := s.main.stopping = true ∧ s.exitFlag = true

section Ending

variable {s s' t : Server} {a : ServerLabel}

theorem ThreadPc.left_le (popper : Popper) (pc : ThreadPc) : pc.left popper ≤ 6 := by
  cases pc
  case pop => cases popper <;> simp [ThreadPc.left]
  all_goals simp [ThreadPc.left]

theorem Server.left_le (s : Server) : s.left ≤ 14 := by
  have hthread := s.thread.left_le s.queue.popper
  have hmain : s.main.left ≤ 6 := by cases s.main <;> simp [MainPc.left]
  have hpush : s.queue.pusher.left ≤ 2 := by cases s.queue.pusher <;> simp [Pusher.left]
  unfold Server.left
  omega

theorem stopping_move (hst : Stopping s) (h : ServerMove s a s') : Stopping s' ∧
    1 + s'.left ≤ s.left ∧
      s'.executed.length + s'.thread.due ≤ s.executed.length + s.thread.due := by
  obtain ⟨hm, hf⟩ := hst
  cases h with
  | quit hs | request hs _ | lastRequest hs _ | leave hs _ | setFlag hs => simp [hs, MainPc.stopping] at hm
  | stopCommand hs h =>
    simp only [step, Option.ite_none_right_eq_some, Option.some.injEq] at h
    obtain ⟨⟨hidle, -⟩, rfl⟩ := h
    refine ⟨⟨rfl, hf⟩, ?_, le_refl _⟩
    simp only [Server.left, hs, MainPc.left, hidle, Pusher.left]
    omega
  | postRing hp h | postReady hp h =>
    simp only [step, Option.ite_none_right_eq_some, Option.some.injEq] at h
    obtain ⟨-, rfl⟩ := h
    refine ⟨⟨hm, hf⟩, ?_, le_refl _⟩
    simp only [Server.left, hp, Pusher.left]
    omega
  | join hs hp ht =>
    refine ⟨⟨rfl, hf⟩, ?_, le_refl _⟩
    simp only [Server.left, hs, MainPc.left]
    omega
  | destroyRing hs =>
    refine ⟨⟨rfl, hf⟩, ?_, le_refl _⟩
    simp only [Server.left, hs, MainPc.left]
    omega
  | freeServer hs =>
    refine ⟨⟨rfl, hf⟩, ?_, le_refl _⟩
    simp only [Server.left, hs, MainPc.left]
    omega
  | test ht =>
    refine ⟨⟨hm, hf⟩, ?_, ?_⟩
    · simp only [Server.left, ht, hf, if_true, ThreadPc.left]
      omega
    · simp [ht, hf, ThreadPc.due]
  | waitReady ht hp h =>
    simp only [step, Option.ite_none_right_eq_some, Option.some.injEq] at h
    obtain ⟨-, rfl⟩ := h
    refine ⟨⟨hm, hf⟩, ?_, le_refl _⟩
    simp only [Server.left, ht, hp, ThreadPc.left]
    omega
  | waitRing ht hp h =>
    simp only [step, Option.ite_none_right_eq_some, Option.some.injEq] at h
    obtain ⟨-, rfl⟩ := h
    refine ⟨⟨hm, hf⟩, ?_, le_refl _⟩
    simp only [Server.left, ht, hp, ThreadPc.left]
    omega
  | pop ht hp h pc hpc =>
    simp only [step, Option.ite_none_right_eq_some, Option.some.injEq] at h
    obtain ⟨-, rfl⟩ := h
    refine ⟨⟨hm, hf⟩, ?_, ?_⟩
    · have hpc' : pc.left .idle ≤ 3 := by
        rw [hpc]
        split <;> simp [ThreadPc.left]
      have hbefore : s.thread.left s.queue.popper = 4 := by simp [ht, hp, ThreadPc.left]
      simp only [Server.left, hbefore]
      omega
    · subst hpc
      simp only [ht, ThreadPc.due]
      split <;> simp
  | free ht =>
    refine ⟨⟨hm, hf⟩, ?_, ?_⟩
    · simp only [Server.left, ht, ThreadPc.left]
      omega
    · simp [ht, ThreadPc.due]
  | exec ht stop =>
    refine ⟨⟨hm, by simp [hf]⟩, ?_, ?_⟩
    · simp only [Server.left, ht, ThreadPc.left]
      omega
    · simp [ht, ThreadPc.due]

/-- A state without an enabled step is the end. -/
theorem ServerInv.ended (hi : ServerInv s) (hst : Stopping s) (hstuck : ∀ a, serverStep s a = none) :
    s.main = .returned ∧ s.thread = .returned ∧ s.ring = false := by
  have hmain : commandServerDestroy s = none := hstuck .main
  have hthread : commandThread s = none := hstuck .thread
  have hpost : s.queue.pusher = .idle := by
    have h := hstuck .post
    cases hp : s.queue.pusher <;> simp [serverStep, hp, step] at h ⊢
  have hret : s.thread = .returned := by
    cases ht : s.thread with
    | test | free => simp [commandThread, ht] at hthread
    | exec cmd =>
      have h := hstuck (.exec false)
      simp [serverStep, ht] at h
    | pop =>
      exfalso
      cases hp : s.queue.popper with
      | idle =>
        simp only [commandThread, ht, hp, step, true_and, Option.map_eq_none_iff, ite_eq_right_iff,
          reduceCtorEq, imp_false, Nat.not_lt, Nat.le_zero] at hthread
        cases hm : s.main with
        | serve | quit | leave | setFlag => simp [Stopping, hm, MainPc.stopping] at hst
        | push =>
          have h := hstuck (.push 1)
          simp [serverStep, hm, step, hpost] at h
        | join =>
          have hpos := hi.woken hm ht hp
          simp [hthread, hpost, Pusher.commands] at hpos
        | destroyRing | freeServer | returned =>
          have hj := (hi.joined (by rw [hm]; rfl)).1
          rw [ht] at hj
          cases hj
      | ringWait =>
        have hused := hi.queue.behind.used_ge
        have hsem := hi.sem
        have hpos : 0 < s.queue.cmdRing.sem := by
          have hcnt : commandQueueSize = 20 := rfl
          have hopen : s.queue.open ≤ 1 := by simp [Queue.open, hpost, hp]
          omega
        simp [commandThread, ht, hp, step, hpos] at hthread
      | «section» => simp [commandThread, ht, hp, step] at hthread
    | returned => rfl
  refine ⟨?_, hret, ?_⟩
  · cases hm : s.main with
    | push =>
      have h := hstuck (.push 1)
      simp [serverStep, hm, step, hpost] at h
    | returned => rfl
    | serve | quit => simp [Stopping, hm, MainPc.stopping] at hst
    | _ => simp [commandServerDestroy, hm, hpost, hret] at hmain
  · cases hm : s.main with
    | push =>
      have h := hstuck (.push 1)
      simp [serverStep, hm, step, hpost] at h
    | returned => exact hi.gone hm
    | serve | quit => simp [Stopping, hm, MainPc.stopping] at hst
    | _ => simp [commandServerDestroy, hm, hpost, hret] at hmain

/-- The commands are executed in the order of their pushes and freed in this order, each once, and the ring
is there as long as somebody uses it. Once `command_server_destroy` has set the exit flag, at most one
command more is executed, no run has more than 14 steps, and the run ends with both threads returned and
the ring destroyed. -/
structure Served (s : Server) : Prop where
  in_order : s.freed <+: s.executed ∧ s.executed <+: s.queue.pushed
  ring : s.ring = false → s.thread = .returned ∧ s.queue.pusher = .idle
  one_more : s.main.stopping = true → ∀ as t, server.exec s as = some t →
    as.length ≤ 14 ∧ t.executed.length ≤ s.executed.length + 1
  ends : s.main.stopping = true → ∀ t, server.Steps fits s t → (∀ a, serverStep t a = none) →
    t.main = .returned ∧ t.thread = .returned ∧ t.ring = false

theorem stopping_exec (hst : Stopping s) {as : List ServerLabel} (h : server.exec s as = some t) :
    as.length + t.left ≤ s.left ∧
      t.executed.length + t.thread.due ≤ s.executed.length + s.thread.due := by
  induction as generalizing s with
  | nil =>
    obtain rfl := Option.some_inj.mp h
    simp
  | cons a as ih =>
    obtain ⟨u, hu, ht⟩ := Option.bind_eq_some_iff.mp h
    obtain ⟨hst', hleft, hdue⟩ := stopping_move hst (serverStep_move hu)
    obtain ⟨hlen, hexec⟩ := ih hst' ht
    refine ⟨?_, hexec.trans hdue⟩
    rw [List.length_cons]
    omega

theorem command_server_served (h : server.Reach fits s) : Served s := by
  have hi := serverInv h
  have hst : s.main.stopping = true → Stopping s := fun hm => ⟨hm, hi.flag hm⟩
  refine ⟨⟨⟨_, hi.unfreed.symm⟩, ?_⟩, fun hr => hi.joined (hi.ring hr), fun hm as t he => ?_,
    fun hm t hs hstuck => ?_⟩
  · rw [hi.queue.split, hi.taken, List.append_assoc]
    exact List.prefix_append _ _
  · obtain ⟨hlen, hexec⟩ := stopping_exec (hst hm) he
    have hleft := s.left_le
    have hdue : s.thread.due ≤ 1 := by cases s.thread <;> simp [ThreadPc.due]
    omega
  · have hst' : Stopping t := hs.invariant Stopping
      (fun _ _ _ hi _ hstep => (stopping_move hi (serverStep_move hstep)).1) (hst hm)
    exact (serverInv (h.steps hs)).ended hst' hstuck

/-- A command is waiting in the ring when the server loop ends. -/
theorem command_server_served_waiting : ∃ s, server.Reach fits s ∧ s.main = .push ∧
    s.queue.pushed = [64] ∧ s.thread = .pop ∧ Served s := by
  have hreach := Lts.reach_of_guard (Lts.reach_exec (server.guard fits) Lts.anyStep
    [.thread, .quit, .push 64, .post, .post, .main, .main] rfl (by decide +kernel) fun _ _ _ => trivial)
  refine ⟨_, hreach, ?_, ?_, ?_, command_server_served hreach⟩
  all_goals decide +kernel

end Ending

end TmkDcl.Tcp.CommandServer
