import TmkDcl.Pipeline.Control

/-!
# What the log records

`State.events` gives the entries that the next statement of a thread appends;
the projections read the traffic of one module back out of the log.
-/

namespace TmkDcl.Pipeline

/-! ### Projections -/

namespace Event

@[simp] def popped (i : ℕ) : Event → Option (ℕ × Chunk)
  | .pop k offs data => if k = i then some (offs, data) else none
  | _ => none

@[simp] def mailed (j : ℕ) : Event → Option Msg
  | .mail k m => if k = j then some m else none
  | _ => none

@[simp] def taken (j : ℕ) : Event → Option Msg
  | .take k m => if k = j then some m else none
  | _ => none

@[simp] def asked (i : ℕ) : Event → Option (Cmd × ℕ)
  | .ask k cmd offs => if k = i then some (cmd, offs) else none
  | _ => none

@[simp] def answered (i : ℕ) : Event → Option ((Cmd × ℕ) × ℤ)
  | .answer k cmd offs result => if k = i then some ((cmd, offs), result) else none
  | _ => none

@[simp] def replied (i : ℕ) : Event → Option ℤ
  | .reply k result => if k = i then some result else none
  | _ => none

@[simp] def finished (i : ℕ) : Event → Option ((ℕ × Chunk) × ℤ)
  | .finish k offs data result _ => if k = i then some ((offs, data), result) else none
  | _ => none

end Event

namespace State

/-- What has been posted to the mailbox of module `j`. -/
def mailed (s : State) (j : ℕ) : List Msg := s.log.filterMap (Event.mailed j)

/-- What module `j` has read from its mailbox. -/
def taken (s : State) (j : ℕ) : List Msg := s.log.filterMap (Event.taken j)

/-- What module `i` has given its child. -/
def asked (s : State) (i : ℕ) : List (Cmd × ℕ) := s.log.filterMap (Event.asked i)

/-- What the child of module `i` has answered. -/
def answered (s : State) (i : ℕ) : List ((Cmd × ℕ) × ℤ) := s.log.filterMap (Event.answered i)

/-- What module `i` has got back from its child. -/
def replied (s : State) (i : ℕ) : List ℤ := s.log.filterMap (Event.replied i)

/-- The jobs module `i` has completed, with the results. -/
def finished (s : State) (i : ℕ) : List ((ℕ × Chunk) × ℤ) := s.log.filterMap (Event.finished i)

/-- What the next statement of module `k` appends to the log. -/
def events (cfg : Config) (s : State) (k : ℕ) : List Event :=
  let t := s.thr k
  let p := s.proc k
  match t.pc with
  | .popTake =>
    let offs := (ringBufferPop s.ring).1
    [.pop k offs (s.chunk offs)]
  | .readOffset =>
    let offs := (s.box k).dataoffset
    [.take k (match t.cmd with
      | .stop => .stop
      | .job => .job offs (s.chunk offs))]
  | .postJob | .stopPostJob => [.ask k p.cmd p.cmdOffs]
  | .waitResult =>
    .reply k p.cmdResult ::
      if cfg.method k = some .sourceThread then [finishEvent s k] else []
  | .stopWaitResult => [.reply k p.cmdResult]
  | .readResult => [finishEvent s k]
  | .postNext | .stopPostNext =>
    match cfg.next k with
    | some j => [.mail j ((s.box j).letter s.chunk)]
    | none => []
  | _ => []

end State

section Moves

variable {cfg : Config} {s s' : State} {k : ℕ} {a : Label}

theorem ThreadMove.log (h : ThreadMove cfg s k s') : s'.log = s.log ++ s.events cfg k := by
  cases h
  case readOffset hpc hm m hmsg =>
    cases hcmd : (s.thr k).cmd <;> simp [State.events, State.emit, hpc, hmsg, hcmd]
  all_goals simp [State.events, *]

theorem ChildMove.log (h : ChildMove cfg s k a s') : s'.log = s.log ∨
    ∃ cmd offs result, s'.log = s.log ++ [.answer k cmd offs result] := by
  cases h
  case readStop | noAction | ret => exact Or.inr ⟨_, _, _, rfl⟩
  all_goals exact Or.inl rfl

theorem ChildMove.mailed (h : ChildMove cfg s k a s') : s'.mailed = s.mailed := by
  funext j
  rcases h.log with hl | ⟨cmd, offs, result, hl⟩ <;> simp [State.mailed, hl]

theorem ChildMove.taken (h : ChildMove cfg s k a s') : s'.taken = s.taken := by
  funext j
  rcases h.log with hl | ⟨cmd, offs, result, hl⟩ <;> simp [State.taken, hl]

theorem ChildMove.asked (h : ChildMove cfg s k a s') : s'.asked = s.asked := by
  funext j
  rcases h.log with hl | ⟨cmd, offs, result, hl⟩ <;> simp [State.asked, hl]

theorem ChildMove.finished (h : ChildMove cfg s k a s') : s'.finished = s.finished := by
  funext j
  rcases h.log with hl | ⟨cmd, offs, result, hl⟩ <;> simp [State.finished, hl]

theorem MainMove.log (h : MainMove cfg s s') : s'.log = s.log := by cases h <;> rfl

theorem DestroyMove.log (h : DestroyMove s s') : s'.log = s.log := by cases h <;> rfl

/-! ### Who records what -/

section Threads

variable {i j : ℕ}

/-- What the next statement of a thread records. -/
inductive Records (cfg : Config) (s : State) (k : ℕ) : List Event → Prop
  | nothing (h : ∀ pc ∈ [Pc.popTake, .readOffset, .postJob, .stopPostJob, .waitResult,
      .stopWaitResult, .readResult, .postNext, .stopPostNext], (s.thr k).pc ≠ pc) : Records cfg s k []
  | pop (offs : ℕ) (data : Chunk) (h : (s.thr k).pc = .popTake) : Records cfg s k [.pop k offs data]
  | take (h : (s.thr k).pc = .readOffset) : Records cfg s k [.take k (match (s.thr k).cmd with
      | .stop => .stop
      | .job => .job (s.box k).dataoffset (s.chunk (s.box k).dataoffset))]
  | ask (h : (s.thr k).pc = .postJob ∨ (s.thr k).pc = .stopPostJob) :
      Records cfg s k [.ask k (s.proc k).cmd (s.proc k).cmdOffs]
  | replySource (h : (s.thr k).pc = .waitResult) (hm : cfg.method k = some .sourceThread) :
      Records cfg s k [.reply k (s.proc k).cmdResult, finishEvent s k]
  | reply (h : (s.thr k).pc = .waitResult ∧ cfg.method k ≠ some .sourceThread ∨
      (s.thr k).pc = .stopWaitResult) : Records cfg s k [.reply k (s.proc k).cmdResult]
  | finish (h : (s.thr k).pc = .readResult) : Records cfg s k [finishEvent s k]
  | mail (j : ℕ) (h : (s.thr k).pc = .postNext ∨ (s.thr k).pc = .stopPostNext)
      (hn : cfg.next k = some j) : Records cfg s k [.mail j ((s.box j).letter s.chunk)]
  | last (h : (s.thr k).pc = .postNext ∨ (s.thr k).pc = .stopPostNext) (hn : cfg.next k = none) :
      Records cfg s k []

theorem events_records (cfg : Config) (s : State) (k : ℕ) : Records cfg s k (s.events cfg k) := by
  rw [State.events]
  cases hpc : (s.thr k).pc
  case popTake => exact .pop _ _ hpc
  case readOffset => exact .take hpc
  case postJob => exact .ask (.inl hpc)
  case stopPostJob => exact .ask (.inr hpc)
  case waitResult =>
    by_cases hm : cfg.method k = some .sourceThread
    · simpa [hm] using .replySource hpc hm
    · simpa [hm] using .reply (.inl ⟨hpc, hm⟩)
  case stopWaitResult => exact .reply (.inr hpc)
  case readResult => exact .finish hpc
  case postNext =>
    cases hn : cfg.next k with
    | none => simpa [hn] using .last (.inl hpc) hn
    | some j => simpa [hn] using .mail j (.inl hpc) hn
  case stopPostNext =>
    cases hn : cfg.next k with
    | none => simpa [hn] using .last (.inr hpc) hn
    | some j => simpa [hn] using .mail j (.inr hpc) hn
  all_goals
    refine .nothing ?_
    rw [hpc]
    decide

theorem events_mailed (cfg : Config) (s : State) (k j : ℕ) : (s.events cfg k).filterMap (Event.mailed j) =
    if cfg.next k = some j ∧ ((s.thr k).pc = .postNext ∨ (s.thr k).pc = .stopPostNext) then
      [(s.box j).letter s.chunk] else [] := by
  have hrec := events_records cfg s k
  generalize s.events cfg k = l at hrec ⊢
  cases hrec with
  | nothing h => simp_all
  | mail i h hn =>
    by_cases hij : i = j
    · simp [h, hn, hij]
    · simp [hn, hij]
  | last h hn => simp [hn]
  | ask h | reply h => rcases h with h | h <;> simp [h]
  | pop _ _ h | take h | replySource h | finish h => simp [h, finishEvent]

theorem events_taken (cfg : Config) (s : State) (k j : ℕ) : (s.events cfg k).filterMap (Event.taken j) =
    if k = j ∧ (s.thr k).pc = .readOffset then
      [match (s.thr k).cmd with
        | .stop => .stop
        | .job => .job (s.box k).dataoffset (s.chunk (s.box k).dataoffset)] else [] := by
  have hrec := events_records cfg s k
  generalize s.events cfg k = l at hrec ⊢
  cases hrec with
  | nothing h => simp_all
  | take h =>
    obtain rfl | hk := eq_or_ne k j
    · simp [h]
    · simp [h, hk]
  | ask h | reply h | mail _ h | last h => rcases h with h | h <;> simp [h]
  | pop _ _ h | replySource h | finish h => simp [h, finishEvent]

theorem events_asked (cfg : Config) (s : State) (k i : ℕ) : (s.events cfg k).filterMap (Event.asked i) =
    if k = i ∧ ((s.thr k).pc = .postJob ∨ (s.thr k).pc = .stopPostJob) then
      [((s.proc k).cmd, (s.proc k).cmdOffs)] else [] := by
  have hrec := events_records cfg s k
  generalize s.events cfg k = l at hrec ⊢
  cases hrec with
  | nothing h => simp_all
  | ask h =>
    obtain rfl | hk := eq_or_ne k i
    · simp [h]
    · simp [hk]
  | reply h | mail _ h | last h => rcases h with h | h <;> simp [h]
  | pop _ _ h | take h | replySource h | finish h => simp [h, finishEvent]

theorem events_replied (cfg : Config) (s : State) (k i : ℕ) : (s.events cfg k).filterMap (Event.replied i) =
    if k = i ∧ ((s.thr k).pc = .waitResult ∨ (s.thr k).pc = .stopWaitResult) then
      [(s.proc k).cmdResult] else [] := by
  have hrec := events_records cfg s k
  generalize s.events cfg k = l at hrec ⊢
  cases hrec with
  | nothing h => simp_all
  | replySource h =>
    obtain rfl | hk := eq_or_ne k i
    · simp [h, finishEvent, List.filterMap_cons]
    · simp [hk, finishEvent]
  | reply h =>
    obtain rfl | hk := eq_or_ne k i
    · rcases h with h | h <;> simp [h]
    · simp [hk]
  | ask h | mail _ h | last h => rcases h with h | h <;> simp [h]
  | pop _ _ h | take h | finish h => simp [h, finishEvent]

/-- The thread is about to be over with a job. -/
def Finishing (cfg : Config) (s : State) (k : ℕ) : Prop :=
  (s.thr k).pc = .waitResult ∧ cfg.method k = some .sourceThread ∨ (s.thr k).pc = .readResult

instance : Decidable (Finishing cfg s k) :=
  inferInstanceAs (Decidable ((s.thr k).pc = .waitResult ∧ cfg.method k = some .sourceThread ∨
    (s.thr k).pc = .readResult))

theorem events_finished (cfg : Config) (s : State) (k i : ℕ) : (s.events cfg k).filterMap (Event.finished i) =
    if k = i ∧ Finishing cfg s k then
      [(((s.thr k).dataoffset, s.chunk (s.thr k).dataoffset), (s.proc k).cmdResult)] else [] := by
  have hf : Finishing cfg s k ↔ (s.thr k).pc = .waitResult ∧
    cfg.method k = some .sourceThread ∨ (s.thr k).pc = .readResult := Iff.rfl
  rw [if_congr (and_congr Iff.rfl hf) rfl rfl]
  have hrec := events_records cfg s k
  generalize s.events cfg k = l at hrec ⊢
  cases hrec with
  | nothing h => simp_all
  | replySource h hm =>
    obtain rfl | hk := eq_or_ne k i
    · simp [h, hm, finishEvent, List.filterMap_cons]
    · simp [hk, finishEvent]
  | finish h =>
    obtain rfl | hk := eq_or_ne k i
    · simp [h, finishEvent]
    · simp [hk, finishEvent]
  | ask h | reply h | mail _ h | last h => rcases h with h | h <;> simp [h]
  | pop _ _ h | take h => simp [h]

end Threads

end Moves

end TmkDcl.Pipeline
