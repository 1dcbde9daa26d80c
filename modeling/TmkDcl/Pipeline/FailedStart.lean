import TmkDcl.Pipeline.Destroy
import TmkDcl.Pipeline.Shutdown

/-!
# After a failed start

A failed module sets the exit flag, but only the head of the chain tests the flag;
the others wait for the stop command of their predecessor. It gets to all the
modules that have been started when there is none, or when it is the head alone
and the failed module comes right behind it: the head is not live then, so it has
posted no job, and the failed module has an empty mailbox for the stop command.
-/

namespace TmkDcl.Pipeline

/-- What a failed start leaves behind comes to an end. -/
structure NothingHangs (cfg : Config) (s : State) : Prop where
  moves : (∃ k, (s.thr k).pc ≠ .uninit ∧ ¬ (s.thr k).pc.returned) → (sys cfg).Enabled moduleStep s
  joins : ∃ t, (sys cfg).Steps noRaise s t ∧ t.main = .returned

/-- The start loop has broken off at a module that has returned. -/
structure Broken (cfg : Config) (s : State) : Prop where
  reach : (sys cfg).Reach noRaise s
  failed : FailedStart cfg s
  loopEnded : s.main.starting = none

section Over

variable {cfg : Config} {s s' t : State} {f i k : ℕ} {a : Label} {ok : State → Label → Prop}

theorem Broken.fails (h : Broken cfg s) :
    ∃ f, cfg.Fails f ∧ s.realStarted = f ∧ (s.thr f).pc.returned := by
  obtain ⟨i, hu, hs, hn⟩ := h.failed
  have hst := startInv h.reach
  obtain ⟨hf, hreal⟩ := hst.fails hu hs hn
  rcases hst.over_cases h.loopEnded with he | ⟨-, hret⟩
  · have hlt := hf.lt
    simp only [State.startView] at he hreal
    omega
  · exact ⟨i, hf, hreal, by rwa [hreal] at hret⟩

theorem started_step (hs : (sys cfg).step s a = some s') (h : s.main.starting = none) :
    s'.main.starting = none := by
  cases a with
  | thread k =>
    obtain ⟨hmain, -, -⟩ := (threadStep_start hs).frame
    simp only [State.startView] at hmain
    rwa [hmain]
  | child k =>
    have hv := congrArg StartView.main (pipelineProcess_move hs).startView
    simp only [State.startView] at hv
    rwa [hv]
  | write k d =>
    have hv := congrArg StartView.main (actionWrite_move hs).startView
    simp only [State.startView] at hv
    rwa [hv]
  | ret k status =>
    have hv := congrArg StartView.main (actionReturn_move hs).startView
    simp only [State.startView] at hv
    rwa [hv]
  | main =>
    cases pipelineThread_move hs with
    | create hm _ | allStarted hm _ | waitStart hm _ | failed hm _ | started hm _
      | joinFailed hm _ => simp [hm, MainPc.starting] at h
    | checkLive hm =>
      dsimp only
      split <;> rfl
    | decide | setLive | live | join | allJoined | finish => rfl
  | destroy => cases pipelineDestroy_move hs <;> exact h
  | raise =>
    cases hs
    exact h

theorem Broken.steps (h : Broken cfg s) (ht : (sys cfg).Steps noRaise s t) : Broken cfg t := by
  have hreach := h.reach.steps ht
  have hover : t.main.starting = none :=
    ht.invariant (fun u => u.main.starting = none) (fun _ _ _ hu _ hs => started_step hs hu) h.loopEnded
  obtain ⟨f, hf, -, -⟩ := h.fails
  have hst := startInv hreach
  refine ⟨hreach, ?_, hover⟩
  rcases hst.over_cases hover with he | ⟨hf', hret⟩
  · exact absurd hf.none (hst.started f (he ▸ hf.lt))
  · refine ⟨_, ?_, ?_, hf'.none⟩ <;> rcases hret with hr | hr <;>
      simp only [State.startView] at hr ⊢ <;> simp [hr]

/-- How far `pipeline_thread` is from its return, for `n` modules. -/
def MainPc.joinRank (n : ℕ) : MainPc → ℕ
  | .decide => 2 * n + 5
  | .checkLive => 2 * n + 4
  | .setLive k => n + 3 + (n - k)
  | .join k => 2 + (n - k)
  | .finish => 1
  | _ => 0

/-- `pipeline_thread` joins modules that have returned without waiting. -/
theorem Broken.main_next (h : Broken cfg s)
    (hr : ∀ i, i < cfg.modulesCnt → (s.thr i).pc = .uninit ∨ (s.thr i).pc.returned)
    (hm : s.main ≠ .returned) : ∃ t, (sys cfg).step s .main = some t ∧ t.thr = s.thr ∧
      t.main.joinRank cfg.modulesCnt < s.main.joinRank cfg.modulesCnt := by
  have hover := h.loopEnded
  cases hpc : s.main with
  | startNext k | waitStart k | checkIdx k | joinFailed k => simp [hpc, MainPc.starting] at hover
  | returned => exact absurd hpc hm
  | decide | finish => simp [sys, step, pipelineThread, hpc, MainPc.joinRank]
  | checkLive =>
    refine ⟨{ s with main := if s.plState = .init then .setLive 0 else .join 0 },
      by simp [sys, step, pipelineThread, hpc], rfl, ?_⟩
    dsimp only
    split <;> simp only [MainPc.joinRank] <;> omega
  | setLive k =>
    by_cases hk : k < cfg.modulesCnt
    · simp only [sys, step, pipelineThread, hpc, hk, if_true, Option.some.injEq, exists_eq_left',
        MainPc.joinRank, true_and]
      omega
    · simp only [sys, step, pipelineThread, hpc, hk, if_false, Option.some.injEq, exists_eq_left',
        MainPc.joinRank, true_and]
      omega
  | join k =>
    by_cases hk : k < cfg.modulesCnt
    · have hjoin : s.idx k = -1 ∨ (s.thr k).pc.returned := (hr k hk).imp_left fun hu => by
        have hidx := ((startInv h.reach).modules k).idx (by simp [hpc, MainPc.joined])
        simpa [State.startView, hu] using hidx
      simp only [sys, step, pipelineThread, hpc, hk, hjoin, if_true, Option.some.injEq,
        exists_eq_left', MainPc.joinRank, true_and]
      omega
    · simp only [sys, step, pipelineThread, hpc, hk, if_false, Option.some.injEq, exists_eq_left',
        MainPc.joinRank, true_and]
      omega

theorem Broken.joins (h : Broken cfg s)
    (hr : ∀ i, i < cfg.modulesCnt → (s.thr i).pc = .uninit ∨ (s.thr i).pc.returned) :
    ∃ t, (sys cfg).Steps noRaise s t ∧ t.main = .returned := by
  refine Lts.exists_steps_of_measure
    (fun u => Broken cfg u ∧ ∀ i, i < cfg.modulesCnt → (u.thr i).pc = .uninit ∨ (u.thr i).pc.returned)
    (fun u => u.main = .returned) (fun u => u.main.joinRank cfg.modulesCnt)
    (fun u hu hm => ?_) ⟨h, hr⟩
  obtain ⟨t, hs, hthr, hlt⟩ := hu.1.main_next hu.2 hm
  have hst : (sys cfg).Steps noRaise u t := .single ⟨.main, by simp [noRaise], hs⟩
  exact ⟨t, hst, ⟨hu.1.steps hst, hthr ▸ hu.2⟩, hlt⟩

end Over

/-! ### The head in front of a failed second module -/

/-- The statements of a source that is not switched to live. -/
def Pc.early : Pc → Bool
  | .uninit | .start | .startPost | .checkExit | .checkState | .stopWaitNext | .stopPutCmd
  | .stopPostNext | .stopSetCmd | .stopPostJob | .stopWaitResult | .setInit | .done => true
  | _ => false

/-- How far a source that has to stop is from its return. -/
def Pc.stopRank : Pc → ℕ
  | .checkState => 9
  | .checkExit => 8
  | .stopWaitNext => 7
  | .stopPutCmd => 6
  | .stopPostNext => 5
  | .stopSetCmd => 4
  | .stopPostJob => 3
  | .stopWaitResult => 2
  | .setInit => 1
  | _ => 0

/-- The second module fails, and it is the next one of the first, which is the head. -/
structure Config.FailsBehindHead (cfg : Config) (ch : Chain cfg) : Prop where
  fails : cfg.Fails 1
  external : cfg.external 1
  head : ch.head = 0
  next : cfg.next 0 = some 1

section Early

variable {cfg : Config} {ch : Chain cfg} {s s' t : State} {f i k : ℕ} {a : Label}
  {ok : State → Label → Prop}

/-- A failed module sets the flag before it posts. -/
def FlagSet (s : State) : Prop :=
  ∀ i, (s.thr i).pc = .failPost ∨ (s.thr i).pc = .failed → s.exitFlag = true

theorem ThreadMove.flag_mono (h : ThreadMove cfg s k s') (hf : s.exitFlag = true) :
    s'.exitFlag = true := by
  cases h
  case failFlag => rfl
  all_goals exact hf

theorem ThreadMove.flag (h : ThreadMove cfg s k s') (hf : FlagSet s) :
    (s'.thr k).pc = .failPost ∨ (s'.thr k).pc = .failed → s'.exitFlag = true := by
  cases h
  case failFlag => exact fun _ => rfl
  case failPost hpc => exact fun _ => hf k (Or.inl hpc)
  case startPost hpc pc hs | postNext hpc _ pc hs | stopWaitResult hpc pc hs _
    | postStop hpc _ _ pc hs | postTaken hpc _ _ pc hs =>
    simp only [State.goto, State.setBox, State.setProc, State.emit, Function.update_self, hs]
    split <;> simp
  case checkExit | checkState | readResult =>
    simp only [State.goto, State.emit, Function.update_self]
    split <;> simp
  all_goals simp

theorem flagSet (ch : Chain cfg) (h : (sys cfg).Reach ok s) : FlagSet s := by
  refine h.invariant FlagSet ?_ fun s a s' hr hf _ hs j hj => ?_
  · rintro s rfl i hi
    simp [initial] at hi
  · cases step_move ch hs with
    | @thread k _ _ h =>
      by_cases hk : j = k
      · subst hk
        exact h.flag hf hj
      · rw [h.thr_of_ne hk] at hj
        exact h.flag_mono (hf j hj)
    | child h =>
      rw [h.thr] at hj
      have hflag := hf j hj
      cases h <;> assumption
    | main h =>
      have hflag : s'.exitFlag = s.exitFlag := by cases h <;> rfl
      rw [hflag]
      rcases h.create_or with ⟨k, hm, hk, rfl⟩ | ⟨hthr, -⟩
      · by_cases hjk : j = k
        · subst hjk
          simp [createModule] at hj
        · exact hf j (by simpa [createModule, hjk] using hj)
      · exact hf j (hthr ▸ hj)
    | destroy h =>
      cases h
      case cleanup => rfl
      all_goals exact hf j hj
    | raise => rfl

/-- The head has posted no job, so the mailbox of the failed module is empty. -/
structure Early (s : State) : Prop where
  pc : (s.thr 0).pc.early = true
  new : (s.thr 0).pc.sendPhase = .idle → (s.box 1).newCmd = 0

theorem Config.FailsBehindHead.starting (hc : cfg.FailsBehindHead ch)
    (h : (sys cfg).Reach ok s) (hk : 0 < k) : (s.thr k).pc.starting = true := by
  rcases Nat.lt_or_ge 1 k with hlt | hle
  · rw [uninit_of_fails h hc.fails hlt]
    rfl
  · obtain rfl : k = 1 := by omega
    exact starting_of_fails h hc.fails hc.external

theorem Config.FailsBehindHead.not_live (hc : cfg.FailsBehindHead ch)
    (h : (sys cfg).Reach ok s) (i : ℕ) : s.st i ≠ .live := by
  intro hl
  obtain ⟨-, h2⟩ := (verdictInv h).live (Or.inr ⟨i, hl⟩)
  exact (startInv h).started 1 h2 hc.fails.none

theorem Config.FailsBehindHead.method (hc : cfg.FailsBehindHead ch) :
    cfg.method 0 = some .sourceThread := hc.head ▸ ch.method_head

/-- The modules that do not come to their loops leave the mailboxes alone. -/
theorem ThreadMove.box_of_starting (h : ThreadMove cfg s k s')
    (hs : (s.thr k).pc.starting = true) : s'.box = s.box := by
  cases h
  case startFork | startThread | startFail | failFlag | failPost => rfl
  all_goals simp_all [Pc.starting]

theorem ThreadMove.early (h : ThreadMove cfg s 0 s') (hlive : s.st 0 ≠ .live)
    (hid : cfg.processStart 0 ≠ none) (hm : cfg.method 0 = some .sourceThread)
    (hpc : (s.thr 0).pc.early = true) : (s'.thr 0).pc.early = true := by
  cases h
  case checkExit =>
    simp only [State.goto, Function.update_self]
    split <;> rfl
  case checkState => simp [hlive, Pc.early]
  all_goals simp_all [Pc.early]

theorem Early.head (he : Early s) (h : ThreadMove cfg s 0 s') (hn : cfg.next 0 = some 1)
    (hm : cfg.method 0 = some .sourceThread) (hidle : (s'.thr 0).pc.sendPhase = .idle) :
    (s'.box 1).newCmd = 0 := by
  have hpc := he.pc
  have hsend := h.send hn (by decide) (by simp [hm])
  have hnew := he.new
  generalize s'.box 1 = b' at hsend
  cases hsend with
  | post hp _ =>
    exfalso
    cases h' : (s.thr 0).pc <;> simp_all [Pc.early, Pc.sendPhase]
  | stay hp hp' => exact hnew (hp'.symm.trans hidle)
  | wait hp _ _ => exact hnew hp
  | stopPost _ hp' | cmd _ hp' | offset _ hp' _ | stopCmd _ hp' => simp [hp'] at hidle

theorem Config.FailsBehindHead.early (hc : cfg.FailsBehindHead ch) (h : (sys cfg).Reach ok s) :
    Early s := by
  refine h.invariant Early ?_ fun s a s' hr he _ hs => ?_
  · rintro s rfl
    exact ⟨rfl, fun _ => rfl⟩
  · cases step_move ch hs with
    | @thread k _ _ h =>
      by_cases hk : k = 0
      · subst hk
        exact ⟨h.early (hc.not_live hr 0) (hc.fails.before 0 (by decide)).1 hc.method he.pc,
          he.head h hc.next hc.method⟩
      · obtain ⟨hpc, hnew⟩ := he
        have hstarting := hc.starting hr (Nat.pos_of_ne_zero hk)
        rw [← h.thr_of_ne (Ne.symm hk)] at hpc hnew
        rw [← h.box_of_starting hstarting] at hnew
        exact ⟨hpc, hnew⟩
    | child h =>
      obtain ⟨hpc, hnew⟩ := he
      rw [← h.thr] at hpc hnew
      rw [← h.box] at hnew
      exact ⟨hpc, hnew⟩
    | main h =>
      rcases h.create_or with ⟨k, hm, hk, rfl⟩ | ⟨hthr, hbox⟩
      · obtain ⟨hpc, hnew⟩ := he
        have hfresh := (startInv hr).fresh hm
        refine ⟨?_, fun hidle => ?_⟩
        · by_cases hk0 : 0 = k
          · subst hk0
            simp [createModule, Pc.early]
          · simpa [createModule, hk0] using hpc
        · by_cases hk1 : 1 = k
          · subst hk1
            simp [createModule]
          · by_cases hk0 : 0 = k
            · subst hk0
              simpa [createModule] using hnew (by rw [hfresh]; rfl)
            · simp only [createModule, ne_eq, hk0, hk1, not_false_eq_true,
                Function.update_of_ne] at hidle ⊢
              exact hnew hidle
      · obtain ⟨hpc, hnew⟩ := he
        rw [← hthr] at hpc hnew
        rw [← hbox] at hnew
        exact ⟨hpc, hnew⟩
    | destroy h => cases h <;> exact ⟨he.pc, he.new⟩
    | raise => exact ⟨he.pc, he.new⟩

/-- The children get no job, so none of them stores -1. -/
theorem Config.FailsBehindHead.no_action (hc : cfg.FailsBehindHead ch) (h : (sys cfg).Reach ok s)
    (i : ℕ) : (s.child i).pc ≠ .action := by
  intro hact
  have hj := (reach_inv ch h).job i
  have htok := hj.tokens
  rw [hact] at htok
  rcases Nat.eq_zero_or_pos i with rfl | hi
  · have hpc := (hc.early h).pc
    have hcmd := hj.cmd_stop
    rw [hj.action hact] at hcmd
    cases hp : (s.thr 0).pc <;>
      simp_all [Pc.early, Pc.jobPhase, JobPhase.waiting, ChildPc.busy]
  · have hs := hc.starting h hi
    cases hp : (s.thr i).pc <;>
      simp_all [Pc.starting, Pc.jobPhase, JobPhase.waiting, ChildPc.busy]

theorem Config.FailsBehindHead.reach (hc : cfg.FailsBehindHead ch) (h : (sys cfg).Reach ok s) :
    (sys cfg).Reach noMinusOne s := by
  induction h with
  | init h => exact .init h
  | step hr _ hs ih =>
    refine .step ih (fun i ha => ?_) hs
    subst ha
    cases actionReturn_move hs with
    | ret _ _ hpc _ _ => exact hc.no_action hr i hpc

/-- The head goes on, or it waits for its child to take the stop command. -/
theorem Config.FailsBehindHead.head_steps (hc : cfg.FailsBehindHead ch) (h : Broken cfg s)
    (hr : ¬ (s.thr 0).pc.returned) : (∃ t, threadStep cfg s 0 = some t) ∨
      (s.thr 0).pc.waitsResult ∧ (s.proc 0).semResult = 0 := by
  have hi := reach_inv ch h.reach
  have he := hc.early h.reach
  have hpc := he.pc
  cases ht : threadStep cfg s 0 with
  | some t => exact Or.inl ⟨t, rfl⟩
  | none =>
    refine Or.inr ?_
    have h0 : 0 < cfg.modulesCnt := Nat.zero_lt_of_lt hc.fails.lt
    cases blocked_of_none ch hi h0 ht with
    | idle hu =>
      obtain ⟨f, hf, hreal, -⟩ := h.fails
      obtain rfl := hf.unique hc.fails
      exact absurd hu ((startInv h.reach).init_of_lt (by simp [hreal])).1
    | returned hret => exact absurd hret hr
    | slot hp _ _ | outside hp _ => simp [hp, Pc.early] at hpc
    | letter _ hm _ => exact absurd hc.method hm
    | result hp hres => exact ⟨hp, hres⟩
    | next j hp hn hres =>
      exfalso
      obtain rfl := Option.some_inj.mp (hn.symm.trans hc.next)
      have htok := (hi.link 0 1 hn).tokens
      have hphase : (s.thr 0).pc.sendPhase = .idle := by
        rcases hp with hp | hp <;> rw [hp] <;> rfl
      have hfailed : (s.thr 1).pc.recvPhase = .idle := by
        obtain ⟨f, hf, -, hret⟩ := h.fails
        obtain rfl := hf.unique hc.fails
        have hs := hc.starting h.reach (k := 1) (by decide)
        rcases hret with hp | hp <;> simp_all [Pc.starting, Pc.recvPhase]
      rw [hres, he.new hphase, hphase, hfailed] at htok
      simp [SendPhase.writing, RecvPhase.reading] at htok

theorem Config.FailsBehindHead.enabled (hc : cfg.FailsBehindHead ch) (h : Broken cfg s)
    (hr : ¬ (s.thr 0).pc.returned) : (sys cfg).Enabled moduleStep s := by
  rcases hc.head_steps h hr with ⟨t, ht⟩ | ⟨hw, hz⟩
  · exact ⟨t, .thread 0, ⟨0, Or.inl rfl⟩, ht⟩
  · exact (answerable ch (hc.reach h.reach) hw).enabled hz

/-- Every statement of the head brings it nearer to its return. -/
theorem ThreadMove.stopRank (h : ThreadMove cfg s 0 s') (hpc : (s.thr 0).pc.early = true)
    (hflag : s.exitFlag = true) (hlive : s.st 0 ≠ .live) (hrun : (s.thr 0).pc.running = true)
    (hm : cfg.method 0 = some .sourceThread) :
    (s'.thr 0).pc.stopRank < (s.thr 0).pc.stopRank := by
  cases h
  case checkExit hp _ => simp [hflag, hp, Pc.stopRank]
  case checkState hp _ => simp [hlive, hp, Pc.stopRank]
  all_goals simp_all [Pc.early, Pc.running, Pc.stopRank]

theorem Config.FailsBehindHead.head_next (hc : cfg.FailsBehindHead ch) (h : Broken cfg s)
    (hr : ¬ (s.thr 0).pc.returned) : ∃ t, (sys cfg).Steps noRaise s t ∧
      (t.thr 0).pc.stopRank < (s.thr 0).pc.stopRank := by
  have hstep : ∀ u, Broken cfg u → ∀ t, threadStep cfg u 0 = some t →
      (sys cfg).Steps noRaise u t ∧ (t.thr 0).pc.stopRank < (u.thr 0).pc.stopRank := fun u hu t ht => by
    obtain ⟨f, hf, hreal, hret⟩ := hu.fails
    obtain rfl := hf.unique hc.fails
    have hfailed : (u.thr 1).pc = .failed := by
      have hs := hc.starting hu.reach (k := 1) (by decide)
      rcases hret with hp | hp
      · simp [hp, Pc.starting] at hs
      · exact hp
    refine ⟨.single ⟨.thread 0, by simp [noRaise], ht⟩, ?_⟩
    exact (threadStep_move ch ht).stopRank (hc.early hu.reach).pc
      (flagSet ch hu.reach 1 (Or.inr hfailed)) (hc.not_live hu.reach 0)
      ((startInv hu.reach).running (by simp [hreal])) hc.method
  rcases hc.head_steps h hr with ⟨t, ht⟩ | ⟨hw, hz⟩
  · exact ⟨t, hstep s h t ht⟩
  · -- the child takes the stop command and answers it
    obtain ⟨u, hu, hpos, hthr⟩ := answerable ch (hc.reach h.reach) hw
    have hsu : (sys cfg).Steps noRaise s u := hu.mono fun _ a ha => by
      rcases ha with rfl | rfl <;> simp [noRaise]
    have hbu := h.steps hsu
    rcases hc.head_steps hbu (hthr ▸ hr) with ⟨t, ht⟩ | ⟨-, hz'⟩
    · obtain ⟨hut, hlt⟩ := hstep u hbu t ht
      exact ⟨t, hsu.trans hut, hthr ▸ hlt⟩
    · omega

theorem Config.FailsBehindHead.joins (hc : cfg.FailsBehindHead ch) (h : Broken cfg s) :
    ∃ t, (sys cfg).Steps noRaise s t ∧ t.main = .returned := by
  obtain ⟨u, hu, hbu, hret⟩ : ∃ u, (sys cfg).Steps noRaise s u ∧ Broken cfg u ∧
      (u.thr 0).pc.returned := by
    refine Lts.exists_steps_of_measure (Broken cfg) (fun u => Broken cfg u ∧ (u.thr 0).pc.returned)
      (fun u => (u.thr 0).pc.stopRank) (fun u hu hr => ?_) h
    obtain ⟨t, ht, hlt⟩ := hc.head_next hu fun hret => hr ⟨hu, hret⟩
    exact ⟨t, ht, hu.steps ht, hlt⟩
  obtain ⟨t, ht, hm⟩ := hbu.joins fun i _ => by
    obtain ⟨f, hf, -, hret1⟩ := hbu.fails
    obtain rfl := hf.unique hc.fails
    match i with
    | 0 => exact Or.inr hret
    | 1 => exact Or.inr hret1
    | i + 2 => exact Or.inl (uninit_of_fails hbu.reach hc.fails (by omega))
  exact ⟨t, hu.trans ht, hm⟩

end Early

/-! ### The theorem -/

section FailedStart

variable {cfg : Config} {s t : State} {f i k : ℕ}

/-- The stop command gets to all the modules started before the failed one: there
is none, or it is the head right in front of it. -/
def Config.StopReaches (cfg : Config) (ch : Chain cfg) : Prop :=
  ∀ f, cfg.Fails f → cfg.external f → f = 0 ∨ f = 1 ∧ ch.head = 0 ∧ cfg.next 0 = some 1

theorem Broken.external (h : Broken cfg s) (hf : cfg.Fails f) : cfg.external f := by
  by_contra hint
  have hquiet : cfg.FailsQuietly := fun g hg => by rwa [hg.unique hf]
  obtain ⟨g, hg, -, hret⟩ := h.fails
  obtain rfl := hg.unique hf
  have hheld := reach_held hquiet (Nat.zero_lt_of_lt hf.lt) h.reach
  exact ((startInv h.reach).not_failing hquiet).2 (hheld.quiet.returned hret)

theorem nothingHangs_first (h : Broken cfg s) (hf : cfg.Fails 0) : NothingHangs cfg s := by
  obtain ⟨f, hf', hreal, hret⟩ := h.fails
  obtain rfl := hf'.unique hf
  have hall : ∀ i, (s.thr i).pc = .uninit ∨ (s.thr i).pc.returned := fun i => by
    rcases Nat.eq_zero_or_pos i with rfl | hi
    · exact Or.inr hret
    · exact Or.inl (uninit_of_fails h.reach hf hi)
  refine ⟨?_, h.joins fun i _ => hall i⟩
  rintro ⟨k, hu, hr⟩
  exact absurd (hall k) (by simp [hu, hr])

theorem nothingHangs_second {ch : Chain cfg} (h : Broken cfg s) (hc : cfg.FailsBehindHead ch) :
    NothingHangs cfg s := by
  refine ⟨?_, hc.joins h⟩
  rintro ⟨k, hu, hr⟩
  obtain ⟨f, hf', -, hret⟩ := h.fails
  obtain rfl := hf'.unique hc.fails
  match k with
  | 0 => exact hc.enabled h hr
  | 1 => exact absurd hret hr
  | k + 2 => exact absurd (uninit_of_fails h.reach hc.fails (by omega)) hu

/-- When the second module fails and does not come right behind the head, the first one hangs. -/
theorem hangs_second (ch : Chain cfg) (h : (sys cfg).Reach noRaise s) (hf : cfg.Fails 1)
    (hext : cfg.external 1) (hno : ¬ (ch.head = 0 ∧ cfg.next 0 = some 1)) : Hangs cfg 0 s := by
  have h0 : 0 < cfg.modulesCnt := Nat.zero_lt_of_lt hf.lt
  by_cases hhead : ch.head = 0
  · obtain ⟨j, hn⟩ := Option.ne_none_iff_exists'.mp fun hn => by
      have hfinal := ch.pos_final h0 ((ch.next_none_iff h0).mp hn)
      have hpos := ch.pos_head
      have h2 := ch.two_le
      rw [hhead] at hpos
      omega
    have hj0 : 0 ≠ j := ch.next_ne_self hn
    have hj1 : j ≠ 1 := by
      rintro rfl
      exact hno ⟨hhead, hn⟩
    exact hangs_next ch h hf (by decide) hn (by omega)
  · have hpos : ch.pos ch.head < ch.pos 0 := by
      rw [ch.pos_head]
      exact Nat.pos_of_ne_zero fun hp => hhead (ch.eq_head h0 hp).symm
    refine hangs_upstream ch h hf (by decide) ch.head_lt hpos fun t ht => ?_
    by_cases h1 : ch.head = 1
    · rw [h1]
      exact starting_of_fails (h.steps ht) hf hext
    · rw [uninit_of_fails (h.steps ht) hf (by omega)]
      rfl

theorem exists_broken (hf : cfg.Fails f) (hext : cfg.external f) : ∃ s, Broken cfg s := by
  obtain ⟨s, hr, hm, -⟩ := exists_startNext (le_of_lt hf.lt) hf.before
  have hfail := exec_fail hm hf.lt hext hf.none (StartInv.control_startNext hr hm)
  refine ⟨_, reach_of_exec hr (by simp [failSteps]) hfail, ⟨f, ?_, ?_, hf.none⟩, rfl⟩ <;>
    simp [failedState]

theorem FirstJoin.broken (h : FirstJoin cfg s) (hf : cfg.Fails f) : Broken cfg s := by
  have hover : s.main.starting = none := by simp [h.main, MainPc.starting]
  have hst := startInv h.reach
  rcases hst.over_cases hover with he | ⟨hf', hret⟩
  · exact absurd hf.none (hst.started f (he ▸ hf.lt))
  · refine ⟨h.reach, ⟨_, ?_, ?_, hf'.none⟩, hover⟩ <;> rcases hret with hr | hr <;>
      simp only [State.startView] at hr ⊢ <;> simp [hr]

/-- After a failed start all threads come to an end in every run if and only if
the stop command gets to all of them. -/
theorem failed_start (ch : Chain cfg) :
    (∀ s, Broken cfg s → NothingHangs cfg s) ↔ cfg.StopReaches ch := by
  refine ⟨fun h f hf hext => ?_, fun hs s hb => ?_⟩
  · by_contra hno
    obtain ⟨s, z, hb, hz, hh⟩ : ∃ s z, Broken cfg s ∧ z < f ∧ Hangs cfg z s := by
      rcases Nat.lt_or_ge f 2 with hlt | h2
      · obtain rfl : f = 1 := by omega
        obtain ⟨s, hb⟩ := exists_broken hf hext
        exact ⟨s, 0, hb, by decide, hangs_second ch hb.reach hf hext (by simpa using hno)⟩
      · obtain ⟨s, z, hj, hz, hh⟩ := exists_hanging ch hf hext h2
        exact ⟨s, z, hj.broken hf, hz, hh⟩
    obtain ⟨t, ht, hm⟩ := (h s hb).joins
    exact hh.not_joined hb.reach hf hz ht hm
  · obtain ⟨f, hf, -, -⟩ := hb.fails
    have hext := hb.external hf
    rcases hs f hf hext with rfl | ⟨rfl, hhead, hn⟩
    · exact nothingHangs_first hb hf
    · exact nothingHangs_second hb ⟨hf, hext, hhead, hn⟩

/-- A module, the source before it along the links, whose `process_start` fails, and the last one. -/
def sourceSecond : Config where
  modules := [⟨2, .middle, .external, 3⟩, ⟨1, .first, .external, 2⟩, ⟨3, .last, .internal, -1⟩]
  map := ⟨3, 64, 2, 4⟩
  dataSize_pos := Nat.succ_pos 3
  dataCnt_lt := two_lt_int
  processStart i := if i = 1 then none else some i
  action _ := true

theorem mem_sourceSecond (i : ℕ) : i ∈ [1, 0, 2] ↔ i < sourceSecond.modulesCnt := by
  simp only [List.mem_cons, List.not_mem_nil, or_false, sourceSecond, Config.modulesCnt,
    List.length_cons, List.length_nil]
  omega

theorem sourceSecond_next (p i : ℕ) (h : [1, 0, 2][p]? = some i) :
    sourceSecond.next i = [1, 0, 2][p + 1]? := by
  rcases p with _ | _ | _ | p
  all_goals cases h
  all_goals rfl

theorem sourceSecond_method (p i : ℕ) (h : [1, 0, 2][p]? = some i) :
    sourceSecond.method i = some (chainMethod 3 p) := by
  rcases p with _ | _ | _ | p
  all_goals cases h
  all_goals rfl

def sourceSecond.chain : Chain sourceSecond where
  path := [1, 0, 2]
  nodup := by decide
  mem_path := mem_sourceSecond
  two_le := by decide
  next_eq := sourceSecond_next
  method_eq := sourceSecond_method

/-- The source comes second in the list and fails to start: the first module hangs. -/
theorem failed_start_source :
    ¬ ∀ cfg : Config, ∀ _ : Chain cfg, ∀ s, Broken cfg s → NothingHangs cfg s := by
  intro hall
  have hreach := Lts.reach_exec (sys sourceSecond) noRaise (startSteps 0 ++ failSteps 1) rfl
    (by decide) fun _ a ha he => by
      subst he
      revert ha
      decide
  have hfails : sourceSecond.Fails 1 := by
    refine ⟨by decide, rfl, by decide, fun j hj => ?_⟩
    obtain rfl : j = 0 := by omega
    exact ⟨by decide, by decide⟩
  have hb : Broken sourceSecond _ :=
    ⟨hreach, ⟨1, by decide, by decide, rfl⟩, by decide⟩
  obtain ⟨t, ht, hm⟩ := (hall _ sourceSecond.chain _ hb).joins
  have hh := hangs_second sourceSecond.chain hreach hfails (Or.inl rfl) (by decide)
  exact hh.not_joined hreach hfails (by decide) ht hm

end FailedStart

end TmkDcl.Pipeline
