import TmkDcl.Pipeline.Names

/-!
# What the slots carry

In a run in which all actions return 0 no job is dropped. Where only the child of one module writes to
the slots, every other module completes its jobs with the bytes with which it has taken them, so that the
jobs of a module are a prefix of the jobs of each module before it.
-/

namespace TmkDcl.Pipeline

/-- Only the child of `w` writes to a slot, and all actions return 0. -/
def carries (w : ℕ) : State → Label → Prop
  | _, .write i _ => i = w
  | _, .ret _ status => status = 0
  | _, _ => True

/-- The jobs module `i` has completed. -/
def State.done (s : State) (i : ℕ) : List (ℕ × Chunk) := (s.finished i).map Prod.fst

/-- The job the thread works on, with the bytes of its slot. -/
def jobInWork (t : Thread) (chunk : ℕ → Chunk) : List (ℕ × Chunk) :=
  if t.working then [(t.dataoffset, chunk t.dataoffset)] else []

/-- No job has been dropped, and none is going to be. -/
structure NoDrop (cfg : Config) (s : State) : Prop where
  zero : ∀ i, (s.proc i).cmdResult = 0
  kept : ∀ k, cfg.method k = some .processThread → (s.thr k).pc ≠ .push
  results : ∀ i, ∀ x ∈ s.finished i, x.2 = 0

section Drops

variable {cfg : Config} {s s' : State} {i j k w : ℕ} {a : Label}

theorem ThreadMove.cmdResult (h : ThreadMove cfg s k s') (i : ℕ) :
    (s'.proc i).cmdResult = (s.proc i).cmdResult := by
  by_cases hi : i = k
  · subst hi
    cases h
    all_goals simp
  · rw [h.proc_of_ne hi]

theorem NoDrop.thread (hd : NoDrop cfg s) (h : ThreadMove cfg s k s') : NoDrop cfg s' := by
  refine ⟨fun i => (h.cmdResult i).trans (hd.zero i), fun j hm hpc => ?_, fun i x hx => ?_⟩
  · by_cases hj : j = k
    · subst hj
      rcases h.to_push hpc with ⟨hclean, -⟩ | -
      · cases h <;> simp_all
      · cases h
        case readResult => simp [hd.zero j] at hpc
        case startPost pc hs | postNext pc hs | stopWaitResult pc hs _ | postStop pc hs
          | postTaken pc hs => simp [hs, hm] at hpc
        case checkExit hm' | checkState hm' => simp [hm] at hm'
        all_goals simp_all
    · exact hd.kept j hm (h.thr_of_ne hj ▸ hpc)
  · rw [h.finished i] at hx
    rcases List.mem_append.mp hx with hx | hx
    · exact hd.results i x hx
    · split at hx
      · rw [List.mem_singleton.mp hx]
        exact hd.zero k
      · cases hx

theorem ChildMove.cmdResult_zero (h : ChildMove cfg s k a s') (ha : carries w s a)
    (hz : (s.proc i).cmdResult = 0) : (s'.proc i).cmdResult = 0 := by
  by_cases hi : i = k
  · subst hi
    cases h
    case ret status result _ _ hres =>
      have hst : status = 0 := ha
      simp [hres, hst]
    all_goals simp [hz]
  · rw [h.proc_of_ne hi, hz]

theorem noDrop (ch : Chain cfg) (h : (sys cfg).Reach (carries w) s) : NoDrop cfg s := by
  refine h.invariant (NoDrop cfg) ?_ fun s a s' hr hd ha hstep => ?_
  · rintro s rfl
    exact ⟨fun _ => rfl, fun _ _ => by simp [initial], by simp [State.finished, initial]⟩
  · cases step_move ch hstep with
    | thread _ h => exact hd.thread h
    | child h =>
      refine ⟨fun i => h.cmdResult_zero ha (hd.zero i), fun k hm => h.thr ▸ hd.kept k hm, ?_⟩
      rw [h.finished]
      exact hd.results
    | main h =>
      refine ⟨h.proc ▸ hd.zero, fun k hm hpc => ?_, ?_⟩
      · rcases h.create_or with ⟨i, -, -, rfl⟩ | ⟨hthr, -⟩
        · by_cases hk : k = i
          · subst hk
            simp [createModule] at hpc
          · exact hd.kept k hm (by simpa [createModule, hk] using hpc)
        · exact hd.kept k hm (hthr ▸ hpc)
      · simpa only [State.finished, h.log] using hd.results
    | destroy h => cases h <;> exact ⟨hd.zero, hd.kept, hd.results⟩
    | raise => exact ⟨hd.zero, hd.kept, hd.results⟩

/-- Such a run drops no slot with a name in it. -/
theorem reach_cleanDrops (ch : Chain cfg) (h : (sys cfg).Reach (carries w) s) :
    (sys cfg).Reach (cleanDrops cfg) s := by
  induction h with
  | init hi => exact .init hi
  | @step s s' a hr _ hstep ih =>
    refine .step ih ?_ hstep
    cases a with
    | thread k => exact fun hm hpc => absurd hpc ((noDrop ch hr).kept k hm)
    | _ => trivial

theorem NoDrop.accepted (hd : NoDrop cfg s) (i : ℕ) : s.accepted cfg i = s.done i := by
  have hall : ∀ x ∈ s.finished i, cfg.accepts i x = true := fun x hx => by
    simp [Config.accepts, hd.results i x hx]
  rw [State.accepted, List.filter_eq_self.mpr hall, State.done]

end Drops

/-! ### The bytes of a job -/

section Bytes

variable {cfg : Config} {s s' : State} {i j k w : ℕ} {a : Label}

theorem working_held {t : Thread} (h : t.working = true) : t.dataoffset ∈ held t := by
  have hh : t.holds = true := by
    unfold Thread.working at h
    unfold Thread.holds
    cases hpc : t.pc <;> simp_all
  simp [held, hh]

/-- The slot a module works on keeps its bytes, unless the module's own child writes to it. -/
theorem Move.working_chunk (hi : Inv cfg s) (hst : StartInv cfg s.startView) (hs : SlotInv cfg s)
    (h : Move cfg s a s') (hj : j < cfg.modulesCnt) (hw : (s.thr j).working = true)
    (ha : ∀ d, a ≠ .write j d) : s'.chunk (s.thr j).dataoffset = s.chunk (s.thr j).dataoffset := by
  have hheld : (s.thr j).dataoffset ∈ s.at (.held j) := working_held hw
  cases h with
  | @thread k _ hk h =>
    by_cases hjk : j = k
    · subst hjk
      rw [h.chunk_eq fun hpc => by simp [Thread.working, hpc] at hw]
    · exact h.other_chunk hs hk hj hjk hheld
  | @child k _ _ h =>
    by_cases hjk : j = k
    · subst hjk
      cases h
      case write d _ _ _ => exact absurd rfl (ha d)
      all_goals rfl
    · by_cases hk : k < cfg.modulesCnt
      · exact h.other_chunk hi hs hk hj hjk hheld
      · by_contra hne
        have hu := (hst.modules k).uninit.mpr (Or.inl (Nat.le_of_not_lt hk))
        simp [(h.chunk (hi.job k) hne).1] at hu
  | main h => cases h <;> rfl
  | destroy h => cases h <;> rfl
  | raise => rfl

/-- The jobs a module has taken are those it has completed and the one it works on, bytes and all. -/
def CarryInv (j : ℕ) (s : State) : Prop :=
  jobs (s.taken j) = s.done j ++ jobInWork (s.thr j) s.chunk

theorem CarryInv.own (hi : Inv cfg s) (hst : StartInv cfg s.startView) (hs : SlotInv cfg s)
    (hn : cfg.next i = some k) (hm : cfg.method k = some .processThread) (hc : CarryInv k s)
    (h : ThreadMove cfg s k s') : CarryInv k s' := by
  have htake := h.taken hn (hi.link i k hn)
  have hfin := h.finished k
  unfold CarryInv State.done at *
  by_cases hf : Finishing cfg s k
  · have hpc : (s.thr k).pc = .readResult := hf.resolve_left fun hc => by simp [hm] at hc
    rw [if_neg (by simp [hpc]), List.append_nil] at htake
    rw [if_pos ⟨rfl, hf⟩] at hfin
    rw [hfin, htake, hc, h.finishing hf]
    by_cases hr : (s.proc k).cmdResult = 0 <;>
      simp [jobInWork, Thread.working, hpc, hm, hr]
  · rw [if_neg fun hc => hf hc.2, List.append_nil] at hfin
    rw [hfin, htake, jobs_append, hc]
    by_cases hpc : (s.thr k).pc = .readOffset
    · have hcmd := hi.link i k hn |>.read (Pc.recvPhase_offset.mpr hpc)
      rw [if_pos ⟨rfl, hpc⟩, jobInWork, jobInWork, h.read hpc, h.chunk_eq (by simp [hpc])]
      cases hb : (s.box k).cmd <;>
        simp [Thread.working, hpc, hcmd, hb, jobs, Mailbox.letter]
    · have hwork := h.working hm hf hpc
      have hkeep : jobInWork (s'.thr k) s'.chunk = jobInWork (s.thr k) s.chunk := by
        unfold inWork at hwork
        unfold jobInWork
        by_cases hw : (s.thr k).working = true
        · have hchunk := (Move.thread (lt_of_method hm) h).working_chunk hi hst hs
            (lt_of_method hm) hw (by simp)
          by_cases hw' : (s'.thr k).working = true
          · rw [if_pos hw, if_pos hw'] at hwork
            rw [if_pos hw, if_pos hw', List.singleton_inj.mp hwork, hchunk]
          · rw [if_pos hw, if_neg hw'] at hwork
            cases hwork
        · by_cases hw' : (s'.thr k).working = true
          · rw [if_neg hw, if_pos hw'] at hwork
            cases hwork
          · rw [if_neg hw, if_neg hw']
      rw [if_neg fun hc => hpc hc.2, hkeep]
      simp [jobs]

theorem carryInv (ch : Chain cfg) (h : (sys cfg).Reach (carries w) s)
    (hm : cfg.method j = some .processThread) (hjw : j ≠ w) : CarryInv j s := by
  have hj := lt_of_method hm
  obtain ⟨i, hn⟩ := ch.exists_pred hj fun he => by
    rw [← ch.source_iff hj, hm] at he
    simp at he
  refine h.invariant (CarryInv j) ?_ fun s a s' hr hc ha hstep => ?_
  · rintro s rfl
    rfl
  · have hi := reach_inv ch hr
    have hst := startInv hr
    have hs := slotInv ch hr
    have hmove := step_move ch hstep
    have hkeep : jobInWork (s.thr j) s'.chunk = jobInWork (s.thr j) s.chunk := by
      unfold jobInWork
      split
      · rename_i hw
        rw [hmove.working_chunk hi hst hs hj hw]
        rintro d rfl
        exact hjw ha
      · rfl
    cases hmove with
    | @thread k _ hk h =>
      by_cases hkj : j = k
      · subst hkj
        exact hc.own hi hst hs hn hm h
      · have htake := h.taken hn (hi.link i j hn)
        have hfin := h.finished j
        rw [if_neg fun hc => hkj hc.1.symm, List.append_nil] at htake
        rw [if_neg fun hc => hkj hc.1.symm, List.append_nil] at hfin
        unfold CarryInv State.done at *
        rw [hfin, htake, h.thr_of_ne hkj, hkeep]
        exact hc
    | child h =>
      unfold CarryInv State.done at *
      rw [h.finished, h.taken, h.thr, hkeep]
      exact hc
    | main h =>
      have hchunk : s'.chunk = s.chunk := by cases h <;> rfl
      unfold CarryInv State.done State.finished State.taken at *
      rw [h.log, hc, hchunk]
      congr 1
      rcases h.create_or with ⟨k, hm', hk, rfl⟩ | ⟨hthr, hbox⟩
      · by_cases hik : j = k
        · subst hik
          simp [jobInWork, createModule, hst.fresh hm', Thread.working]
        · simp [jobInWork, createModule, hik]
      · rw [hthr]
    | destroy h => cases h <;> exact hc
    | raise => exact hc

/-- A module takes what every module before it has completed, in the same order. -/
theorem taken_prefix_done (ch : Chain cfg) (h : (sys cfg).Reach (carries ch.head) s)
    (hn : cfg.next i = some j) (hk : k < cfg.modulesCnt) (hle : ch.pos k ≤ ch.pos i) :
    jobs (s.taken j) <+: s.done k := by
  have hd := noDrop ch h
  induction hp : ch.pos i generalizing i j with
  | zero =>
    obtain rfl : k = i := ch.pos_inj hk (Config.lt_of_next hn) (by omega)
    exact hd.accepted k ▸ taken_isPrefix ch h hn
  | succ p ih =>
    have hstep := taken_isPrefix ch h hn
    rw [hd.accepted] at hstep
    by_cases hki : ch.pos k = ch.pos i
    · obtain rfl := ch.pos_inj hk (Config.lt_of_next hn) hki
      exact hstep
    · have hi := Config.lt_of_next hn
      have hne : i ≠ ch.head := by
        rintro rfl
        rw [ch.pos_head] at hp
        omega
      obtain ⟨i', hn'⟩ := ch.exists_pred hi hne
      have hpos := ch.pos_next hn'
      have hcarry := carryInv ch h (ch.method_between hn' hn) hne
      have hprev := ih hn' (by omega) (by omega)
      exact (hstep.trans ⟨_, hcarry.symm⟩).trans hprev

end Bytes

/-! ### What an action has done to its job -/

/-- The action of the module has returned from the job that the thread works on. -/
def State.acted (s : State) (i : ℕ) : Prop :=
  (s.thr i).pc = .readResult ∨ (s.thr i).pc = .waitResult ∧ (s.proc i).semJob = 0 ∧
    (s.child i).pc ≠ .readCmd ∧ (s.child i).pc ≠ .action

instance (s : State) (i : ℕ) : Decidable (s.acted i) := inferInstanceAs (Decidable (_ ∨ _))

/-- The job under way, if the action has returned from it or has its effect (`past`) behind it. -/
def State.passing (s : State) (i : ℕ) (past : Bool) : List (ℕ × Chunk) :=
  if s.acted i ∨ (s.child i).pc = .action ∧ past = true then
    [((s.thr i).dataoffset, s.chunk (s.thr i).dataoffset)] else []

/-- The jobs on which the action of a module has had its effect. -/
def State.passed (s : State) (i : ℕ) (past : Bool) : List (ℕ × Chunk) := s.done i ++ s.passing i past

section Actions

variable {cfg : Config} {s s' : State} {i j k w : ℕ} {a : Label} {past : Bool}

theorem JobInv.in_action {t : Thread} {p : ProcessInfo} {c : Child} (h : JobInv t p c)
    (hc : c.pc = .action) : t.pc = .waitResult ∧ p.semJob = 0 ∧ p.semResult = 0 ∧
      p.cmdOffs = t.dataoffset := by
  have htok := h.tokens
  have hcmd := h.action hc
  simp only [hc, ChildPc.busy] at htok
  have hwait : t.pc = .waitResult := by
    cases ht : t.pc <;> simp only [ht, Pc.jobPhase, JobPhase.waiting] at htok <;> first
      | rfl
      | omega
      | simp [h.cmd_stop (by simp [ht, Pc.jobPhase])] at hcmd
  simp only [hwait, Pc.jobPhase, JobPhase.waiting] at htok
  exact ⟨hwait, by omega, by omega, h.offs (Or.inr (by simp [hwait, Pc.jobPhase]))⟩

theorem acted_working (h : s.acted i) : (s.thr i).working = true := by
  rcases h with h | h <;> simp [Thread.working, h]

theorem passing_eq_nil (hj : JobInv (s.thr i) (s.proc i) (s.child i))
    (h1 : (s.thr i).pc ≠ .waitResult) (h2 : (s.thr i).pc ≠ .readResult) : s.passing i past = [] := by
  refine if_neg ?_
  rintro ((hr | ⟨hw, -⟩) | ⟨hc, -⟩)
  · exact h2 hr
  · exact h1 hw
  · exact h1 (hj.in_action hc).1

theorem ThreadMove.passing_finishing (past : Bool) (hj : JobInv (s.thr k) (s.proc k) (s.child k))
    (hj' : JobInv (s'.thr k) (s'.proc k) (s'.child k)) (h : ThreadMove cfg s k s')
    (hf : Finishing cfg s k) : s'.passing k past = [] ∧
      s.passing k past = [((s.thr k).dataoffset, s.chunk (s.thr k).dataoffset)] := by
  have hfin := h.finishing hf
  refine ⟨passing_eq_nil hj' ?_ ?_, if_pos (Or.inl ?_)⟩
  · rw [hfin]
    split <;> simp
  · rw [hfin]
    split <;> simp
  · rcases hf with ⟨hpc, hm⟩ | hpc
    · have htok := hj.tokens
      have hres : 0 < (s.proc k).semResult := by cases h <;> simp_all
      simp only [hpc, Pc.jobPhase, JobPhase.waiting] at htok
      refine Or.inr ⟨hpc, by omega, fun hc => ?_, fun hc => ?_⟩ <;>
        simp only [hc, ChildPc.busy] at htok <;> omega
    · exact Or.inl hpc

theorem ThreadMove.passing_own (hj : JobInv (s.thr k) (s.proc k) (s.child k))
    (hj' : JobInv (s'.thr k) (s'.proc k) (s'.child k)) (h : ThreadMove cfg s k s')
    (hf : ¬ Finishing cfg s k) : s'.passing k past = s.passing k past := by
  by_cases hpc : (s.thr k).pc = .waitResult
  · have htok := hj.tokens
    simp only [hpc, Pc.jobPhase, JobPhase.waiting] at htok
    cases h
    case processResult hm hr =>
      have hc : (s.child k).pc ≠ .readCmd ∧ (s.child k).pc ≠ .action := by
        constructor <;> intro hc <;> simp only [hc, ChildPc.busy] at htok <;> omega
      have hjob : (s.proc k).semJob = 0 := by omega
      simp [State.passing, State.acted, hpc, hc, hjob]
    case sourceResult hm _ => exact absurd (Or.inl ⟨hpc, hm⟩) hf
    all_goals simp_all
  · have hread : (s.thr k).pc ≠ .readResult := fun hr => hf (Or.inr hr)
    rw [passing_eq_nil hj hpc hread]
    by_cases hpost : (s.thr k).pc = .postJob
    · have htok := hj.tokens
      simp only [hpost, Pc.jobPhase, JobPhase.waiting] at htok
      have hc : (s.child k).pc ≠ .action := by
        intro hc
        simp [hc, ChildPc.busy] at htok
      cases h
      case postJob => simp [State.passing, State.acted, hc]
      all_goals simp_all
    · refine passing_eq_nil hj' ?_ ?_
      all_goals
        cases h
        case startPost pc hs | postNext pc hs | stopWaitResult pc hs _ | postStop pc hs
          | postTaken pc hs =>
          subst hs
          simp only [State.goto, State.setBox, State.setProc, State.emit, Function.update_self]
          split <;> simp
        case checkExit | checkState | readResult =>
          simp only [State.goto, State.emit, Function.update_self]
          split <;> simp
        all_goals simp_all

theorem ChildMove.passing_own (hj : JobInv (s.thr k) (s.proc k) (s.child k))
    (h : ChildMove cfg s k (.child k) s') (ha : cfg.action k = true)
    (hp : (s.child k).pc = .readCmd → past = false) : s'.passing k past = s.passing k past := by
  have htok := hj.tokens
  cases h
  case waitJob hpc hr =>
    have hread : (s.thr k).pc ≠ .readResult := by
      intro hread
      simp only [hread, Pc.jobPhase, JobPhase.waiting] at htok
      omega
    have hne : (s.proc k).semJob ≠ 0 := by omega
    simp [State.passing, State.acted, hread, hpc, hne]
  case readStop hpc hc =>
    have hwait : (s.thr k).pc ≠ .waitResult := by
      intro hwait
      simp [hj.cmd_job (by simp [hwait, Pc.jobPhase])] at hc
    simp [State.passing, State.acted, hpc, hwait]
  case readJob hpc hc => simp [State.passing, State.acted, hpc, hp hpc]
  case noAction hc => simp [ha] at hc
  case post exitFlag hpc => cases exitFlag <;> simp [State.passing, State.acted, hpc]

/-- A step leaves the jobs passed by a module alone, unless the action of the module writes or returns. -/
theorem Move.passed (past : Bool) (ch : Chain cfg) (hi : Inv cfg s) (hst : StartInv cfg s.startView)
    (hs : SlotInv cfg s) (h : Move cfg s a s') (hm : i < cfg.modulesCnt) (hact : cfg.action i = true)
    (hwrite : ∀ d, a ≠ .write i d) (hret : ∀ status, a ≠ .ret i status)
    (hp : (s.child i).pc = .readCmd → past = false) : s'.passed i past = s.passed i past := by
  have hj := hi.job i
  have hj' := (hi.step ch hst h).job i
  have hchunk : (s.acted i ∨ (s.child i).pc = .action ∧ past = true) →
      s'.chunk (s.thr i).dataoffset = s.chunk (s.thr i).dataoffset := fun hc =>
    h.working_chunk hi hst hs hm (hc.elim acted_working fun hc => by
      simp [Thread.working, (hj.in_action hc.1).1]) hwrite
  have hframe : s'.thr i = s.thr i → s'.proc i = s.proc i → s'.child i = s.child i →
      s'.passing i past = s.passing i past := fun hthr hproc hchild => by
    have hacted : s'.acted i ↔ s.acted i := by simp only [State.acted, hthr, hproc, hchild]
    rw [State.passing, State.passing, hthr, hchild]
    by_cases hc : s.acted i ∨ (s.child i).pc = .action ∧ past = true
    · rw [if_pos hc, if_pos (by rwa [hacted]), hchunk hc]
    · rw [if_neg hc, if_neg (by rwa [hacted])]
  cases h with
  | @thread k _ hk h =>
    have hfin := h.finished i
    by_cases hik : i = k
    · subst hik
      by_cases hf : Finishing cfg s i
      · obtain ⟨h1, h2⟩ := h.passing_finishing past hj hj' hf
        rw [if_pos ⟨rfl, hf⟩] at hfin
        rw [State.passed, State.passed, State.done, hfin, h1, h2]
        simp [State.done]
      · rw [if_neg fun hc => hf hc.2, List.append_nil] at hfin
        rw [State.passed, State.passed, State.done, hfin, h.passing_own hj hj' hf, State.done]
    · rw [if_neg fun hc => hik hc.1.symm, List.append_nil] at hfin
      rw [State.passed, State.passed, State.done, hfin,
        hframe (h.thr_of_ne hik) (h.proc_of_ne hik) (h.child_of_ne hik), State.done]
  | @child k _ _ h =>
    rw [State.passed, State.passed, State.done, h.finished]
    by_cases hik : i = k
    · subst hik
      cases a with
      | child j =>
        obtain rfl : j = i := by cases h <;> rfl
        rw [h.passing_own hj hact hp, State.done]
      | write j d =>
        obtain rfl : j = i := by cases h; rfl
        exact absurd rfl (hwrite d)
      | ret j status =>
        obtain rfl : j = i := by cases h; rfl
        exact absurd rfl (hret status)
      | thread _ | main | destroy | raise => cases h
    · rw [hframe (by rw [h.thr]) (h.proc_of_ne hik) (h.child_of_ne hik), State.done]
  | main h =>
    have hdone : s'.done i = s.done i := by rw [State.done, State.finished, h.log, State.done, State.finished]
    rw [State.passed, State.passed, hdone]
    congr 1
    rcases h.create_or with ⟨k, hmain, hk, rfl⟩ | ⟨hthr, -⟩
    · by_cases hik : i = k
      · subst hik
        have hfresh := hst.fresh hmain
        rw [passing_eq_nil hj (by simp [hfresh]) (by simp [hfresh])]
        exact passing_eq_nil hj' (by simp [createModule]) (by simp [createModule])
      · exact hframe (by simp [createModule, hik]) rfl rfl
    · exact hframe (by rw [hthr]) (by rw [h.proc]) (by rw [h.child])
  | destroy h => cases h <;> rfl
  | raise => rfl

/-- The action writes to its slot. -/
theorem ChildMove.passed_write (hj : JobInv (s.thr k) (s.proc k) (s.child k)) {d : Chunk}
    (h : ChildMove cfg s k (.write k d) s') :
    s'.passed k true = s.passed k false ++ [((s.thr k).dataoffset, d)] := by
  rw [State.passed, State.passed, State.done, h.finished]
  cases h
  case write hpc _ _ =>
    obtain ⟨hwait, hjob, -, hoffs⟩ := hj.in_action hpc
    simp [State.passing, State.acted, State.done, hpc, hwait, hoffs]

/-- The action returns. -/
theorem ChildMove.passed_ret (hj : JobInv (s.thr k) (s.proc k) (s.child k)) {status : ℤ}
    (h : ChildMove cfg s k (.ret k status) s') (past : Bool) : s'.passed k past = s.passed k true := by
  rw [State.passed, State.passed, State.done, h.finished]
  cases h
  case ret hpc _ _ =>
    obtain ⟨hwait, hjob, -, -⟩ := hj.in_action hpc
    simp [State.passing, State.acted, State.done, hpc, hwait, hjob]

/-- The action is over with its effect. -/
theorem passed_action (hj : JobInv (s.thr k) (s.proc k) (s.child k)) (hc : (s.child k).pc = .action) :
    s.passed k false = s.done k ∧
      s.passed k true = s.done k ++ [((s.thr k).dataoffset, s.chunk (s.thr k).dataoffset)] := by
  obtain ⟨hwait, -⟩ := hj.in_action hc
  simp [State.passed, State.passing, State.acted, hc, hwait]

end Actions

/-! ### The jobs under way -/

section Flight

variable {cfg : Config} {s : State} {i j k w : ℕ} (ch : Chain cfg)

/-- The modules at the first `n` places. -/
def Chain.before (n : ℕ) : Finset ℕ := (Finset.range cfg.modulesCnt).filter fun m => ch.pos m < n

theorem Chain.before_succ (hi : i < cfg.modulesCnt) :
    ch.before (ch.pos i + 1) = insert i (ch.before (ch.pos i)) := by
  ext m
  simp only [before, Finset.mem_filter, Finset.mem_range, Finset.mem_insert]
  constructor
  · rintro ⟨hm, hlt⟩
    by_cases he : ch.pos m = ch.pos i
    · exact Or.inl (ch.pos_inj hm hi he)
    · exact Or.inr ⟨hm, by omega⟩
  · rintro (rfl | ⟨hm, hlt⟩)
    · exact ⟨hi, by omega⟩
    · exact ⟨hm, by omega⟩

theorem Chain.sum_before_succ (f : ℕ → ℕ) (hi : i < cfg.modulesCnt) :
    ∑ m ∈ ch.before (ch.pos i + 1), f m = f i + ∑ m ∈ ch.before (ch.pos i), f m := by
  rw [ch.before_succ hi, Finset.sum_insert]
  simp [before]

theorem hand_le (t : Thread) (chunk : ℕ → Chunk) :
    (inHand t chunk).length + (jobInWork t chunk).length ≤ (held t).card := by
  by_cases hw : t.working = true
  · have hp : t.pc.passing = false := by
      unfold Thread.working at hw
      cases hpc : t.pc <;> simp_all [Pc.passing]
    have hh : t.holds = true := by
      unfold Thread.working at hw
      unfold Thread.holds
      cases hpc : t.pc <;> simp_all
    simp [inHand, hp, jobInWork, hw, held, hh]
  · by_cases hp : t.pc.passing = true
    · have hh : t.holds = true := by cases hpc : t.pc <;> simp_all [Pc.passing, Thread.holds]
      simp [inHand, hp, jobInWork, hw, held, hh]
    · simp [inHand, hp, jobInWork, hw]

theorem pending_le (s : State) (j : ℕ) :
    (jobs (s.pending j).toList).length ≤ (s.at (.boxed j)).card := by
  unfold State.pending pendingLetter
  split
  · rename_i hu
    cases hc : (s.box j).cmd with
    | stop => simp [jobs, Mailbox.letter, hc]
    | job => simp [jobs, Mailbox.letter, hc, State.at, boxed, hu]
  · simp [jobs]

/-- From the head to a module the jobs under way are in slots of the places between them. -/
def Chain.Covered (s : State) (i : ℕ) : Prop :=
  (s.done ch.head).length + (jobInWork (s.thr ch.head) s.chunk).length ≤
    (s.done i).length + (jobInWork (s.thr i) s.chunk).length +
      ∑ m ∈ ch.before (ch.pos i), (s.at (.held m)).card +
      ∑ m ∈ ch.before (ch.pos i + 1), (s.at (.boxed m)).card

theorem in_flight (h : (sys cfg).Reach (carries ch.head) s) (hi : i < cfg.modulesCnt) :
    cfg.method i ≠ some .finalizationThread → ch.Covered s i := by
  refine ch.induction_down (P := fun i => cfg.method i ≠ some .finalizationThread → ch.Covered s i)
    (fun _ => ?_) (fun i j hn ih hm => ?_) hi
  · unfold Chain.Covered
    omega
  · have hlt := Config.lt_of_next hn
    have hj := ch.next_lt hn
    have hprev := ih fun hf => by simp [(ch.next_none_iff hlt).mpr hf] at hn
    have hproc : cfg.method j = some .processThread := by
      rcases ch.method_cases hj with hsrc | hproc | hfin
      · exact absurd ((ch.source_iff hj).mp hsrc) (ch.next_ne_head hn)
      · exact hproc
      · exact absurd hfin hm
    have hacc := acceptInv ch h hn
    have hgood := channel_good ch h hn
    have hcarry := carryInv ch h hproc (ch.next_ne_head hn)
    unfold Channel.Good State.channel at hgood
    simp only at hgood
    rw [AcceptInv, (noDrop ch h).accepted, hgood, jobs_append, hcarry] at hacc
    have hlen := congrArg List.length hacc
    simp only [List.length_append] at hlen
    have hhand := hand_le (s.thr i) s.chunk
    have hpend := pending_le s j
    have hheld : (s.at (.held i)).card = (held (s.thr i)).card := rfl
    have hsum := ch.sum_before_succ (fun m => (s.at (.held m)).card) hlt
    have hsum' := ch.sum_before_succ (fun m => (s.at (.boxed m)).card) hj
    have hpos := ch.pos_next hn
    unfold Chain.Covered at hprev ⊢
    rw [hpos] at hsum' ⊢
    omega

theorem places_le (hs : SlotInv cfg s) : ∑ m ∈ Finset.range cfg.modulesCnt, (s.at (.held m)).card +
    ∑ m ∈ Finset.range cfg.modulesCnt, (s.at (.boxed m)).card ≤ cfg.map.dataCnt := by
  have htotal := congrArg Multiset.card hs.total
  have hheld : Set.InjOn Place.held (Finset.range cfg.modulesCnt : Set ℕ) := fun a _ b _ he =>
    Place.held.inj he
  have hboxed : Set.InjOn Place.boxed (Finset.range cfg.modulesCnt : Set ℕ) := fun a _ b _ he =>
    Place.boxed.inj he
  have hdisj : Disjoint ((Finset.range cfg.modulesCnt).image Place.held)
      ((Finset.range cfg.modulesCnt).image Place.boxed) := by
    rw [Finset.disjoint_left]
    intro q hq hq'
    obtain ⟨a, -, rfl⟩ := Finset.mem_image.mp hq
    obtain ⟨b, -, he⟩ := Finset.mem_image.mp hq'
    cases he
  rw [Multiset.card_sum, places, Finset.sum_insert (by simp), Finset.sum_union hdisj,
    Finset.sum_image hheld, Finset.sum_image hboxed, Multiset.coe_card, createdOffsets_length]
    at htotal
  omega

/-- Between two modules there are no more jobs under way than there are slots. -/
theorem under_way_le (h : (sys cfg).Reach (carries ch.head) s)
    (hm : cfg.method i = some .processThread) :
    (s.done ch.head).length + (jobInWork (s.thr ch.head) s.chunk).length ≤
      (s.done i).length + cfg.map.dataCnt := by
  have hi := lt_of_method hm
  have hflight := in_flight ch h hi (by simp [hm])
  unfold Chain.Covered at hflight
  have hplaces := places_le (slotInv ch h)
  have hwork := hand_le (s.thr i) s.chunk
  have hown := ch.sum_before_succ (fun m => (s.at (.held m)).card) hi
  have hheld : (s.at (.held i)).card = (held (s.thr i)).card := rfl
  have hsub : ∀ n, ch.before n ⊆ Finset.range cfg.modulesCnt := fun n => Finset.filter_subset _ _
  have h1 := Finset.sum_le_sum_of_subset (f := fun m => (s.at (.held m)).card) (hsub (ch.pos i + 1))
  have h2 := Finset.sum_le_sum_of_subset (f := fun m => (s.at (.boxed m)).card) (hsub (ch.pos i + 1))
  omega

end Flight

end TmkDcl.Pipeline
