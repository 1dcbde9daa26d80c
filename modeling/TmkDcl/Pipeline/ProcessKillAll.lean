import TmkDcl.Pipeline.Contract
import TmkDcl.ProcessMngr

/-!
# Stopping all children (process_mngr.c)

`process_kill_all` stores the stop command in the record of every child, but it posts and waits on
the semaphores of the first record only (`&process_info->sem_job`, where `process_info` is the table).
It goes by `process_cnt`, which counts the internal threads and the failed starts too.
-/

namespace TmkDcl.Pipeline

/-- The statement `process_kill_all` is about to run; the argument is its loop counter. -/
inductive KillPc where
  | setCmd (i : ℕ)
  | postJob (i : ℕ)
  | waitResult (i : ℕ)
  | returned
  deriving DecidableEq, Repr

/-- The children and their records, the caller, and how often a child has posted `sem_result`. -/
structure KillState where
  pl : State
  kill : KillPc
  posted : ℕ → ℕ

inductive KillLabel where
  | kill
  | child (i : ℕ)
  | write (i : ℕ) (d : Chunk)
  | ret (i : ℕ) (status : ℤ)

/-- `process_kill_all` (`process_mngr.c:152-163`) with `process_cnt = cnt`. -/
def processKillAll (cnt : ℕ) (s : KillState) : Option KillState :=
  match s.kill with
  | .setCmd i =>
    if i < cnt then
      some { s with pl := s.pl.setProc i { s.pl.proc i with cmd := .stop }, kill := .postJob i }
    else some { s with kill := .waitResult 0 }
  | .postJob i =>
    let p := s.pl.proc 0
    some { s with pl := s.pl.setProc 0 { p with semJob := p.semJob + 1 }, kill := .setCmd (i + 1) }
  | .waitResult i =>
    let p := s.pl.proc 0
    if i < cnt then
      if 0 < p.semResult then
        some { s with
          pl := s.pl.setProc 0 { p with semResult := p.semResult - 1 }
          kill := .waitResult (i + 1) }
      else none
    else some { s with kill := .returned }
  | .returned => none

/-- A child that is at its post of `sem_result` posts it. -/
def KillState.count (s : KillState) (i : ℕ) : ℕ → ℕ :=
  if (s.pl.child i).pc.posting then Function.update s.posted i (s.posted i + 1) else s.posted

def killStep (cfg : Config) (cnt : ℕ) (s : KillState) : KillLabel → Option KillState
  | .kill => processKillAll cnt s
  | .child i => (pipelineProcess cfg s.pl i).map fun pl => { s with pl, posted := s.count i }
  | .write i d => (actionWrite cfg s.pl i d).map fun pl => { s with pl }
  | .ret i status => (actionReturn cfg s.pl i status).map fun pl => { s with pl }

/-- `process_kill_all` is called: the forked children wait for a job, and none is outstanding.
`process_cnt` is `cnt`. The log begins here. -/
structure KillCalled (cnt : ℕ) (forked : ℕ → Bool) (s : KillState) : Prop where
  kill : s.kill = .setCmd 0
  child : ∀ i, (s.pl.child i).pc = if forked i then .waitJob else .absent
  semJob : ∀ i, i < cnt → (s.pl.proc i).semJob = 0
  semResult : ∀ i, i < cnt → (s.pl.proc i).semResult = 0
  posted : ∀ i, s.posted i = 0
  log : s.pl.log = []

/-- `process_kill_all` and the children that it is to stop. -/
def killAll (cfg : Config) (cnt : ℕ) (forked : ℕ → Bool) : Lts KillState KillLabel where
  init := KillCalled cnt forked
  step := killStep cfg cnt

/-- Every child is stopped once by the time of the return, and nobody is stuck before. -/
structure KillsAll (cfg : Config) (cnt : ℕ) (forked : ℕ → Bool) (s : KillState) : Prop where
  received : s.kill = .returned → ∀ i, forked i = true → (s.pl.answered i).map (·.1.1) = [.stop]
  posted : s.kill = .returned → ∀ i, forked i = true → s.posted i = 1
  live : s.kill ≠ .returned → (killAll cfg cnt forked).Enabled Lts.anyStep s

/-! ### Nobody or one child -/

/-- The first child with its semaphores, and what it has received. -/
structure First (pl : State) (pc : ChildPc) (semJob semResult : ℕ) (received : List Cmd) : Prop where
  pc_eq : (pl.child 0).pc = pc
  semJob_eq : (pl.proc 0).semJob = semJob
  semResult_eq : (pl.proc 0).semResult = semResult
  received_eq : (pl.answered 0).map (·.1.1) = received

/-- The first child on its way from the stop command to its end. -/
def Stopping (pl : State) (posted : ℕ) : Prop :=
  (pl.proc 0).cmd = .stop ∧
  ((First pl .waitJob 1 0 [] ∧ posted = 0) ∨ (First pl .readCmd 0 0 [] ∧ posted = 0) ∨
    (First pl (.post true) 0 0 [.stop] ∧ posted = 0) ∨ (First pl .gone 0 1 [.stop] ∧ posted = 1))

/-- Where the only child and the caller are. -/
inductive One (s : KillState) : Prop
  | setCmd (hk : s.kill = .setCmd 0) (hc : First s.pl .waitJob 0 0 []) (hp : s.posted 0 = 0)
  | postJob (hk : s.kill = .postJob 0) (hcmd : (s.pl.proc 0).cmd = .stop)
      (hc : First s.pl .waitJob 0 0 []) (hp : s.posted 0 = 0)
  | asked (hk : s.kill = .setCmd 1 ∨ s.kill = .waitResult 0) (hc : Stopping s.pl (s.posted 0))
  | done (hk : s.kill = .waitResult 1 ∨ s.kill = .returned) (hc : First s.pl .gone 0 0 [.stop])
      (hp : s.posted 0 = 1)

section Few

variable {cfg : Config} {cnt i : ℕ} {forked : ℕ → Bool} {s s' : KillState} {a : KillLabel}

theorem One.kill (h : One s) (hs : processKillAll 1 s = some s') : One s' := by
  cases h with
  | setCmd hk hc hp =>
    simp only [processKillAll, hk] at hs
    cases hs
    exact .postJob rfl (by simp) ⟨hc.pc_eq, by simp [hc.semJob_eq], by simp [hc.semResult_eq],
      hc.received_eq⟩ hp
  | postJob hk hcmd hc hp =>
    simp only [processKillAll, hk] at hs
    cases hs
    exact .asked (.inl rfl) ⟨by simp [hcmd], .inl ⟨⟨hc.pc_eq, by simp [hc.semJob_eq],
      by simp [hc.semResult_eq], hc.received_eq⟩, hp⟩⟩
  | asked hk hc =>
    rcases hk with hk | hk
    · simp only [processKillAll, hk] at hs
      cases hs
      exact .asked (.inr rfl) hc
    · simp only [processKillAll, hk] at hs
      rw [if_pos Nat.one_pos] at hs
      rcases hc with ⟨-, ⟨hc, -⟩ | ⟨hc, -⟩ | ⟨hc, -⟩ | ⟨hc, hp⟩⟩ <;>
        simp only [hc.semResult_eq, Nat.lt_irrefl, if_false, Nat.one_pos, if_true] at hs <;> cases hs
      exact .done (.inl rfl) ⟨hc.pc_eq, by simp [hc.semJob_eq], by simp, hc.received_eq⟩ hp
  | done hk hc hp =>
    rcases hk with hk | hk <;> simp only [processKillAll, hk] at hs <;> cases hs
    exact .done (.inr rfl) hc hp

theorem Stopping.child (h : Stopping s.pl (s.posted 0))
    (hs : killStep cfg cnt s (.child 0) = some s') : Stopping s'.pl (s'.posted 0) := by
  obtain ⟨hcmd, ⟨hc, hp⟩ | ⟨hc, hp⟩ | ⟨hc, hp⟩ | ⟨hc, hp⟩⟩ := h
  · simp only [killStep, pipelineProcess, hc.pc_eq, hc.semJob_eq, Nat.one_pos, if_true,
      Option.map_some] at hs
    cases hs
    refine ⟨by simp [hcmd], .inr (.inl ⟨⟨by simp, by simp, by simp [hc.semResult_eq], ?_⟩, ?_⟩)⟩
    · exact hc.received_eq
    · simp [KillState.count, hc.pc_eq, ChildPc.posting, hp]
  · simp only [killStep, pipelineProcess, hc.pc_eq, hcmd, Option.map_some] at hs
    cases hs
    refine ⟨by simp, .inr (.inr (.inl ⟨⟨by simp, by simp [hc.semJob_eq],
      by simp [hc.semResult_eq], ?_⟩, ?_⟩))⟩
    · have hreceived := hc.received_eq
      simp_all [State.answered]
    · simp [KillState.count, hc.pc_eq, ChildPc.posting, hp]
  · simp only [killStep, pipelineProcess, hc.pc_eq, Option.map_some] at hs
    cases hs
    refine ⟨by simp [hcmd], .inr (.inr (.inr ⟨⟨by simp, by simp [hc.semJob_eq],
      by simp [hc.semResult_eq], hc.received_eq⟩, ?_⟩))⟩
    simp [KillState.count, hc.pc_eq, ChildPc.posting, hp]
  · simp [killStep, pipelineProcess, hc.pc_eq] at hs

theorem One.child (h : One s) (hs : killStep cfg cnt s (.child 0) = some s') : One s' := by
  have hkill : s'.kill = s.kill := by
    obtain ⟨pl, -, rfl⟩ := Option.map_eq_some_iff.mp hs
    rfl
  cases h with
  | setCmd hk hc hp | postJob hk _ hc hp =>
    simp [killStep, pipelineProcess, hc.pc_eq, hc.semJob_eq] at hs
  | asked hk hc => exact .asked (hkill ▸ hk) (hc.child hs)
  | done hk hc hp => simp [killStep, pipelineProcess, hc.pc_eq] at hs

theorem One.not_action (h : One s) : (s.pl.child 0).pc ≠ .action := by
  cases h with
  | setCmd hk hc hp | postJob hk _ hc hp | done hk hc hp =>
    rw [hc.pc_eq]
    simp
  | asked hk hc =>
    obtain ⟨-, ⟨hc, -⟩ | ⟨hc, -⟩ | ⟨hc, -⟩ | ⟨hc, -⟩⟩ := hc <;> rw [hc.pc_eq] <;> simp

theorem processKillAll_child (hs : processKillAll cnt s = some s') : s'.pl.child = s.pl.child := by
  unfold processKillAll at hs
  split at hs
  · split at hs <;> cases hs <;> rfl
  · cases hs
    rfl
  · simp only at hs
    split at hs
    · split at hs <;> cases hs
      rfl
    · cases hs
      rfl
  · cases hs

/-- A call for nobody or one child: the caller and the child that there is. -/
structure Few (cnt : ℕ) (s : KillState) : Prop where
  one : cnt = 1 → One s
  zero : cnt = 0 → s.kill = .setCmd 0 ∨ s.kill = .waitResult 0 ∨ s.kill = .returned
  absent : ∀ i, cnt ≤ i → (s.pl.child i).pc = .absent

theorem Few.not_action (h : Few cnt s) (hcnt : cnt ≤ 1) (i : ℕ) : (s.pl.child i).pc ≠ .action := by
  by_cases hi : cnt ≤ i
  · rw [h.absent i hi]
    simp
  · obtain rfl : i = 0 := by omega
    exact (h.one (by omega)).not_action

theorem Few.step (h : Few cnt s) (hcnt : cnt ≤ 1) (hs : killStep cfg cnt s a = some s') :
    Few cnt s' := by
  cases a with
  | kill =>
    refine ⟨?_, ?_, ?_⟩
    · intro h1
      rw [h1] at hs
      exact (h.one h1).kill hs
    · intro h0
      rw [h0] at hs
      rcases h.zero h0 with hk | hk | hk <;> simp only [killStep, processKillAll, hk] at hs <;> cases hs
      · exact .inr (.inl rfl)
      · exact .inr (.inr rfl)
    · intro i hi
      rw [processKillAll_child hs]
      exact h.absent i hi
  | child i =>
    by_cases hi : cnt ≤ i
    · simp [killStep, pipelineProcess, h.absent i hi] at hs
    · obtain rfl : i = 0 := by omega
      refine ⟨?_, fun h0 => absurd (Nat.le_of_eq h0) hi, ?_⟩
      · exact fun h1 => (h.one h1).child hs
      · intro j hj
        obtain ⟨pl, hpl, rfl⟩ := Option.map_eq_some_iff.mp hs
        rw [(pipelineProcess_move hpl).child_of_ne (by omega)]
        exact h.absent j hj
  | write i d => simp [killStep, actionWrite, h.not_action hcnt] at hs
  | ret i status => simp [killStep, actionReturn, h.not_action hcnt] at hs

theorem Few.called (hlt : ∀ i, forked i = true → i < cnt) (h1 : cnt = 1 → forked 0 = true)
    (h : KillCalled cnt forked s) : Few cnt s where
  one := by
    intro hone
    refine .setCmd h.kill ⟨?_, h.semJob 0 (by omega), h.semResult 0 (by omega), ?_⟩ (h.posted 0)
    · rw [h.child, if_pos (h1 hone)]
    · rw [State.answered, h.log]
      rfl
  zero := fun _ => .inl h.kill
  absent := by
    intro i hi
    rw [h.child, if_neg fun hf => absurd (hlt i hf) (Nat.not_lt.mpr hi)]

theorem Stopping.enabled (hk : s.kill = .waitResult 0) (h : Stopping s.pl (s.posted 0)) :
    (killAll cfg 1 forked).Enabled Lts.anyStep s := by
  obtain ⟨hcmd, ⟨hc, -⟩ | ⟨hc, -⟩ | ⟨hc, -⟩ | ⟨hc, -⟩⟩ := h
  · exact ⟨_, .child 0, trivial, by simp [killAll, killStep, pipelineProcess, hc.pc_eq, hc.semJob_eq]; rfl⟩
  · exact ⟨_, .child 0, trivial, by simp [killAll, killStep, pipelineProcess, hc.pc_eq, hcmd]; rfl⟩
  · exact ⟨_, .child 0, trivial, by simp [killAll, killStep, pipelineProcess, hc.pc_eq]; rfl⟩
  · exact ⟨_, .kill, trivial, by simp [killAll, killStep, processKillAll, hk, hc.semResult_eq]; rfl⟩

theorem One.enabled (h : One s) (hret : s.kill ≠ .returned) :
    (killAll cfg 1 forked).Enabled Lts.anyStep s := by
  have hkill : processKillAll 1 s ≠ none → (killAll cfg 1 forked).Enabled Lts.anyStep s := fun hne =>
    (Option.ne_none_iff_exists'.mp hne).imp fun _ hs => ⟨.kill, trivial, hs⟩
  cases h with
  | setCmd hk hc hp | postJob hk _ hc hp => exact hkill (by simp [processKillAll, hk])
  | asked hk hc =>
    rcases hk with hk | hk
    · exact hkill (by simp [processKillAll, hk])
    · exact hc.enabled hk
  | done hk hc hp =>
    exact hkill (by simp [processKillAll, hk.resolve_right hret])

theorem Few.killsAll (h : Few cnt s) (hcnt : cnt ≤ 1) (hlt : ∀ i, forked i = true → i < cnt) :
    KillsAll cfg cnt forked s := by
  rcases Nat.le_one_iff_eq_zero_or_eq_one.mp hcnt with h0 | h1
  · subst h0
    refine ⟨fun _ i hi => absurd (hlt i hi) (Nat.not_lt_zero i),
      fun _ i hi => absurd (hlt i hi) (Nat.not_lt_zero i), ?_⟩
    intro hret
    have hkill : processKillAll 0 s ≠ none := by
      rcases h.zero rfl with hk | hk | hk
      · simp [processKillAll, hk]
      · simp [processKillAll, hk]
      · exact absurd hk hret
    exact (Option.ne_none_iff_exists'.mp hkill).imp fun _ hs => ⟨.kill, trivial, hs⟩
  · subst h1
    have hone := h.one rfl
    have hover : s.kill = .returned → First s.pl .gone 0 0 [.stop] ∧ s.posted 0 = 1 := by
      intro hret
      cases hone with
      | setCmd hk hc hp | postJob hk _ hc hp => simp [hk] at hret
      | asked hk hc => rcases hk with hk | hk <;> simp [hk] at hret
      | done hk hc hp => exact ⟨hc, hp⟩
    refine ⟨fun hret i hi => ?_, fun hret i hi => ?_, hone.enabled⟩
    · rw [Nat.lt_one_iff.mp (hlt i hi)]
      exact (hover hret).1.received_eq
    · rw [Nat.lt_one_iff.mp (hlt i hi)]
      exact (hover hret).2

end Few

/-! ### More than the one child -/

section Many

variable {cfg : Config} {cnt i k : ℕ} {forked : ℕ → Bool} {s : KillState}

/-- The caller has posted `k` times, and no child has moved. -/
structure Asking (cnt : ℕ) (forked : ℕ → Bool) (k : ℕ) (s : KillState) : Prop where
  kill : s.kill = .setCmd k
  child : ∀ i, (s.pl.child i).pc = if forked i then .waitJob else .absent
  semJob : ∀ i, i < cnt → (s.pl.proc i).semJob = if i = 0 then k else 0
  semResult : 0 < cnt → (s.pl.proc 0).semResult = 0
  cmd : 0 < k → (s.pl.proc 0).cmd = .stop

theorem Asking.next (cfg : Config) (h : Asking cnt forked k s) (hk : k < cnt) :
    ∃ s', (killAll cfg cnt forked).Steps Lts.anyStep s s' ∧ Asking cnt forked (k + 1) s' := by
  obtain ⟨s', hs, ha⟩ : ∃ s', (killAll cfg cnt forked).exec s [.kill, .kill] = some s' ∧
      Asking cnt forked (k + 1) s' := by
    have hresult := h.semResult (Nat.zero_lt_of_lt hk)
    simp only [Lts.exec, killAll, killStep, processKillAll, h.kill, if_pos hk, Option.bind_some]
    refine ⟨_, rfl, rfl, h.child, ?_, ?_, ?_⟩
    · intro i hi
      have hsem := h.semJob
      by_cases hi0 : i = 0
      · subst hi0
        by_cases hk0 : k = 0
        · subst hk0
          simp [hsem 0 hk]
        · simp [Function.update_of_ne (Ne.symm hk0), hsem 0 (by omega)]
      · by_cases hik : i = k
        · subst hik
          simp [hi0, hsem i hk]
        · simp [hi0, hik, hsem i hi]
    · intro _
      by_cases hk0 : k = 0
      · subst hk0
        simp [hresult]
      · simp [Function.update_of_ne (Ne.symm hk0), hresult]
    · intro _
      by_cases hk0 : k = 0
      · subst hk0
        simp
      · simp [Function.update_of_ne (Ne.symm hk0), h.cmd (Nat.pos_of_ne_zero hk0)]
  exact ⟨s', Lts.steps_of_exec (fun _ _ _ => trivial) hs, ha⟩

/-- The call for the entries of a table. -/
def killCalled (cfg : Config) (forked : ℕ → Bool) : KillState where
  pl := { initial cfg with child := fun i => ⟨if forked i then .waitJob else .absent, -1, false⟩ }
  kill := .setCmd 0
  posted := fun _ => 0

theorem killCalled_called (cfg : Config) (cnt : ℕ) (forked : ℕ → Bool) :
    KillCalled cnt forked (killCalled cfg forked) :=
  ⟨rfl, fun _ => rfl, fun _ _ => rfl, fun _ _ => rfl, fun _ => rfl, rfl⟩

theorem exists_asking (cfg : Config) (forked : ℕ → Bool) (hk : k ≤ cnt) :
    ∃ s, (killAll cfg cnt forked).Reach Lts.anyStep s ∧ Asking cnt forked k s := by
  induction k with
  | zero =>
    have hs := killCalled_called cfg cnt forked
    refine ⟨_, .init hs, rfl, fun _ => rfl, ?_, fun _ => rfl, fun h0 => absurd h0 (Nat.lt_irrefl 0)⟩
    intro i hi
    rw [hs.semJob i hi]
    split <;> rfl
  | succ k ih =>
    obtain ⟨s, hr, ha⟩ := ih (Nat.le_of_succ_le hk)
    obtain ⟨s', hs', ha'⟩ := ha.next cfg hk
    exact ⟨s', hr.steps hs', ha'⟩

/-- The caller waits for a result, and no child is there that would bring it. -/
structure Stuck (cnt : ℕ) (s : KillState) : Prop where
  kill : ∃ k, k < cnt ∧ s.kill = .waitResult k
  semResult : (s.pl.proc 0).semResult = 0
  child : ∀ i, (s.pl.child i).pc = .gone ∨ (s.pl.child i).pc = .absent ∨
    (s.pl.child i).pc = .waitJob ∧ (s.pl.proc i).semJob = 0

/-- A child that has not been called, or no child at all. -/
theorem Asking.idle (h : Asking cnt forked k s) (hlt : ∀ i, forked i = true → i < cnt) (hi : i ≠ 0) :
    (s.pl.child i).pc = .absent ∨ (s.pl.child i).pc = .waitJob ∧ (s.pl.proc i).semJob = 0 := by
  have hpc := h.child i
  cases hf : forked i with
  | false => exact .inl (by simpa [hf] using hpc)
  | true =>
    have hsem := h.semJob i (hlt i hf)
    rw [if_neg hi] at hsem
    exact .inr ⟨by simpa [hf] using hpc, hsem⟩

/-- Without a child of the first record nobody answers. -/
theorem Asking.stuck_absent (cfg : Config) (h : Asking cnt forked cnt s) (hcnt : 0 < cnt)
    (hlt : ∀ i, forked i = true → i < cnt) (h0 : forked 0 = false) :
    ∃ s', (killAll cfg cnt forked).Steps Lts.anyStep s s' ∧ Stuck cnt s' := by
  have hchild := h.child 0
  rw [h0] at hchild
  obtain ⟨s', hs, hstuck⟩ : ∃ s', (killAll cfg cnt forked).exec s [.kill] = some s' ∧
      Stuck cnt s' := by
    simp only [Lts.exec, killAll, killStep, processKillAll, h.kill, Nat.lt_irrefl, if_false,
      Option.bind_some]
    refine ⟨_, rfl, ⟨0, hcnt, rfl⟩, h.semResult hcnt, fun i => ?_⟩
    by_cases hi : i = 0
    · subst hi
      exact .inr (.inl (by simpa using hchild))
    · exact .inr (h.idle hlt hi)
  exact ⟨s', Lts.steps_of_exec (fun _ _ _ => trivial) hs, hstuck⟩

/-- The child of the first record answers one post and leaves. -/
theorem Asking.stuck_gone (cfg : Config) (h : Asking cnt forked cnt s) (hcnt : 2 ≤ cnt)
    (hlt : ∀ i, forked i = true → i < cnt) (h0 : forked 0 = true) :
    ∃ s', (killAll cfg cnt forked).Steps Lts.anyStep s s' ∧ Stuck cnt s' := by
  have hpos : 0 < cnt := by omega
  have hchild := h.child 0
  rw [if_pos h0] at hchild
  have hsem := h.semJob 0 hpos
  rw [if_pos rfl] at hsem
  obtain ⟨s', hs, hstuck⟩ : ∃ s', (killAll cfg cnt forked).exec s
      [.kill, .child 0, .child 0, .child 0, .kill] = some s' ∧ Stuck cnt s' := by
    simp only [Lts.exec, killAll, killStep, processKillAll, h.kill, Nat.lt_irrefl, if_false,
      Option.bind_some, pipelineProcess, hchild, hsem, if_pos hpos, Option.map_some,
      State.setChild, State.setProc, State.emit, Function.update_self, h.cmd hpos,
      h.semResult hpos, Nat.zero_add, Nat.one_pos, if_true]
    refine ⟨_, rfl, ⟨1, hcnt, rfl⟩, by simp, fun i => ?_⟩
    by_cases hi : i = 0
    · subst hi
      exact .inl (by simp)
    · rcases h.idle hlt hi with ha | ⟨hw, hsemi⟩
      · exact .inr (.inl (by simp [hi, ha]))
      · exact .inr (.inr ⟨by simp [hi, hw], by simp [hi, hsemi]⟩)
  exact ⟨s', Lts.steps_of_exec (fun _ _ _ => trivial) hs, hstuck⟩

theorem Stuck.not_enabled (h : Stuck cnt s) : ¬ (killAll cfg cnt forked).Enabled Lts.anyStep s := by
  have hpc : ∀ i, (s.pl.child i).pc ≠ .action ∧ pipelineProcess cfg s.pl i = none := by
    intro i
    rcases h.child i with hg | ha | ⟨hw, hsem⟩
    · simp [pipelineProcess, hg]
    · simp [pipelineProcess, ha]
    · simp [pipelineProcess, hw, hsem]
  intro henabled
  obtain ⟨t, a, -, ht⟩ := henabled
  cases a with
  | kill =>
    obtain ⟨k, hlt, hk⟩ := h.kill
    simp [killAll, killStep, processKillAll, hk, h.semResult, hlt] at ht
  | child i => simp [killAll, killStep, (hpc i).2] at ht
  | write i d => simp [killAll, killStep, actionWrite, (hpc i).1] at ht
  | ret i status => simp [killAll, killStep, actionReturn, (hpc i).1] at ht

theorem exists_stuck (cfg : Config) (hlt : ∀ i, forked i = true → i < cnt) (hcnt : 0 < cnt)
    (hno : ¬ (cnt = 1 ∧ forked 0 = true)) :
    ∃ s, (killAll cfg cnt forked).Reach Lts.anyStep s ∧ Stuck cnt s := by
  obtain ⟨s, hr, ha⟩ := exists_asking cfg forked (Nat.le_refl cnt)
  cases h0 : forked 0 with
  | false =>
    obtain ⟨t, ht, hstuck⟩ := ha.stuck_absent cfg hcnt hlt h0
    exact ⟨t, hr.steps ht, hstuck⟩
  | true =>
    have hcnt2 : cnt ≠ 1 := fun h1 => hno ⟨h1, h0⟩
    obtain ⟨t, ht, hstuck⟩ := ha.stuck_gone cfg (by omega) hlt h0
    exact ⟨t, hr.steps ht, hstuck⟩

theorem Stuck.not_killsAll (h : Stuck cnt s) : ¬ KillsAll cfg cnt forked s := by
  intro hall
  obtain ⟨k, -, hk⟩ := h.kill
  exact h.not_enabled (hall.live (by rw [hk]; simp))

end Many

/-! ### The table of the server -/

open ProcessMngr (ProcessTable Server server)

/-- The records with a child. -/
def forked (t : ProcessTable) (i : ℕ) : Bool := (t.pid i).isSome

/-- The counter is above the records with a child. -/
theorem forked_lt {srv : Server} (h : server.Reach Lts.anyStep srv) :
    ∀ i, forked srv.table i = true → i < srv.table.processCnt := by
  refine h.invariant (fun srv => ∀ i, forked srv.table i = true → i < srv.table.processCnt) ?_
    fun srv a srv' _ hlt _ hs i hf => ?_
  · rintro srv rfl i hf
    cases hf
  · cases a with
    | init cnt =>
      cases hround : srv.round with
      | some _ => simp [server, Server.step, hround] at hs
      | none =>
        simp only [server, Server.step, hround, Option.some.injEq] at hs
        subst hs
        cases hf
    | start c =>
      obtain ⟨⟨cnt, ids⟩, -, rfl⟩ := Option.map_eq_some_iff.mp hs
      exact ProcessMngr.processStart_pid_lt hlt i hf
    | destroy =>
      obtain ⟨-, -, rfl⟩ := Option.map_eq_some_iff.mp hs
      cases hf

/-- `process_kill_all` stops all children exactly if `process_cnt` counts nobody, or only the one
child that there is. -/
theorem kill_all_iff (cfg : Config) {srv : Server} (h : server.Reach Lts.anyStep srv) :
    (∀ s, (killAll cfg srv.table.processCnt (forked srv.table)).Reach Lts.anyStep s →
      KillsAll cfg srv.table.processCnt (forked srv.table) s) ↔
      srv.table.processCnt = 0 ∨ srv.table.processCnt = 1 ∧ forked srv.table 0 = true := by
  have hlt := forked_lt h
  constructor
  · intro hall
    by_contra hno
    rw [not_or] at hno
    obtain ⟨s, hr, hstuck⟩ := exists_stuck cfg hlt (Nat.pos_of_ne_zero hno.1) hno.2
    exact hstuck.not_killsAll (hall s hr)
  · intro hcnt s hr
    have hle : srv.table.processCnt ≤ 1 := by omega
    have hone : srv.table.processCnt = 1 → forked srv.table 0 = true := fun h1 =>
      (hcnt.resolve_left (by omega)).2
    have hfew : Few srv.table.processCnt s := hr.invariant (Few srv.table.processCnt)
      (fun _ => Few.called hlt hone) fun _ _ _ _ h _ hs => h.step hle hs
    exact hfew.killsAll hle hlt

/-- The table of one pipeline with two children. -/
def twoForked : List ProcessMngr.Call :=
  [.init 2, .start ⟨false, true, some 100⟩, .start ⟨false, true, some 101⟩]

/-- Of two children the first is stopped, and the caller waits for it again. -/
theorem not_kill_all_two : ¬ ∀ cfg : Config, ∀ srv, server.Reach Lts.anyStep srv → ∀ s,
    (killAll cfg srv.table.processCnt (forked srv.table)).Reach Lts.anyStep s →
      KillsAll cfg srv.table.processCnt (forked srv.table) s := by
  intro hall
  have hsrv := Lts.reach_exec server Lts.anyStep twoForked rfl (by decide) fun _ _ _ => trivial
  obtain ⟨s, hr, hstuck⟩ := exists_stuck (threeModules some fun _ => true) (forked_lt hsrv)
    (by decide) (by decide)
  exact hstuck.not_killsAll (hall _ _ hsrv s hr)

/-- One child is started, and it is stopped. -/
theorem kill_all_one : ∃ srv, server.Reach Lts.anyStep srv ∧ srv.table.processCnt = 1 ∧
    ∀ s, (killAll (threeModules some fun _ => true) 1 (forked srv.table)).Reach Lts.anyStep s →
      KillsAll (threeModules some fun _ => true) 1 (forked srv.table) s := by
  have hsrv := Lts.reach_exec server Lts.anyStep [.init 2, .start ⟨false, true, some 100⟩] rfl
    (by decide) fun _ _ _ => trivial
  exact ⟨_, hsrv, by decide, (kill_all_iff (threeModules some fun _ => true) hsrv).mpr
    (.inr ⟨by decide, by decide⟩)⟩

end TmkDcl.Pipeline
