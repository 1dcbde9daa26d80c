import TmkDcl.Spinnaker.BeatProtocol

/-!
# Lost wake-ups of the cameras (captureManager.cpp, captureThread.cpp)

The predicate of a wait is guarded by `ScheduleGuard`, which is free again when the thread goes to
sleep, so a `wakeUp` between the two is lost. Then the master waits for a thread that waits for
the master. `stop` cannot repair it: it clears the schedule, which is what the waiting threads
wait for, and wakes the master once.
-/

namespace TmkDcl.Spinnaker

/-- The master and every capture thread sleep, so that only `stop` could go on. -/
def State.AllAsleep (cams : Cameras) (s : State) : Prop :=
  (∃ b, s.master = .asleep b) ∧ ∀ i < cams.count, s.threads i = some .asleep

/-- The protocol of the beats: no deadlock before `stop`, and joins that can complete after it. -/
structure BeatProtocol (cams : Cameras) : Prop where
  awake : ∀ s, (system cams).Reach Lts.anyStep s → s.stop = .idle → ¬ s.AllAsleep cams
  joins : ∀ s, (system cams).Reach Lts.anyStep s → s.doCapture = false →
    ∃ t, (system cams).Steps Lts.anyStep s t ∧ t.stop = .done

section Runs

variable {cams : Cameras} {s t : State}

theorem steps_one {a : Label} (h : step cams s a = some t) :
    (system cams).Steps Lts.anyStep s t := .single ⟨a, trivial, h⟩

/-- A state in which no frame has been stored. -/
def place (scheduled : ℕ → Bool) (threads : ℕ → Option ThreadPc) (master : MasterPc)
    (doCapture : Bool) (stop : StopPc) : State :=
  ⟨scheduled, doCapture, false, 0, [], threads, master, stop⟩

/-- The first `i` threads have been created and not run yet. -/
def created (i k : ℕ) : Option ThreadPc := if k < i then some .start else none

theorem created_succ (i : ℕ) : Function.update (created i) i (some .start) = created (i + 1) := by
  funext k
  by_cases hk : k = i
  · subst hk
    simp [created]
  · rw [Function.update_of_ne hk, created, created]
    congr 1
    exact propext ⟨fun h => by omega, fun h => by omega⟩

/-- `runThreads` behind the loop that creates the threads. -/
def begun (cams : Cameras) : State :=
  place (fun _ => true) (created cams.count) (.startup 0) true .idle

theorem reach_begun (h : 0 < cams.count) : (system cams).Reach Lts.anyStep (begun cams) := by
  have hinit : (system cams).Reach Lts.anyStep initial := .init rfl
  apply hinit.steps
  have hstart : (system cams).Steps Lts.anyStep initial
      (place (fun _ => true) (created 0) (.spawn 0) true .idle) := by
    apply steps_one (a := .master)
    simp only [step, runThreads, initial, if_neg (Nat.ne_of_gt h)]
    rfl
  have hloop : (system cams).Steps Lts.anyStep
      (place (fun _ => true) (created 0) (.spawn 0) true .idle)
      (place (fun _ => true) (created cams.count) (.spawn cams.count) true .idle) := by
    apply Lts.Steps.range fun i => place (fun _ => true) (created i) (.spawn i) true .idle
    intro i hi
    apply steps_one (a := .master)
    simp only [step, runThreads, place, if_pos hi, State.setThread, created_succ]
  have hend : (system cams).Steps Lts.anyStep
      (place (fun _ => true) (created cams.count) (.spawn cams.count) true .idle)
      (begun cams) := by
    apply steps_one (a := .master)
    simp only [step, runThreads, place, Nat.lt_irrefl, if_false]
    rfl
  exact hstart.trans (hloop.trans hend)

theorem steps_exec (labels : List Label) (h : (system cams).exec s labels = some t) :
    (system cams).Steps Lts.anyStep s t := Lts.steps_of_exec (fun _ _ _ => trivial) h

/-- A created thread tests its flag, which it has cleared itself, and is about to sleep. -/
theorem steps_fall_asleep {scheduled : ℕ → Bool} {threads : ℕ → Option ThreadPc}
    {master : MasterPc} {stop : StopPc} {i : ℕ} (hspin : cams.spin i = true)
    (hi : threads i = some .start) :
    (system cams).Steps Lts.anyStep (place scheduled threads master true stop)
      (place (Function.update scheduled i false) (Function.update threads i (some .sleep)) master
        true stop) := by
  apply steps_exec [.thread i, .thread i, .thread i, .thread i]
  simp [Lts.exec, system, step, captureThread, place, State.setThread, hi, hspin]

theorem steps_stop {scheduled : ℕ → Bool} {threads : ℕ → Option ThreadPc} :
    (system cams).Steps Lts.anyStep (place scheduled threads (.startup 0) true .idle)
      (place (fun _ => false) threads (.startup 0) false (.join 0)) := by
  apply steps_exec [.stop, .stop, .stop, .stop, .stop]
  simp [Lts.exec, system, step, stopStep, place, MasterPc.spawned, State.notifyMaster]

/-- The first beat, for a camera whose thread does not sleep yet. -/
theorem steps_first_beat {scheduled : ℕ → Bool} {threads : ℕ → Option ThreadPc} {doCapture : Bool}
    {stop : StopPc} (hcount : 0 < cams.count) (hscheduled : ∀ i < cams.count, scheduled i = false)
    (h0 : threads 0 ≠ some .asleep) :
    (system cams).Steps Lts.anyStep (place scheduled threads (.startup 0) doCapture stop)
      (place (Function.update (fun _ => false) 0 true) threads (.asleep (.camera 0 0)) doCapture
        stop) := by
  have hnone : (place scheduled threads (.startup 0) doCapture stop).noneScheduled cams = true := by
    simpa [State.noneScheduled, place] using hscheduled
  have hsome : (place (Function.update (fun _ => false) 0 true) threads (.check (.camera 0 0))
      doCapture stop).noneScheduled cams = false := by
    simp only [State.noneScheduled, place, List.all_eq_false, List.mem_range]
    exact ⟨0, hcount, by simp⟩
  apply steps_exec [.master, .master, .master, .master, .master, .master]
  simp only [place] at hnone hsome
  simp [Lts.exec, system, step, runThreads, place, hnone, hsome, hcount, State.wakeUp, h0]

end Runs

/-! ### After `stop` -/

/-- A thread that will not capture another frame once `DoCapture` is false. -/
def ThreadPc.idle : ThreadPc → Bool
  | .start | .clear | .test | .asleep | .finished => true
  | _ => false

/-- The master and the thread `i` sleep, no other thread will wake the master, and `stop`, which
has notified it, waits for the thread. -/
structure Stuck (i : ℕ) (s : State) : Prop where
  master : ∃ b, s.master = .asleep b
  thread : s.threads i = some .asleep
  idle : ∀ k pc, s.threads k = some pc → pc.idle = true
  doCapture : s.doCapture = false
  stop : ∃ k ≤ i, s.stop = .join k

section AfterStop

variable {cams : Cameras} {s t : State} {i : ℕ}

theorem Stuck.setThread {k : ℕ} {pc : ThreadPc} (h : Stuck i s) (hk : k ≠ i)
    (hpc : pc.idle = true) : Stuck i (s.setThread k pc) := by
  refine ⟨h.master, ?_, ?_, h.doCapture, h.stop⟩
  · rw [setThread_of_ne hk.symm]
    exact h.thread
  · intro j x hx
    by_cases hj : j = k
    · subst hj
      rw [setThread_self, Option.some.injEq] at hx
      exact hx ▸ hpc
    · rw [setThread_of_ne hj] at hx
      exact h.idle j x hx

theorem Stuck.step {a : Label} (hi : i < cams.count) (h : Stuck i s)
    (hs : step cams s a = some t) : Stuck i t := by
  cases a with
  | master =>
    obtain ⟨b, hb⟩ := h.master
    simp [Spinnaker.step, runThreads, hb] at hs
  | stop =>
    obtain ⟨k, hk, hstop⟩ := h.stop
    have hlt : k < cams.count := Nat.lt_of_le_of_lt hk hi
    simp only [Spinnaker.step, stopStep, hstop, if_pos hlt] at hs
    obtain ⟨hfinished, hs⟩ := Option.ite_none_right_eq_some.mp hs
    have hne : k ≠ i := by
      intro heq
      rw [heq, h.thread] at hfinished
      cases hfinished
    cases hs
    exact ⟨h.master, h.thread, h.idle, h.doCapture, k + 1, by omega, rfl⟩
  | thread k =>
    have hne : ∀ pc, s.threads k = some pc → pc ≠ .asleep → k ≠ i := by
      intro pc hpc hawake heq
      rw [heq, h.thread] at hpc
      cases hpc
      exact hawake rfl
    simp only [Spinnaker.step, captureThread] at hs
    cases hk : s.threads k with
    | none => simp [hk] at hs
    | some pc =>
      have hidle := h.idle k pc hk
      cases pc with
      | start =>
        simp only [hk, Option.some.injEq] at hs
        subst hs
        apply h.setThread (hne _ hk (by decide))
        split <;> rfl
      | clear =>
        simp only [hk, Option.some.injEq] at hs
        subst hs
        have hkept : Stuck i (s.setThread k .test) := h.setThread (hne _ hk (by decide)) rfl
        exact ⟨hkept.master, hkept.thread, hkept.idle, hkept.doCapture, hkept.stop⟩
      | test =>
        simp only [hk, h.doCapture, Option.some.injEq] at hs
        subst hs
        exact h.setThread (hne _ hk (by decide)) rfl
      | asleep => simp [hk] at hs
      | finished => simp [hk] at hs
      | _ => cases hidle

theorem Stuck.not_done (hi : i < cams.count) (h : Stuck i s)
    (hs : (system cams).Steps Lts.anyStep s t) : t.stop ≠ .done := by
  have hstuck : Stuck i t :=
    hs.invariant (Stuck i) (fun _ _ _ hi' _ hstep => hi'.step hi hstep) h
  obtain ⟨k, -, hstop⟩ := hstuck.stop
  rw [hstop]
  simp

/-- `stop` is called before the first beat, and the thread goes to sleep behind it. -/
theorem exists_stuck (hi : i < cams.count) (hspin : cams.spin i = true) :
    ∃ s, (system cams).Reach Lts.anyStep s ∧ Stuck i s := by
  have hcount : 0 < cams.count := Nat.zero_lt_of_lt hi
  have hstart : created cams.count i = some .start := by simp [created, hi]
  have hzero : Function.update (created cams.count) i (some .sleep) 0 ≠ some .asleep := by
    by_cases h0 : 0 = i
    · simp [← h0]
    · rw [Function.update_of_ne h0]
      simp [created, hcount]
  have hrun : (system cams).Steps Lts.anyStep (begun cams)
      (place (Function.update (fun _ => false) 0 true)
        (Function.update (created cams.count) i (some .sleep)) (.asleep (.camera 0 0)) false
        (.join 0)) :=
    (steps_fall_asleep hspin hstart).trans (steps_stop.trans
      (steps_first_beat hcount (fun _ _ => rfl) hzero))
  have hasleep : (system cams).Steps Lts.anyStep
      (place (Function.update (fun _ => false) 0 true)
        (Function.update (created cams.count) i (some .sleep)) (.asleep (.camera 0 0)) false
        (.join 0))
      (place (Function.update (fun _ => false) 0 true)
        (Function.update (created cams.count) i (some .asleep)) (.asleep (.camera 0 0)) false
        (.join 0)) := by
    apply steps_one (a := .thread i)
    simp [step, captureThread, place, State.setThread]
  refine ⟨_, ((reach_begun hcount).steps hrun).steps hasleep, ?_⟩
  · refine ⟨⟨_, rfl⟩, by simp [place], ?_, rfl, 0, Nat.zero_le i, rfl⟩
    intro k pc hpc
    by_cases hk : k = i
    · subst hk
      simp only [place, Function.update_self, Option.some.injEq] at hpc
      exact hpc ▸ rfl
    · simp only [place, Function.update_of_ne hk, created, Option.ite_none_right_eq_some,
        Option.some.injEq] at hpc
      exact hpc.2 ▸ rfl

end AfterStop

/-! ### Before `stop` -/

section BeforeStop

variable {cams : Cameras}

/-- The first `i` threads wait for their first beat, the one of camera 0 not asleep yet. -/
def waiting (cams : Cameras) (i k : ℕ) : Option ThreadPc :=
  if k < i then (if k = 0 then some .sleep else some .asleep) else created cams.count k

theorem update_waiting (i : ℕ) : Function.update (waiting cams i) i
    (if i = 0 then some .sleep else some .asleep) = waiting cams (i + 1) := by
  funext k
  by_cases hk : k = i
  · subst hk
    simp [waiting]
  · have hlt : k < i + 1 ↔ k < i := by omega
    rw [Function.update_of_ne hk]
    simp only [waiting, hlt]

theorem update_flags (i : ℕ) :
    Function.update (fun k => decide (i ≤ k)) i false = fun k => decide (i + 1 ≤ k) := by
  funext k
  by_cases hk : k = i
  · subst hk
    simp
  · rw [Function.update_of_ne hk]
    exact decide_eq_decide.mpr (by omega)

theorem steps_waiting {i : ℕ} (hi : i < cams.count) (hspin : cams.spin i = true) :
    (system cams).Steps Lts.anyStep
      (place (fun k => decide (i ≤ k)) (waiting cams i) (.startup 0) true .idle)
      (place (fun k => decide (i + 1 ≤ k)) (waiting cams (i + 1)) (.startup 0) true .idle) := by
  have hstart : waiting cams i i = some .start := by simp [waiting, created, hi]
  have hrun : (system cams).Steps Lts.anyStep
      (place (fun k => decide (i ≤ k)) (waiting cams i) (.startup 0) true .idle)
      (place (Function.update (fun k => decide (i ≤ k)) i false)
        (Function.update (waiting cams i) i (some .sleep)) (.startup 0) true .idle) :=
    steps_fall_asleep hspin hstart
  rw [update_flags] at hrun
  rw [← update_waiting]
  by_cases h0 : i = 0
  · rw [if_pos h0]
    exact hrun
  · rw [if_neg h0]
    apply hrun.trans
    apply steps_one (a := .thread i)
    simp [step, captureThread, place, State.setThread]

/-- With every camera a spin camera all fall asleep: the first `wakeUp` comes between the test
and the sleep of the thread. -/
theorem exists_allAsleep (hcount : 0 < cams.count) (hspin : ∀ i < cams.count, cams.spin i = true) :
    ∃ s, (system cams).Reach Lts.anyStep s ∧ s.stop = .idle ∧ s.AllAsleep cams := by
  have hstart : begun cams =
      place (fun k => decide (0 ≤ k)) (waiting cams 0) (.startup 0) true .idle := by
    simp [begun]
    rfl
  have hreach := reach_begun hcount
  rw [hstart] at hreach
  have hloop : (system cams).Steps Lts.anyStep
      (place (fun k => decide (0 ≤ k)) (waiting cams 0) (.startup 0) true .idle)
      (place (fun k => decide (cams.count ≤ k)) (waiting cams cams.count) (.startup 0) true
        .idle) := by
    apply Lts.Steps.range fun i =>
      place (fun k => decide (i ≤ k)) (waiting cams i) (.startup 0) true .idle
    intro i hi
    exact steps_waiting hi (hspin i hi)
  have hbeat : (system cams).Steps Lts.anyStep
      (place (fun k => decide (cams.count ≤ k)) (waiting cams cams.count) (.startup 0) true .idle)
      (place (Function.update (fun _ => false) 0 true) (waiting cams cams.count)
        (.asleep (.camera 0 0)) true .idle) := by
    apply steps_first_beat hcount
    · intro i hi
      simpa using hi
    · simp [waiting, hcount]
  have hasleep : (system cams).Steps Lts.anyStep
      (place (Function.update (fun _ => false) 0 true) (waiting cams cams.count)
        (.asleep (.camera 0 0)) true .idle)
      (place (Function.update (fun _ => false) 0 true)
        (Function.update (waiting cams cams.count) 0 (some .asleep)) (.asleep (.camera 0 0)) true
        .idle) := by
    apply steps_one (a := .thread 0)
    simp [step, captureThread, place, State.setThread, waiting, hcount]
  refine ⟨_, hreach.steps (hloop.trans (hbeat.trans hasleep)), rfl, ⟨_, rfl⟩, ?_⟩
  intro i hi
  by_cases h0 : i = 0
  · simp [place, h0]
  · simp [place, waiting, hi, h0]

end BeforeStop

/-! ### Without spin cameras -/

/-- Threads without a spin camera do not wait, and `stop` finds them created. -/
structure NoSpin (cams : Cameras) (s : State) : Prop where
  threads : ∀ i pc, s.threads i = some pc → i < cams.count ∧ (pc = .start ∨ pc = .finished)
  spawning : ∀ i, s.master = .spawn i → ∀ k < i, s.threads k ≠ none
  spawned : s.master.spawned = true → ∀ k < cams.count, s.threads k ≠ none
  noCamera : cams.count = 0 → s.master = .begin ∨ s.master = .returned
  stop : s.stop ≠ .idle → s.master.spawned = true
  doCapture : s.doCapture = false → s.stop = .notify ∨ (∃ k, s.stop = .join k) ∨ s.stop = .done

section NoSpin

variable {cams : Cameras} {s t : State}

theorem wakeUp_of_awake {k : ℕ} (h : s.threads k ≠ some .asleep) : s.wakeUp k = s := if_neg h

theorem NoSpin.awake (h : NoSpin cams s) (k : ℕ) : s.threads k ≠ some .asleep := by
  intro hk
  obtain ⟨-, hpc | hpc⟩ := h.threads k _ hk
  · cases hpc
  · cases hpc

/-- Behind the loop that creates the threads the master changes none of them but by waking. -/
theorem master_spawned (hs : runThreads cams s = some t) (hm : s.master.spawned = true)
    (hawake : ∀ k, s.threads k ≠ some .asleep) :
    t.threads = s.threads ∧ t.stop = s.stop ∧ t.doCapture = s.doCapture ∧
      t.master.spawned = true ∧ s.master ≠ .returned := by
  have hwake : ∀ k, s.wakeUp k = s := fun k => wakeUp_of_awake (hawake k)
  simp only [runThreads, hwake] at hs
  cases hpc : s.master with
  | begin | spawn i => simp [hpc, MasterPc.spawned] at hm
  | startup i =>
    simp only [hpc] at hs
    split at hs
    · cases hs
      simp [MasterPc.spawned]
    · split at hs
      · cases hs
        simp [MasterPc.spawned]
      · cases hs
        simp [MasterPc.spawned]
  | schedule b =>
    cases b with
    | _ =>
      simp only [hpc, Option.some.injEq] at hs
      subst hs
      simp [MasterPc.spawned]
  | wake b k =>
    cases b with
    | all =>
      simp only [hpc] at hs
      split at hs
      · cases hs
        simp [MasterPc.spawned]
      · cases hs
        simp [MasterPc.spawned]
    | _ =>
      simp only [hpc, Option.some.injEq] at hs
      subst hs
      simp [MasterPc.spawned]
  | check b =>
    simp only [hpc] at hs
    split at hs
    · cases hs
      cases b with
      | camera j i =>
        simp only [afterBeat]
        split <;> simp [MasterPc.spawned]
      | first i =>
        simp only [afterBeat]
        split <;> simp [MasterPc.spawned]
      | all => simp [afterBeat, MasterPc.spawned]
    · cases hs
      simp [MasterPc.spawned]
  | test =>
    simp only [hpc, Option.some.injEq] at hs
    subst hs
    cases s.doCapture <;> simp [MasterPc.spawned]
  | wakeAll k =>
    simp only [hpc] at hs
    split at hs
    · cases hs
      simp [MasterPc.spawned]
    · cases hs
      simp [MasterPc.spawned]
  | asleep b | returned | threw => simp [hpc] at hs
  | _ =>
    simp only [hpc, Option.some.injEq] at hs
    subst hs
    simp [MasterPc.spawned]

theorem NoSpin.master (h : NoSpin cams s) (hs : runThreads cams s = some t) : NoSpin cams t := by
  by_cases hm : s.master.spawned = true
  · obtain ⟨hthreads, hstop, hdo, hspawned, hne⟩ := master_spawned hs hm h.awake
    refine ⟨hthreads ▸ h.threads, ?_, fun _ => hthreads ▸ h.spawned hm, ?_, fun _ => hspawned,
      by rw [hdo, hstop]; exact h.doCapture⟩
    · intro i hi
      simp [hi, MasterPc.spawned] at hspawned
    · intro hcount
      cases h.noCamera hcount with
      | inl hbegin => simp [hbegin, MasterPc.spawned] at hm
      | inr hreturned => exact absurd hreturned hne
  · have hidle : s.stop = .idle := by
      by_contra hstop
      exact hm (h.stop hstop)
    have hdo : s.doCapture ≠ false := by
      intro hf
      rcases h.doCapture hf with hx | ⟨k, hx⟩ | hx <;> rw [hidle] at hx <;> cases hx
    cases hpc : s.master with
    | begin =>
      simp only [runThreads, hpc] at hs
      split at hs
      · rename_i hcount
        cases hs
        exact ⟨h.threads, by simp, fun _ k hk => by omega, fun _ => .inr rfl, fun _ => rfl,
          fun hf => absurd hf hdo⟩
      · rename_i hcount
        cases hs
        exact ⟨h.threads, fun i hi k hk => by cases hi; omega, by simp [MasterPc.spawned],
          fun hc => absurd hc hcount, fun hx => absurd hidle hx, fun hf => absurd hf hdo⟩
    | spawn i =>
      simp only [runThreads, hpc] at hs
      split at hs
      · rename_i hi
        cases hs
        refine ⟨?_, ?_, by simp [MasterPc.spawned], fun hc => by omega,
          fun hx => absurd hidle hx, fun hf => absurd hf hdo⟩
        · intro k pc hk
          by_cases hki : k = i
          · subst hki
            simp only [setThread_self, Option.some.injEq] at hk
            exact ⟨hi, .inl hk.symm⟩
          · simp only [setThread_of_ne hki] at hk
            exact h.threads k pc hk
        · intro j hj k hk
          cases hj
          by_cases hki : k = i
          · subst hki
            simp
          · simp only [setThread_of_ne hki]
            exact h.spawning i hpc k (by omega)
      · rename_i hi
        cases hs
        refine ⟨h.threads, by simp, fun _ k hk => h.spawning i hpc k (by omega), ?_,
          fun _ => rfl, fun hf => absurd hf hdo⟩
        intro hcount
        rcases h.noCamera hcount with hx | hx <;> rw [hpc] at hx <;> cases hx
    | _ => simp [hpc, MasterPc.spawned] at hm

theorem NoSpin.thread (hspin : ∀ i < cams.count, cams.spin i = false) (h : NoSpin cams s) {i : ℕ}
    (hs : captureThread cams s i = some t) : NoSpin cams t := by
  cases hpc : s.threads i with
  | none => simp [captureThread, hpc] at hs
  | some pc =>
    obtain ⟨hi, hstart | hfinished⟩ := h.threads i pc hpc
    · subst hstart
      simp only [captureThread, hpc, hspin i hi, Bool.false_eq_true, if_false,
        Option.some.injEq] at hs
      subst hs
      have hkept : ∀ k, s.threads k ≠ none → (s.setThread i .finished).threads k ≠ none := by
        intro k hk
        by_cases hki : k = i
        · subst hki
          simp
        · rwa [setThread_of_ne hki]
      refine ⟨?_, fun j hj k hk => hkept k (h.spawning j hj k hk),
        fun hm k hk => hkept k (h.spawned hm k hk), h.noCamera, h.stop, h.doCapture⟩
      intro k pc hk
      by_cases hki : k = i
      · subst hki
        simp only [setThread_self, Option.some.injEq] at hk
        exact ⟨hi, .inr hk.symm⟩
      · rw [setThread_of_ne hki] at hk
        exact h.threads k pc hk
    · subst hfinished
      simp [captureThread, hpc] at hs

/-- A step of `stop` changes no thread, and the master only by waking it. -/
theorem stop_step (hs : stopStep cams s = some t) : t.threads = s.threads ∧
    (t.master = s.master ∨ (∃ b, s.master = .asleep b) ∧ ∃ b, t.master = .check b) ∧
    (s.stop = .idle → s.master.spawned = true) ∧
    (t.doCapture = s.doCapture ∧ (s.stop = .notify ∨ (∃ k, s.stop = .join k) → 
        (∃ k, t.stop = .join k) ∨ t.stop = .done) ∧ s.stop ≠ .done ∨ t.stop = .notify) := by
  cases hpc : s.stop with
  | idle =>
    simp only [stopStep, hpc] at hs
    obtain ⟨hm, hs⟩ := Option.ite_none_right_eq_some.mp hs
    cases hs
    simp [hm]
  | notify =>
    simp only [stopStep, hpc, Option.some.injEq] at hs
    subst hs
    cases hm : s.master with
    | asleep b => simp [State.notifyMaster, hm]
    | _ => simp [State.notifyMaster, hm]
  | join k =>
    simp only [stopStep, hpc] at hs
    split at hs
    · obtain ⟨-, hs⟩ := Option.ite_none_right_eq_some.mp hs
      cases hs
      simp
    · cases hs
      simp
  | done => simp [stopStep, hpc] at hs
  | _ =>
    simp only [stopStep, hpc, Option.some.injEq] at hs
    subst hs
    simp

theorem NoSpin.stopped (h : NoSpin cams s) (hs : stopStep cams s = some t) : NoSpin cams t := by
  obtain ⟨hthreads, hmaster, hidle, hdo⟩ := stop_step hs
  have hspawned : s.master.spawned = true := by
    by_cases hstop : s.stop = .idle
    · exact hidle hstop
    · exact h.stop hstop
  have hafter : t.master.spawned = true := by
    rcases hmaster with heq | ⟨-, b, hb⟩
    · rw [heq]
      exact hspawned
    · rw [hb]
      rfl
  refine ⟨hthreads ▸ h.threads, ?_, fun _ => hthreads ▸ h.spawned hspawned, ?_, fun _ => hafter, ?_⟩
  · intro i hi
    simp [hi, MasterPc.spawned] at hafter
  · intro hcount
    rcases hmaster with heq | ⟨⟨b, hb⟩, -⟩
    · rw [heq]
      exact h.noCamera hcount
    · rcases h.noCamera hcount with hx | hx <;> rw [hb] at hx <;> cases hx
  · intro hfalse
    rcases hdo with ⟨hsame, hjoin, hne⟩ | hnotify
    · right
      apply hjoin
      rcases h.doCapture (hsame ▸ hfalse) with hx | hx | hx
      · exact .inl hx
      · exact .inr hx
      · exact absurd hx hne
    · exact .inl hnotify

theorem noSpin_reach (hspin : ∀ i < cams.count, cams.spin i = false)
    (h : (system cams).Reach Lts.anyStep s) : NoSpin cams s := by
  refine h.invariant (NoSpin cams) ?_ ?_
  · intro s hs
    cases hs
    exact ⟨by simp [initial], by simp [initial], by simp [initial, MasterPc.spawned],
      fun _ => .inl rfl, by simp [initial], by simp [initial]⟩
  · intro s a t _ hs _ hstep
    cases a with
    | master => exact hs.master hstep
    | thread i => exact hs.thread hspin hstep
    | stop => exact hs.stopped hstep

theorem steps_finish (hspin : ∀ i < cams.count, cams.spin i = false) (h : NoSpin cams s)
    (hm : s.master.spawned = true) :
    (system cams).Steps Lts.anyStep s
      { s with threads := fun k => if k < cams.count then some .finished else s.threads k } := by
  have hloop : (system cams).Steps Lts.anyStep
      { s with threads := fun k => if k < 0 then some .finished else s.threads k }
      { s with threads := fun k => if k < cams.count then some .finished else s.threads k } := by
    apply Lts.Steps.range fun i =>
      ({ s with threads := fun k => if k < i then some .finished else s.threads k } : State)
    intro i hi
    have hnext : (fun k => if k < i + 1 then some ThreadPc.finished else s.threads k) =
        Function.update (fun k => if k < i then some ThreadPc.finished else s.threads k) i
          (some .finished) := by
      funext k
      by_cases hk : k = i
      · subst hk
        simp
      · have hlt : k < i + 1 ↔ k < i := by omega
        rw [Function.update_of_ne hk]
        simp only [hlt]
    rw [hnext]
    cases hpc : s.threads i with
    | none => exact absurd hpc (h.spawned hm i hi)
    | some pc =>
      obtain ⟨-, rfl | rfl⟩ := h.threads i pc hpc
      · apply steps_one (a := .thread i)
        simp [step, captureThread, hpc, hspin i hi, State.setThread]
      · rw [Function.update_eq_self_iff.mpr (by simp [hpc])]
        exact .refl
  simpa using hloop

theorem steps_join (hdone : ∀ i < cams.count, s.threads i = some .finished) {k : ℕ}
    (hstop : s.stop = .join k) :
    ∃ t, (system cams).Steps Lts.anyStep s t ∧ t.stop = .done := by
  have hloop : (system cams).Steps Lts.anyStep { s with stop := .join (k + 0) }
      { s with stop := .join (k + (cams.count - k)) } := by
    apply Lts.Steps.range fun i => ({ s with stop := .join (k + i) } : State)
    intro i hi
    apply steps_one (a := .stop)
    have hlt : k + i < cams.count := by omega
    simp [step, stopStep, hlt, hdone _ hlt, Nat.add_assoc]
  have hlast : (system cams).Steps Lts.anyStep { s with stop := .join (k + (cams.count - k)) }
      { s with stop := .done } := by
    apply steps_one (a := .stop)
    have hge : ¬ k + (cams.count - k) < cams.count := by omega
    simp [step, stopStep, hge]
  have hstart : { s with stop := .join (k + 0) } = s := by
    rw [Nat.add_zero, ← hstop]
  rw [hstart] at hloop
  exact ⟨_, hloop.trans hlast, rfl⟩

end NoSpin

/-- The protocol works exactly where no camera is a spin camera, so that no thread ever waits. -/
theorem beatProtocol_iff (cams : Cameras) :
    BeatProtocol cams ↔ ∀ i < cams.count, cams.spin i = false := by
  constructor
  · intro h i hi
    by_contra hspin
    obtain ⟨s, hreach, hstuck⟩ := exists_stuck hi (by simpa using hspin)
    obtain ⟨t, hsteps, hdone⟩ := h.joins s hreach hstuck.doCapture
    exact hstuck.not_done hi hsteps hdone
  · intro hspin
    constructor
    · intro s hreach _ hasleep
      have hinv := noSpin_reach hspin hreach
      obtain ⟨⟨b, hb⟩, hthreads⟩ := hasleep
      by_cases hcount : cams.count = 0
      · rcases hinv.noCamera hcount with hx | hx <;> rw [hb] at hx <;> cases hx
      · exact hinv.awake 0 (hthreads 0 (Nat.pos_of_ne_zero hcount))
    · intro s hreach hfalse
      have hinv := noSpin_reach hspin hreach
      have hcalled : s.stop ≠ .idle := by
        intro hidle
        rcases hinv.doCapture hfalse with hx | ⟨k, hx⟩ | hx <;> rw [hidle] at hx <;> cases hx
      have hfinish := steps_finish hspin hinv (hinv.stop hcalled)
      rcases hinv.doCapture hfalse with hnotify | ⟨k, hjoin⟩ | hdone
      · obtain ⟨u, hu⟩ : ∃ u, stopStep cams { s with
            threads := fun k => if k < cams.count then some .finished else s.threads k } = some u := by
          simp [stopStep, hnotify]
        have hthreads := (stop_step hu).1
        have hstop : u.stop = .join 0 := by
          simp only [stopStep, hnotify, Option.some.injEq] at hu
          rw [← hu]
        have hall : ∀ i < cams.count, u.threads i = some .finished := by
          intro i hi
          rw [hthreads]
          simp [hi]
        obtain ⟨t, ht, hdone⟩ := steps_join hall hstop
        exact ⟨t, hfinish.trans ((steps_one (a := .stop) hu).trans ht), hdone⟩
      · have hall : ∀ i < cams.count,
            (if i < cams.count then some ThreadPc.finished else s.threads i) = some .finished :=
          fun i hi => if_pos hi
        obtain ⟨t, ht, hdone⟩ := steps_join (s := { s with
          threads := fun k => if k < cams.count then some .finished else s.threads k }) hall hjoin
        exact ⟨t, hfinish.trans ht, hdone⟩
      · exact ⟨s, .refl, hdone⟩

/-- With one spin camera the thread can sleep for ever behind `stop`. -/
theorem not_beatProtocol_one : ¬ BeatProtocol ⟨1, fun _ => true⟩ := by
  intro h
  obtain ⟨s, hreach, hstuck⟩ : ∃ s, (system ⟨1, fun _ => true⟩).Reach Lts.anyStep s ∧ Stuck 0 s :=
    exists_stuck Nat.one_pos rfl
  obtain ⟨t, hsteps, hdone⟩ := h.joins s hreach hstuck.doCapture
  exact hstuck.not_done Nat.one_pos hsteps hdone

end TmkDcl.Spinnaker
