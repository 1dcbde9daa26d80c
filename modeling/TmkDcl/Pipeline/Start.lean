import TmkDcl.Pipeline.Moves

/-!
# The start of the modules

`pipeline_thread` starts one module after the other and waits for the post on
`start_control` in between; it breaks off at the first module whose `idx` is -1.
The facts of this file hold for every module list, whatever its links:
`StartMove` is what a statement of any thread method does to the fields that the
start loop reads, and `StartInv` is the invariant of the loop.
-/

namespace TmkDcl.Pipeline

/-- The thread has posted `start_control`. -/
def Pc.posted : Pc → Bool
  | .uninit | .start | .failFlag | .failPost | .startPost => false
  | _ => true

/-- The thread has posted `start_control` and gone on. -/
def Pc.running : Pc → Bool
  | .uninit | .start | .failFlag | .failPost | .failed | .startPost => false
  | _ => true

namespace Config

/-- A module of the thread methods that test the result of `process_start`. -/
def external (cfg : Config) (i : ℕ) : Prop :=
  cfg.method i = some .sourceThread ∨ cfg.method i = some .processThread

/-- The value of `idx` after the start of the module. -/
def startIdx (cfg : Config) (i : ℕ) : ℤ := (cfg.processStart i).elim (-1) fun id => id

theorem startIdx_eq {cfg : Config} {i : ℕ} :
    cfg.startIdx i = -1 ↔ cfg.processStart i = none := by
  cases h : cfg.processStart i <;> simp [startIdx, h]

/-- The start loop comes to the module `f`, and its `process_start` fails. -/
structure Fails (cfg : Config) (f : ℕ) : Prop where
  lt : f < cfg.modulesCnt
  none : cfg.processStart f = none
  method : cfg.method f ≠ .none
  before : ∀ j, j < f → cfg.processStart j ≠ .none ∧ cfg.method j ≠ .none

/-- Only the first module that fails is reached. -/
theorem Fails.unique {cfg : Config} {f g : ℕ} (hf : cfg.Fails f) (hg : cfg.Fails g) : f = g := by
  rcases lt_trichotomy f g with h | h | h
  · exact absurd hf.none (hg.before f h).1
  · exact h
  · exact absurd hg.none (hf.before g h).1

end Config

/-- The fields that the start loop works on. -/
structure StartView where
  main : MainPc
  realStarted : ℕ
  startControl : ℕ
  pc : ℕ → Pc
  idx : ℕ → ℤ

@[simp] def State.startView (s : State) : StartView :=
  ⟨s.main, s.realStarted, s.startControl, fun i => (s.thr i).pc, s.idx⟩

/-- What a statement of a thread method does to the fields of the start loop. -/
inductive StartMove (cfg : Config) (v : StartView) (k : ℕ) : StartView → Prop
  | start (hpc : v.pc k = .start) (h : cfg.processStart k = none → ¬ cfg.external k) :
      StartMove cfg v k { v with
        pc := Function.update v.pc k .startPost
        idx := Function.update v.idx k (cfg.startIdx k) }
  | fail (hpc : v.pc k = .start) (hid : cfg.processStart k = none) (hext : cfg.external k) :
      StartMove cfg v k { v with
        pc := Function.update v.pc k .failFlag
        idx := Function.update v.idx k (-1) }
  | failFlag (hpc : v.pc k = .failFlag) :
      StartMove cfg v k { v with pc := Function.update v.pc k .failPost }
  | failPost (hpc : v.pc k = .failPost) :
      StartMove cfg v k { v with
        pc := Function.update v.pc k .failed
        startControl := v.startControl + 1 }
  | post (hpc : v.pc k = .startPost) (pc : Pc) (hpc' : pc.running = true) :
      StartMove cfg v k { v with
        pc := Function.update v.pc k pc
        startControl := v.startControl + 1 }
  | run (hpc : (v.pc k).running = true) (hr : v.pc k ≠ .done) (pc : Pc) (hpc' : pc.running = true) :
      StartMove cfg v k { v with pc := Function.update v.pc k pc }

section Moves

variable {cfg : Config} {s s' : State} {k : ℕ}

theorem pc_update (f : ℕ → Thread) (k : ℕ) (t : Thread) :
    (fun i => (Function.update f k t i).pc) = Function.update (fun i => (f i).pc) k t.pc := by
  funext i
  by_cases hi : i = k <;> simp [hi]

theorem ThreadMove.startMove (h : ThreadMove cfg s k s')
    (hext : cfg.method k ≠ some .finalizationThread → cfg.external k) :
    StartMove cfg s.startView k s'.startView := by
  cases h
  case startFork id hpc hid _ =>
    have hmove : StartMove cfg s.startView k _ := .start hpc (by simp [hid])
    simpa [pc_update, Config.startIdx, hid] using hmove
  case startFail hpc hid hm =>
    simpa [pc_update] using StartMove.fail (v := s.startView) hpc hid (hext hm)
  case startThread hpc hm id hid =>
    have hmove : StartMove cfg s.startView k _ := .start hpc (by simp [Config.external, hm])
    simpa [pc_update, Config.startIdx, hid] using hmove
  case failFlag hpc =>
    have hmove : StartMove cfg s.startView k _ := .failFlag hpc
    simpa [pc_update] using hmove
  case failPost hpc =>
    have hmove : StartMove cfg s.startView k _ := .failPost hpc
    simpa [pc_update] using hmove
  case startPost hpc pc hs =>
    have hmove : StartMove cfg s.startView k _ := .post hpc pc (by rw [hs]; split <;> rfl)
    simpa [pc_update] using hmove
  case checkExit hpc _ | checkState hpc _ | readResult hpc _ =>
    simp only [State.startView, State.goto, State.emit, pc_update]
    exact .run (v := s.startView) (by simp [hpc, Pc.running]) (by simp [hpc]) _ (by split <;> rfl)
  case postNext hpc _ pc hs | stopWaitResult hpc pc hs _ | postStop hpc _ _ pc hs
    | postTaken hpc _ _ pc hs =>
    simp only [State.startView, State.goto, State.emit, State.setBox, State.setProc, pc_update]
    exact .run (v := s.startView) (by simp [hpc, Pc.running]) (by simp [hpc]) _ (by rw [hs]; split <;> rfl)
  all_goals
    simp only [State.startView, State.goto, State.emit, State.setBox, State.setProc,
      State.setChunk, pc_update]
    exact .run (v := s.startView) (by simp [*, Pc.running]) (by simp [*]) _ rfl

theorem initialThread_start (hm : cfg.method k = some .initialThread)
    (h : initialThread cfg s k = some s') : StartMove cfg s.startView k s'.startView := by
  have hint : ¬ cfg.external k := by simp [Config.external, hm]
  unfold initialThread at h
  split at h
  all_goals rename_i hpc
  case h_1 =>
    unfold startInternal at h
    split at h <;> cases h
    all_goals
      have hmove : StartMove cfg s.startView k _ := .start hpc fun _ => hint
      simpa [pc_update, Config.startIdx, *] using hmove
  case h_2 =>
    cases h
    have hmove : StartMove cfg s.startView k _ := .post hpc .checkExit rfl
    simpa [pc_update] using hmove
  case h_23 => cases h
  case h_6 | h_21 =>
    simp only [ringWait, waitResult] at h
    split at h <;> cases h
    simp only [State.startView, State.goto, State.emit, State.setProc, pc_update]
    exact .run (v := s.startView) (by simp [hpc, Pc.running]) (by simp [hpc]) _ rfl
  case h_11 | h_15 =>
    obtain ⟨j, -, h⟩ := Option.bind_eq_some_iff.mp h
    split at h <;> cases h
    simp only [State.startView, State.goto, State.setBox, pc_update]
    exact .run (v := s.startView) (by simp [hpc, Pc.running]) (by simp [hpc]) _ rfl
  case h_12 | h_13 | h_14 | h_16 | h_17 =>
    obtain ⟨j, -, rfl⟩ := Option.map_eq_some_iff.mp h
    simp only [State.startView, State.goto, State.emit, State.setBox, pc_update]
    exact .run (v := s.startView) (by simp [hpc, Pc.running]) (by simp [hpc]) _ rfl
  case h_18 =>
    obtain ⟨j, -, rfl⟩ := Option.map_eq_some_iff.mp h
    simp only [State.startView, State.goto, pc_update]
    exact .run (v := s.startView) (by simp [hpc, Pc.running]) (by simp [hpc]) _ (by split <;> rfl)
  case h_3 | h_4 =>
    cases h
    simp only [State.startView, State.goto, pc_update]
    exact .run (v := s.startView) (by simp [hpc, Pc.running]) (by simp [hpc]) _ (by split <;> rfl)
  all_goals
    cases h
    simp only [State.startView, State.goto, State.emit, State.setProc, State.setChunk, pc_update]
    exact .run (v := s.startView) (by simp [hpc, Pc.running]) (by simp [hpc]) _ rfl

theorem threadStep_start (h : threadStep cfg s k = some s') :
    StartMove cfg s.startView k s'.startView := by
  unfold threadStep at h
  cases hm : cfg.method k with
  | none => simp [hm] at h
  | some m =>
    cases m with
    | initialThread => exact initialThread_start hm (by simpa only [hm] using h)
    | sourceThread =>
      exact (sourceThread_move hm (by simpa only [hm] using h)).startMove fun _ => Or.inl hm
    | processThread =>
      exact (processThread_move hm (by simpa only [hm] using h)).startMove fun _ => Or.inr hm
    | finalizationThread =>
      exact (finalizationThread_move hm (by simpa only [hm] using h)).startMove
        fun hn => absurd hm hn

/-- What a statement of a thread does to the states of the modules and of the pipeline. -/
structure ThreadFrame (s s' : State) : Prop where
  plState : s'.plState = s.plState
  destroyer : s'.destroyer = s.destroyer
  st : ∀ i, s'.st i = s.st i ∨ s'.st i = pipelineModuleSetState .init (s.st i)

theorem st_setInit (st : ℕ → MdState) (k i : ℕ) :
    Function.update st k (pipelineModuleSetState .init (st k)) i = st i ∨
      Function.update st k (pipelineModuleSetState .init (st k)) i =
        pipelineModuleSetState .init (st i) := by
  by_cases hi : i = k
  · exact Or.inr (by rw [hi, Function.update_self])
  · exact Or.inl (Function.update_of_ne hi ..)

theorem ThreadMove.frame (h : ThreadMove cfg s k s') : ThreadFrame s s' := by
  cases h
  case setInit => exact ⟨rfl, rfl, st_setInit s.st k⟩
  all_goals exact ⟨rfl, rfl, fun i => Or.inl rfl⟩

theorem initialThread_frame (h : initialThread cfg s k = some s') : ThreadFrame s s' := by
  unfold initialThread at h
  split at h
  case h_1 =>
    unfold startInternal at h
    split at h <;> cases h <;> exact ⟨rfl, rfl, fun i => Or.inl rfl⟩
  case h_6 | h_21 =>
    simp only [ringWait, waitResult] at h
    split at h <;> cases h
    exact ⟨rfl, rfl, fun i => Or.inl rfl⟩
  case h_11 | h_15 =>
    obtain ⟨j, -, h⟩ := Option.bind_eq_some_iff.mp h
    split at h <;> cases h
    exact ⟨rfl, rfl, fun i => Or.inl rfl⟩
  case h_12 | h_13 | h_14 | h_16 | h_17 | h_18 =>
    obtain ⟨j, -, rfl⟩ := Option.map_eq_some_iff.mp h
    exact ⟨rfl, rfl, fun i => Or.inl rfl⟩
  case h_22 =>
    cases h
    exact ⟨rfl, rfl, st_setInit s.st k⟩
  case h_23 => cases h
  all_goals
    cases h
    exact ⟨rfl, rfl, fun i => Or.inl rfl⟩

theorem threadStep_frame (h : threadStep cfg s k = some s') : ThreadFrame s s' := by
  unfold threadStep at h
  cases hm : cfg.method k with
  | none => simp [hm] at h
  | some m =>
    cases m with
    | initialThread => exact initialThread_frame (by simpa only [hm] using h)
    | sourceThread => exact (sourceThread_move hm (by simpa only [hm] using h)).frame
    | processThread => exact (processThread_move hm (by simpa only [hm] using h)).frame
    | finalizationThread => exact (finalizationThread_move hm (by simpa only [hm] using h)).frame

theorem method_of_step (h : threadStep cfg s k = some s') : cfg.method k ≠ none := by
  intro hm
  simp [threadStep, hm] at h

end Moves

/-! ### The invariant of the start loop -/

/-- The module the start loop is at. -/
def MainPc.starting : MainPc → Option ℕ
  | .startNext k | .waitStart k | .checkIdx k | .joinFailed k => some k
  | _ => none

/-- The join loop is over with the module `i`. -/
def MainPc.joined (m : MainPc) (i : ℕ) : Bool :=
  match m with
  | .join k => i < k
  | .finish | .returned => true
  | _ => false

/-- The modules below this number have been initialised. -/
def created (main : MainPc) (realStarted : ℕ) : ℕ :=
  if main = .startNext realStarted then realStarted else realStarted + 1

/-- The part of the invariant about the module `i` at the statement `pc`. -/
structure ModuleStart (cfg : Config) (main : MainPc) (realStarted i : ℕ) (pc : Pc) (idx : ℤ) :
    Prop where
  uninit : pc = .uninit ↔ cfg.modulesCnt ≤ i ∨ created main realStarted ≤ i
  posted : pc ≠ .uninit → main ≠ .waitStart i → pc.posted = true
  idx : main.joined i = false →
    idx = if pc = .uninit then -1 else if pc = .start then -200 else cfg.startIdx i
  failing : pc = .failFlag ∨ pc = .failPost ∨ pc = .failed →
    cfg.processStart i = none ∧ cfg.external i
  starts : pc = .startPost ∨ pc.running = true → cfg.processStart i = none → ¬ cfg.external i
  method : pc ≠ .uninit → pc ≠ .start → cfg.method i ≠ none

/-- The invariant of the start loop, for any module list. -/
structure StartInv (cfg : Config) (v : StartView) : Prop where
  modules : ∀ i, ModuleStart cfg v.main v.realStarted i (v.pc i) (v.idx i)
  count : ∀ k, v.main.starting = some k → v.realStarted = k
  le : v.realStarted ≤ cfg.modulesCnt
  lt : ∀ k, v.main = .waitStart k ∨ v.main = .checkIdx k ∨ v.main = .joinFailed k →
    k < cfg.modulesCnt
  control : ∀ k, v.main = .waitStart k → v.startControl = if (v.pc k).posted then 1 else 0
  control_zero : (∀ k, v.main ≠ .waitStart k) → v.startControl = 0
  started : ∀ i, i < v.realStarted → cfg.processStart i ≠ none
  joinFailed : ∀ k, v.main = .joinFailed k → cfg.processStart k = none
  loopEnded : v.main.starting = none → v.realStarted = cfg.modulesCnt ∨
    v.realStarted < cfg.modulesCnt ∧ cfg.processStart v.realStarted = none ∧
      (v.pc v.realStarted).returned

section Invariant

variable {cfg : Config} {s s' : State} {v v' : StartView} {k : ℕ} {a : Label}

theorem StartInv.initial : StartInv cfg (initial cfg).startView := by
  constructor
  · intro i
    constructor <;> simp [TmkDcl.Pipeline.initial, created, Pc.running]
  all_goals simp [TmkDcl.Pipeline.initial, MainPc.starting]

theorem Pc.posted_of_running {pc : Pc} (h : pc.running = true) : pc.posted = true := by
  cases pc <;> simp_all [Pc.running, Pc.posted]

/-- A statement of a thread changes the fields of its own module only. -/
theorem StartMove.frame (hm : StartMove cfg v k v') : v'.main = v.main ∧
    v'.realStarted = v.realStarted ∧ ∀ i, i ≠ k → v'.pc i = v.pc i ∧ v'.idx i = v.idx i := by
  cases hm <;>
    exact ⟨rfl, rfl, fun i hi => by simp [hi]⟩

theorem StartMove.not_returned (hm : StartMove cfg v k v') : ¬ (v.pc k).returned := by
  cases hm with
  | run hpc hr =>
    rintro (h | h)
    · exact hr h
    · simp [h, Pc.running] at hpc
  | _ => simp [*, Pc.returned]

theorem StartMove.module (hm : StartMove cfg v k v') (hdef : cfg.method k ≠ none)
    (h : ModuleStart cfg v.main v.realStarted k (v.pc k) (v.idx k)) :
    ModuleStart cfg v.main v.realStarted k (v'.pc k) (v'.idx k) := by
  obtain ⟨hun, hpost, hidx, hfail, hok, hmeth⟩ := h
  cases hm
  all_goals
    simp only [Function.update_self]
    constructor
  all_goals grind -ring -linarith [Pc.posted, Pc.running, Pc.posted_of_running, Config.startIdx_eq]

theorem StartMove.control (hm : StartMove cfg v k v') :
    (v.startControl = if (v.pc k).posted then 1 else 0) →
      v'.startControl = if (v'.pc k).posted then 1 else 0 := by
  cases hm <;> simp only [Function.update_self] <;>
    grind [Pc.posted, Pc.running, Pc.posted_of_running]

/-- Only a thread that `pipeline_thread` waits for posts `start_control`. -/
theorem StartMove.control_of_posted (hm : StartMove cfg v k v') (h : (v.pc k).posted = true) :
    v'.startControl = v.startControl := by
  cases hm <;> first | rfl | simp_all [Pc.posted]

theorem StartMove.ne_uninit (hm : StartMove cfg v k v') : v.pc k ≠ .uninit := by
  cases hm <;> grind [Pc.running]

theorem StartInv.thread (h : StartInv cfg v) (hm : StartMove cfg v k v')
    (hdef : cfg.method k ≠ none) : StartInv cfg v' := by
  obtain ⟨hmod, hcount, hle, hlt, hctl, hctl0, hst, hjf, hov⟩ := h
  obtain ⟨hmain, hreal, hne⟩ := hm.frame
  have hself := hm.module hdef (hmod k)
  have hpost : v.main ≠ .waitStart k → v'.startControl = v.startControl := fun hw =>
    hm.control_of_posted ((hmod k).posted hm.ne_uninit hw)
  refine ⟨fun i => ?_, ?_, ?_, ?_, fun j hj => ?_, fun hj => ?_, ?_, ?_, fun hs => ?_⟩
  · rw [hmain, hreal]
    by_cases hi : i = k
    · exact hi ▸ hself
    · obtain ⟨hpc, hidx⟩ := hne i hi
      rw [hpc, hidx]
      exact hmod i
  · rwa [hmain, hreal]
  · rwa [hreal]
  · rwa [hmain]
  · rw [hmain] at hj
    by_cases hi : j = k
    · subst hi
      exact hm.control (hctl j hj)
    · rw [hpost (by simp [hj, hi]), (hne j hi).1]
      exact hctl j hj
  · rw [hmain] at hj
    rw [hpost (hj k)]
    exact hctl0 hj
  · rwa [hreal]
  · rwa [hmain]
  · rw [hmain] at hs
    rw [hreal]
    refine (hov hs).imp_right fun ⟨h1, h2, h3⟩ => ⟨h1, h2, ?_⟩
    have hk : v.realStarted ≠ k := fun hk => hm.not_returned (hk ▸ h3)
    rwa [(hne _ hk).1]

theorem ModuleStart.mono {m m' : MainPc} {r r' i : ℕ} {pc : Pc} {idx idx' : ℤ}
    (h : ModuleStart cfg m r i pc idx)
    (hc : cfg.modulesCnt ≤ i ∨ created m' r' ≤ i ↔ cfg.modulesCnt ≤ i ∨ created m r ≤ i)
    (hw : m = .waitStart i → pc.posted = true) (hj : m'.joined i = false → m.joined i = false)
    (hi : m'.joined i = false → idx' = idx) :
    ModuleStart cfg m' r' i pc idx' := by
  refine ⟨h.uninit.trans hc.symm, fun hp _ => ?_, fun hj' => ?_, h.failing, h.starts, h.method⟩
  · by_cases hm : m = .waitStart i
    · exact hw hm
    · exact h.posted hp hm
  · rw [hi hj']
    exact h.idx (hj hj')

theorem ModuleStart.create {r : ℕ} (hr : r < cfg.modulesCnt) :
    ModuleStart cfg (.waitStart r) r r .start (-200) := by
  constructor <;> simp [created, hr, Pc.running]

theorem created_of_over {m : MainPc} (h : m.starting = none) (r : ℕ) : created m r = r + 1 := by
  rw [created, if_neg]
  rintro rfl
  simp [MainPc.starting] at h

theorem MainPc.not_joined {m : MainPc} {k : ℕ} (h : m.starting = some k) (i : ℕ) :
    m.joined i = false := by
  cases m <;> simp_all [MainPc.starting, MainPc.joined]

/-- The module whose `idx` is tested has posted, and `idx` is what its start gave. -/
theorem StartInv.checked (h : StartInv cfg v) (hm : v.main = .checkIdx v.realStarted) :
    v.realStarted < cfg.modulesCnt ∧ (v.pc v.realStarted).posted = true ∧
      v.idx v.realStarted = cfg.startIdx v.realStarted := by
  have hk := h.lt v.realStarted (by simp [hm])
  have hun : v.pc v.realStarted ≠ .uninit := fun hu => by
    have := (h.modules _).uninit.mp hu
    simp [created, hm] at this
    omega
  have hpo := (h.modules v.realStarted).posted hun (by simp [hm])
  have hidx := (h.modules v.realStarted).idx (by simp [hm, MainPc.joined])
  rw [if_neg hun, if_neg (fun hs => by simp [hs, Pc.posted] at hpo)] at hidx
  exact ⟨hk, hpo, hidx⟩

/-- Past the start loop only `main` matters, and `idx` until the joins. -/
theorem StartInv.late (h : StartInv cfg v) (hm : v.main.starting = none) {m : MainPc}
    (hm' : m.starting = none) (hj : ∀ i, m.joined i = false → v.main.joined i = false)
    {idx : ℕ → ℤ} (hi : ∀ i, m.joined i = false → idx i = v.idx i) :
    StartInv cfg { v with main := m, idx := idx } := by
  have hw : ∀ k, v.main ≠ .waitStart k := by
    rintro k hk
    simp [hk, MainPc.starting] at hm
  have hn : ∀ k, m ≠ .waitStart k ∧ m ≠ .checkIdx k ∧ m ≠ .joinFailed k := fun k => by
    refine ⟨?_, ?_, ?_⟩ <;> rintro rfl <;> simp [MainPc.starting] at hm'
  refine ⟨fun i => (h.modules i).mono ?_ (fun hk => absurd hk (hw i)) (hj i) (hi i),
    by simp [hm'], h.le, by simp [hn], by simp [hn], fun _ => h.control_zero hw, h.started,
    by simp [hn], fun _ => h.loopEnded hm⟩
  rw [created_of_over hm, created_of_over hm']

theorem StartInv.leave (h : StartInv cfg v) (hm : v.main.starting = some v.realStarted)
    (hw : v.main ≠ .waitStart v.realStarted)
    (ho : v.main = .startNext v.realStarted ∧ v.realStarted = cfg.modulesCnt ∨
      v.main ≠ .startNext v.realStarted ∧ v.realStarted < cfg.modulesCnt ∧
        cfg.processStart v.realStarted = none ∧ (v.pc v.realStarted).returned) :
    StartInv cfg { v with main := .decide } := by
  have hw' : ∀ k, v.main ≠ .waitStart k := by
    rintro k hk
    obtain rfl := h.count k (by simp [hk, MainPc.starting])
    exact hw hk
  refine ⟨fun i => (h.modules i).mono ?_ (fun hk => absurd hk (hw' i))
    (fun _ => MainPc.not_joined hm i) fun _ => rfl, by simp [MainPc.starting], h.le, by simp, by simp,
    fun _ => h.control_zero hw', h.started, by simp, fun _ => ho.imp And.right And.right⟩
  rcases ho with ⟨h1, h2⟩ | ⟨h1, -⟩
  · simp only [created, h1, if_true, reduceCtorEq, if_false]
    omega
  · simp [created, h1]

theorem StartInv.main (h : StartInv cfg s.startView) (hm : MainMove cfg s s') :
    StartInv cfg s'.startView := by
  have hcount : ∀ k, s.main.starting = some k → s.realStarted = k := h.count
  cases hm
  case create k hm hk =>
    obtain rfl := hcount k (by simp [hm, MainPc.starting])
    obtain ⟨hmod, hcount, hle, hlt, hctl, hctl0, hst, hjf, hov⟩ := h
    simp only [State.startView] at *
    refine ⟨fun i => ?_, ?_, hle, ?_, ?_, ?_, hst, ?_, ?_⟩
    · by_cases hi : i = s.realStarted
      · subst hi
        simpa [createModule] using ModuleStart.create hk
      · simp only [createModule, Function.update_of_ne hi]
        refine (hmod i).mono ?_ (by simp [hm]) (by simp [hm, MainPc.joined]) fun _ => rfl
        simp only [created, hm]
        grind
    all_goals simp_all [MainPc.starting, createModule, Pc.posted]
  case allStarted k hm hk =>
    obtain rfl := hcount k (by simp [hm, MainPc.starting])
    exact h.leave (by simp [hm, MainPc.starting]) (by simp [hm])
      (Or.inl ⟨hm, le_antisymm h.le hk⟩)
  case waitStart k hm hc =>
    obtain rfl := hcount k (by simp [hm, MainPc.starting])
    obtain ⟨hmod, hcount, hle, hlt, hctl, hctl0, hst, hjf, hov⟩ := h
    have hp := hctl _ hm
    have hposted : (s.thr s.realStarted).pc.posted = true := by
      by_contra hn
      simp [hn] at hp
      omega
    refine ⟨fun i => (hmod i).mono ?_ ?_ ?_ ?_, ?_, hle, ?_, ?_, ?_, hst, ?_, ?_⟩
    · simp [created, hm]
    · intro hi
      obtain rfl : s.realStarted = i := MainPc.waitStart.inj (hm.symm.trans hi)
      exact hposted
    all_goals simp_all [MainPc.starting, MainPc.joined]
  case failed k hm hi =>
    obtain rfl := hcount k (by simp [hm, MainPc.starting])
    obtain ⟨hk, hpo, hidx⟩ := h.checked hm
    have hfail : cfg.processStart s.realStarted = none := Config.startIdx_eq.mp (hidx ▸ hi)
    obtain ⟨hmod, hcount, hle, hlt, hctl, hctl0, hst, hjf, hov⟩ := h
    simp only [State.startView] at *
    refine ⟨fun i => (hmod i).mono ?_ ?_ ?_ ?_, ?_, hle, ?_, ?_, ?_, hst, ?_, ?_⟩
    · simp [created, hm]
    all_goals simp_all [MainPc.starting, MainPc.joined]
  case started k hm hi =>
    obtain rfl := hcount k (by simp [hm, MainPc.starting])
    obtain ⟨hk, hpo, hidx⟩ := h.checked hm
    have hok : cfg.processStart s.realStarted ≠ none := fun hn =>
      hi (hidx.trans (Config.startIdx_eq.mpr hn))
    obtain ⟨hmod, hcount, hle, hlt, hctl, hctl0, hst, hjf, hov⟩ := h
    simp only [State.startView] at *
    refine ⟨fun i => (hmod i).mono ?_ ?_ ?_ ?_, ?_, hk, ?_, ?_, ?_, fun i hi => ?_, ?_, ?_⟩
    · simp [created, hm]
    case refine_9 =>
      rcases Nat.lt_succ_iff_lt_or_eq.mp hi with hi | rfl
      · exact hst i hi
      · exact hok
    all_goals simp_all [MainPc.starting, MainPc.joined]
  case joinFailed k hm hr =>
    obtain rfl := hcount k (by simp [hm, MainPc.starting])
    exact h.leave (by simp [hm, MainPc.starting]) (by simp [hm])
      (Or.inr ⟨by simp [hm], h.lt _ (by simp [hm]), h.joinFailed _ hm, hr⟩)
  case checkLive hm =>
    refine h.late (by simp [hm, MainPc.starting]) ?_ (fun _ _ => by simp [hm, MainPc.joined])
      fun _ _ => rfl
    split <;> rfl
  case decide hm | setLive k hm hk | live k hm hk =>
    exact h.late (by simp [hm, MainPc.starting]) rfl (fun _ _ => by simp [hm, MainPc.joined])
      fun _ _ => rfl
  case join k hm hk hr =>
    refine h.late (by simp [hm, MainPc.starting]) rfl (fun i hi => ?_) fun i hi => ?_
    · simp only [MainPc.joined, decide_eq_false_iff_not, State.startView, hm] at hi ⊢
      omega
    · simp only [MainPc.joined, decide_eq_false_iff_not] at hi
      exact Function.update_of_ne (by omega) ..
  case allJoined k hm hk | finish hm =>
    exact h.late (by simp [hm, MainPc.starting]) rfl (by simp [MainPc.joined])
      fun _ _ => rfl

/-- The initialised modules are those up to the one the loop has come to. -/
theorem StartInv.le_of_init {i : ℕ} (h : StartInv cfg v) (hu : v.pc i ≠ .uninit) :
    i < cfg.modulesCnt ∧ i ≤ v.realStarted := by
  have hn := (h.modules i).uninit.not.mp hu
  have hc : created v.main v.realStarted ≤ v.realStarted + 1 := by
    unfold created
    split <;> omega
  omega

theorem StartInv.init_of_lt {i : ℕ} (h : StartInv cfg v) (hi : i < v.realStarted) :
    v.pc i ≠ .uninit ∧ (v.pc i).posted = true := by
  have hle := h.le
  have hc : v.realStarted ≤ created v.main v.realStarted := by
    unfold created
    split <;> omega
  have hu : v.pc i ≠ .uninit := fun hu => by
    have := (h.modules i).uninit.mp hu
    omega
  refine ⟨hu, (h.modules i).posted hu fun hw => ?_⟩
  have := h.count i (by rw [hw]; rfl)
  omega

theorem StartInv.method_of_lt {i : ℕ} (h : StartInv cfg v) (hi : i < v.realStarted) :
    cfg.method i ≠ none := by
  obtain ⟨hu, hp⟩ := h.init_of_lt hi
  exact (h.modules i).method hu fun hs => by simp [hs, Pc.posted] at hp

/-- The start loop only initialises modules that have no thread yet. -/
theorem StartInv.fresh (h : StartInv cfg s.startView) (hm : s.main = .startNext k) :
    (s.thr k).pc = .uninit := by
  have hr : s.realStarted = k := h.count k (by simp [hm, MainPc.starting])
  exact (h.modules k).uninit.mpr (Or.inr (by simp [created, hm, hr]))

theorem StartInv.running {i : ℕ} (h : StartInv cfg v) (hi : i < v.realStarted) :
    (v.pc i).running = true := by
  obtain ⟨-, hp⟩ := h.init_of_lt hi
  have hfail := (h.modules i).failing
  have hok := h.started i hi
  cases hpc : v.pc i <;> simp_all [Pc.posted, Pc.running]

/-- A module that has failed to start is the one at which the loop breaks off. -/
theorem StartInv.fails {i : ℕ} (h : StartInv cfg v) (hu : v.pc i ≠ .uninit) (hs : v.pc i ≠ .start)
    (hn : cfg.processStart i = none) : cfg.Fails i ∧ v.realStarted = i := by
  obtain ⟨hlt, hle⟩ := h.le_of_init hu
  have heq : v.realStarted = i := by
    by_contra hne
    exact h.started i (by omega) hn
  exact ⟨⟨hlt, hn, (h.modules i).method hu hs, fun j hj =>
    ⟨h.started j (by omega), h.method_of_lt (by omega)⟩⟩, heq⟩

/-- Past the start loop either all modules have been started or one has failed. -/
theorem StartInv.over_cases (h : StartInv cfg v) (hm : v.main.starting = none) :
    v.realStarted = cfg.modulesCnt ∨ cfg.Fails v.realStarted ∧ (v.pc v.realStarted).returned := by
  refine (h.loopEnded hm).imp_right fun ⟨hlt, hn, hr⟩ => ⟨(h.fails ?_ ?_ hn).1, hr⟩
  · rintro hu
    rcases hr with hr | hr <;> simp [hu] at hr
  · rintro hs
    rcases hr with hr | hr <;> simp [hs] at hr

theorem ChildMove.startView (h : ChildMove cfg s k a s') : s'.startView = s.startView := by
  cases h <;> rfl

theorem DestroyMove.startView (h : DestroyMove s s') : s'.startView = s.startView := by
  cases h <;> rfl

theorem startInv {ok : State → Label → Prop} (h : (sys cfg).Reach ok s) :
    StartInv cfg s.startView := by
  refine h.invariant (fun s => StartInv cfg s.startView) ?_ fun s a s' _ hi _ hs => ?_
  · rintro s rfl
    exact .initial
  · cases a with
    | thread k => exact hi.thread (threadStep_start hs) (method_of_step hs)
    | child k => exact (pipelineProcess_move hs).startView ▸ hi
    | write k d => exact (actionWrite_move hs).startView ▸ hi
    | ret k status => exact (actionReturn_move hs).startView ▸ hi
    | main => exact hi.main (pipelineThread_move hs)
    | destroy => exact (pipelineDestroy_move hs).startView ▸ hi
    | raise =>
      cases hs
      exact hi

end Invariant

end TmkDcl.Pipeline
