import TmkDcl.Pipeline.Job
import TmkDcl.Pipeline.Start

/-!
# The invariant of a chain

`Inv` puts the mailboxes and the process entries of all modules together: each
thread is at a statement of its own method, every link satisfies `LinkInv`, and
every process entry `JobInv`. `reach_inv` has it for every reachable state.
-/

namespace TmkDcl.Pipeline

/-- The statements a thread of the method can be at. -/
def ThreadMethod.runs : ThreadMethod → Pc → Bool
  | .sourceThread, .waitCmd | .sourceThread, .readCmd | .sourceThread, .readOffset
  | .sourceThread, .postResult | .sourceThread, .readResult | .sourceThread, .push
  | .sourceThread, .pushPost | .sourceThread, .clean | .sourceThread, .writeTest
  | .sourceThread, .checkNextIdx => false
  | .processThread, .checkExit | .processThread, .checkState | .processThread, .readOwnCmd
  | .processThread, .popWait | .processThread, .popTake | .processThread, .clean
  | .processThread, .writeTest | .processThread, .checkNextIdx | .processThread, .setInit => false
  | .finalizationThread, pc =>
    match pc with
    | .uninit | .start | .startPost | .waitCmd | .readCmd | .readOffset | .postResult | .clean
    | .push | .pushPost | .setInit | .done => true
    | _ => false
  | _, _ => true

/-- The invariant of a chain. -/
structure Inv (cfg : Config) (s : State) : Prop where
  runs : ∀ i m, cfg.method i = some m → m.runs (s.thr i).pc = true
  link : ∀ i j, cfg.next i = some j → LinkInv (s.thr i) (s.box j) (s.thr j)
  head : ∀ i, cfg.method i = some .sourceThread → (s.thr i).pc ≠ .uninit → (s.box i).cmd = .job
  head_new : ∀ i, cfg.method i = some .sourceThread → (s.box i).newCmd = 0
  job : ∀ i, JobInv (s.thr i) (s.proc i) (s.child i)
  forked : ∀ i, cfg.method i ≠ some .finalizationThread → (s.thr i).pc.starting = false →
    (s.child i).pc ≠ .absent

section Steps

variable {cfg : Config} {s s' : State} {i j k : ℕ} {a : Label}

theorem ThreadMove.runs (h : ThreadMove cfg s k s') {m : ThreadMethod}
    (hm : cfg.method k = some m) (hne : m ≠ .initialThread)
    (hr : m.runs (s.thr k).pc = true) : m.runs (s'.thr k).pc = true := by
  cases h
  case checkExit hpc hm' =>
    obtain rfl := Option.some_inj.mp (hm.symm.trans hm')
    by_cases he : s.exitFlag = true <;> simp [he, ThreadMethod.runs]
  case checkState hpc hm' =>
    obtain rfl := Option.some_inj.mp (hm.symm.trans hm')
    by_cases he : s.st k = .live <;> simp [he, ThreadMethod.runs]
  case readResult hpc hm' =>
    obtain rfl := Option.some_inj.mp (hm.symm.trans hm')
    by_cases he : (s.proc k).cmdResult = 0 <;> simp [he, ThreadMethod.runs]
  all_goals
    simp only [State.goto, State.setBox, State.setProc, State.setChild, State.setChunk,
      State.emit, Function.update_self]
    cases m <;> simp_all [ThreadMethod.runs]

/-- Nobody writes to the mailbox of the head but its own initialisation. -/
theorem ThreadMove.box_head (ch : Chain cfg) (h : ThreadMove cfg s k s')
    (hm : cfg.method i = some .sourceThread) : s'.box i = s.box i := by
  have hi : i = ch.head := (ch.source_iff (lt_of_method hm)).mp hm
  have hn : cfg.next k ≠ some i := fun hn => ch.next_ne_head hn hi
  by_cases hk : i = k
  · subst hk
    cases h
    case waitNext j _ hn' _ | stopWaitNext j _ hn' _ | putCmd j _ hn' | putOffset j _ hn'
      | stopPutCmd j _ hn' | stopPostNext j _ hn' | postNext j _ hn' _ _ =>
      exact Function.update_of_ne (ch.next_ne_self hn') ..
    case waitCmd hm' _ | postStop hm' _ _ _ | postTaken hm' _ _ _ => exact absurd hm hm'
    all_goals rfl
  · exact h.box_of_ne hk hn

theorem LinkInv.threadStep (ch : Chain cfg) (hn : cfg.next i = some j)
    (hl : LinkInv (s.thr i) (s.box j) (s.thr j)) (h : ThreadMove cfg s k s') :
    LinkInv (s'.thr i) (s'.box j) (s'.thr j) := by
  have hij : i ≠ j := ch.next_ne_self hn
  by_cases hi : i = k
  · subst hi
    rw [h.thr_of_ne hij.symm]
    refine hl.send (h.send hn hij fun hm => ?_)
    simp [(ch.next_none_iff (Config.lt_of_next hn)).mpr hm] at hn
  · rw [h.thr_of_ne hi]
    by_cases hj : j = k
    · subst hj
      refine hl.recv (h.recv (fun hs => ch.next_ne_self hs rfl) fun hm => ?_)
      exact ch.next_ne_head hn ((ch.source_iff (lt_of_method hm)).mp hm)
    · rw [h.thr_of_ne hj, h.box_of_ne hj fun hk => hi (ch.next_inj hn hk)]
      exact hl

theorem Inv.thread (ch : Chain cfg) (hi : Inv cfg s) (h : ThreadMove cfg s k s') : Inv cfg s' := by
  have hne : ∀ i, cfg.method i ≠ some .initialThread := fun i hm => by
    rcases ch.method_cases (lt_of_method hm) with h | h | h <;> simp [h] at hm
  refine ⟨fun i m hm => ?_, fun i j hn => (hi.link i j hn).threadStep ch hn h, fun i hm hu => ?_,
    fun i hm => h.box_head ch hm ▸ hi.head_new i hm, fun i => ?_, fun i hm hs => ?_⟩
  · by_cases hk : i = k
    · subst hk
      exact h.runs hm (fun hm' => hne i (hm' ▸ hm)) (hi.runs i m hm)
    · rw [h.thr_of_ne hk]
      exact hi.runs i m hm
  · rw [h.box_head ch hm]
    refine hi.head i hm fun hu' => hu ?_
    by_cases hk : i = k
    · subst hk
      exact absurd hu' h.ne_uninit
    · rwa [h.thr_of_ne hk]
  · by_cases hk : i = k
    · subst hk
      rcases h.child with hc | ⟨hpc, hpc', hp, hc⟩
      · rw [hc]
        exact (hi.job i).thread (h.job (fun hm => hi.head i hm h.ne_uninit)
          fun hpc => (hi.job i).cmd (by tauto))
      · rw [hc, hp]
        exact (hi.job i).fork hpc hpc' _ _
    · rw [h.thr_of_ne hk, h.proc_of_ne hk, h.child_of_ne hk]
      exact hi.job i
  · by_cases hk : i = k
    · subst hk
      by_cases hs0 : (s.thr i).pc.starting = true
      · simp [h.forked hm hs0 hs]
      · rcases h.child with hc | ⟨hpc, -⟩
        · rw [hc]
          exact hi.forked i hm (by simpa using hs0)
        · simp [hpc, Pc.starting] at hs0
    · rw [h.thr_of_ne hk] at hs
      rw [h.child_of_ne hk]
      exact hi.forked i hm hs

theorem Inv.child (hi : Inv cfg s) (h : ChildMove cfg s k a s') : Inv cfg s' := by
  refine ⟨fun i m hm => ?_, fun i j hn => ?_, fun i hm hu => ?_,
    fun i hm => h.box ▸ hi.head_new i hm, fun i => ?_, fun i hm hs => ?_⟩
  · rw [h.thr]
    exact hi.runs i m hm
  · rw [h.thr, h.box]
    exact hi.link i j hn
  · rw [h.box]
    exact hi.head i hm (h.thr ▸ hu)
  · by_cases hk : i = k
    · subst hk
      exact (hi.job i).child h
    · rw [h.thr, h.proc_of_ne hk, h.child_of_ne hk]
      exact hi.job i
  · rw [h.thr] at hs
    by_cases hk : i = k
    · subst hk
      exact h.not_absent
    · rw [h.child_of_ne hk]
      exact hi.forked i hm hs

theorem LinkInv.create {a r : Thread} {b : Mailbox} (h : LinkInv a b r) (hr : r.pc = .uninit) :
    LinkInv a { b with newCmd := 0, result := 1, cmd := .job } { r with pc := .start } := by
  obtain ⟨htok, hjob, hoffs, hstop, hread, hiff⟩ := h
  have hrecv : r.pc.recvPhase = .uninit := by rw [hr]; rfl
  have hstart : Pc.start.recvPhase = .idle := rfl
  constructor <;> simp only [hstart] <;>
    grind [Unread, GotStop, SendPhase.writing, RecvPhase.reading]

theorem JobInv.create {t : Thread} {p : ProcessInfo} {c : Child} (h : JobInv t p c)
    (ht : t.pc = .uninit) : JobInv { t with pc := .start } p c :=
  h.thread (.stay (by simp [ht, Pc.jobPhase]) rfl (by simp [ht, Pc.starting]) (by simp))

theorem Inv.create (ch : Chain cfg) (hi : Inv cfg s) (hu : (s.thr k).pc = .uninit) (m : MainPc) :
    Inv cfg { createModule s k with main := m } := by
  have hpc : ∀ i, i ≠ k → Function.update s.thr k { s.thr k with pc := .start } i = s.thr i :=
    fun i hk => Function.update_of_ne hk ..
  refine ⟨fun i m hm => ?_, fun i j hn => ?_, fun i hm hu' => ?_, fun i hm => ?_, fun i => ?_,
    fun i hm hs => ?_⟩
  all_goals simp only [createModule] at *
  · by_cases hk : i = k
    · subst hk
      rw [Function.update_self]
      cases m <;> rfl
    · rw [hpc i hk]
      exact hi.runs i m hm
  · have hij : i ≠ j := ch.next_ne_self hn
    by_cases hk : i = k
    · subst hk
      rw [Function.update_self, hpc j hij.symm, Function.update_of_ne hij.symm]
      exact (hi.link i j hn).send (.stay (by simp [hu, Pc.sendPhase]) (by rw [hu]; rfl))
    · rw [hpc i hk]
      by_cases hj : j = k
      · subst hj
        rw [Function.update_self, Function.update_self]
        exact (hi.link i j hn).create hu
      · rw [hpc j hj, Function.update_of_ne hj]
        exact hi.link i j hn
  · by_cases hk : i = k
    · subst hk
      rw [Function.update_self]
    · rw [Function.update_of_ne hk]
      exact hi.head i hm (hpc i hk ▸ hu')
  · by_cases hk : i = k
    · subst hk
      rw [Function.update_self]
    · rw [Function.update_of_ne hk]
      exact hi.head_new i hm
  · by_cases hk : i = k
    · subst hk
      rw [Function.update_self]
      exact (hi.job i).create hu
    · rw [hpc i hk]
      exact hi.job i
  · by_cases hk : i = k
    · subst hk
      simp [Pc.starting] at hs
    · rw [hpc i hk] at hs
      exact hi.forked i hm hs

/-- Only the initialisation of a module touches what the threads work on. -/
theorem MainMove.create_or (h : MainMove cfg s s') :
    (∃ k, s.main = .startNext k ∧ k < cfg.modulesCnt ∧
      s' = { createModule s k with main := .waitStart k }) ∨
    (s'.thr = s.thr ∧ s'.box = s.box) := by
  cases h
  case create k hm hk => exact Or.inl ⟨k, hm, hk, rfl⟩
  all_goals exact Or.inr ⟨rfl, rfl⟩

theorem Inv.main (ch : Chain cfg) (hi : Inv cfg s) (hs : StartInv cfg s.startView)
    (h : MainMove cfg s s') : Inv cfg s' := by
  rcases h.create_or with ⟨k, hm, hk, rfl⟩ | ⟨hthr, hbox⟩
  · exact hi.create ch (hs.fresh hm) _
  · obtain ⟨hruns, hlink, hhead, hnew, hjob, hfork⟩ := hi
    rw [← hthr, ← hbox] at hlink
    rw [← hthr] at hruns
    constructor
    · exact hruns
    · exact hlink
    · simpa only [hthr, hbox] using hhead
    · simpa only [hbox] using hnew
    · simpa only [hthr, h.proc, h.child] using hjob
    · simpa only [hthr, h.child] using hfork

theorem Inv.initial : Inv cfg (initial cfg) := by
  refine ⟨fun i m _ => by cases m <;> rfl, fun i j _ => ?_, fun i _ hu => absurd rfl hu,
    fun _ _ => rfl, fun i => ?_, fun i _ hs => ?_⟩
  · constructor <;> simp [TmkDcl.Pipeline.initial, Pc.sendPhase, Pc.recvPhase, SendPhase.writing,
      RecvPhase.reading, Unread, GotStop]
  · constructor <;> simp [TmkDcl.Pipeline.initial, Pc.jobPhase, JobPhase.waiting, ChildPc.busy]
  · simp [TmkDcl.Pipeline.initial, Pc.starting] at hs

theorem Inv.step (ch : Chain cfg) (hi : Inv cfg s) (hs : StartInv cfg s.startView)
    (h : Move cfg s a s') : Inv cfg s' := by
  cases h with
  | thread _ h => exact hi.thread ch h
  | child h => exact hi.child h
  | main h => exact hi.main ch hs h
  | destroy h =>
    cases h <;> exact ⟨hi.runs, hi.link, hi.head, hi.head_new, hi.job, hi.forked⟩
  | raise => exact ⟨hi.runs, hi.link, hi.head, hi.head_new, hi.job, hi.forked⟩

theorem reach_inv (ch : Chain cfg) {ok : State → Label → Prop} (h : (sys cfg).Reach ok s) :
    Inv cfg s := by
  refine h.invariant (Inv cfg) ?_ fun s a s' hr hi _ hs => ?_
  · rintro s rfl
    exact .initial
  · exact hi.step ch (startInv hr) (step_move ch hs)

/-! ### The stop command comes from upstream -/

theorem Pc.recvPhase_stopped {pc : Pc} (h : pc.sendPhase = .stopped) :
    pc.recvPhase = .stopped := by
  cases pc <;> simp_all [Pc.sendPhase, Pc.recvPhase]

/-- A module that has the stop command has it from modules that are done with sending. -/
theorem Inv.upstream_stopped (ch : Chain cfg) (hi : Inv cfg s) (hj : j < cfg.modulesCnt)
    (hg : GotStop (s.thr j)) (hk : k < cfg.modulesCnt) (hlt : ch.pos k < ch.pos j) :
    (s.thr k).pc.sendPhase = .stopped := by
  induction hp : ch.pos j generalizing j with
  | zero => omega
  | succ p ih =>
    obtain ⟨i, hn⟩ := ch.exists_pred hj fun he => by
      rw [he, ch.pos_head] at hp
      omega
    have hpos := ch.pos_next hn
    have hstop : (s.thr i).pc.sendPhase = .stopped := (hi.link i j hn).stop_iff.mpr (Or.inr hg)
    by_cases hki : ch.pos k = p
    · rwa [ch.pos_inj hk (Config.lt_of_next hn) (by omega)]
    · exact ih (Config.lt_of_next hn) (Or.inr (Pc.recvPhase_stopped hstop)) (by omega) (by omega)

end Steps

end TmkDcl.Pipeline
