import TmkDcl.Pipeline.Runs
import TmkDcl.Pipeline.Delivery

/-!
# A failed start behind a running source

When a module fails to start the modules before it in the list keep running,
and the stop command has to reach them along the links. It does not get past a
module that was never initialised, and not past the failed one either once a job
lies in its mailbox, which nobody reads. Such a job is on its way when the source
has tested the exit flag before the failure.
-/

namespace TmkDcl.Pipeline

/-! ### Who is never told to stop -/

section NeverDone

variable {cfg : Config} {s s' t : State} {f i j k z : ℕ} {ok : State → Label → Prop}

/-- A module that fails to start does not come to its loop. -/
theorem starting_of_fails (h : (sys cfg).Reach ok s) (hf : cfg.Fails f) (hext : cfg.external f) :
    (s.thr f).pc.starting = true := by
  have hno := fun hp => ((startInv h).modules f).starts hp hf.none hext
  simp only [State.startView] at hno
  cases hpc : (s.thr f).pc <;> simp_all [Pc.running, Pc.starting]

theorem uninit_of_fails (h : (sys cfg).Reach ok s) (hf : cfg.Fails f) (hk : f < k) :
    (s.thr k).pc = .uninit := by
  by_contra hu
  have hst := startInv h
  have hle := (hst.le_of_init hu).2
  exact hst.started f (by omega) hf.none

theorem Pc.sendPhase_starting {pc : Pc} (h : pc.starting = true) : pc.sendPhase = .idle := by
  cases pc <;> simp_all [Pc.starting, Pc.sendPhase]

/-- Nothing gets past a module that does not come to its loop. -/
theorem not_done_upstream (ch : Chain cfg) (h : (sys cfg).Reach ok s) (hz : z < cfg.modulesCnt)
    (hk : k < cfg.modulesCnt) (hlt : ch.pos k < ch.pos z) (hs : (s.thr k).pc.starting = true) :
    (s.thr z).pc ≠ .done := by
  intro hd
  have hstop := (reach_inv ch h).upstream_stopped ch hz (Or.inr (by rw [hd]; rfl)) hk hlt
  simp [Pc.sendPhase_starting hs] at hstop

/-- A module does not get rid of the stop command when the next one has no mailbox. -/
theorem not_done_next (ch : Chain cfg) (h : (sys cfg).Reach ok s) (hn : cfg.next z = some j)
    (hu : (s.thr j).pc = .uninit) : (s.thr z).pc ≠ .done := by
  intro hd
  have hl := (reach_inv ch h).link z j hn
  have htok := hl.tokens
  have hstop := hl.stop_iff.mp (by rw [hd]; rfl)
  simp only [hu, Pc.recvPhase, if_true] at htok
  have hnew : (s.box j).newCmd = 0 := by omega
  simp [Unread, GotStop, hu, hnew, Pc.recvPhase] at hstop

/-- A job lies in the mailbox of the failed module, and nobody reads it. -/
structure Jammed (f : ℕ) (s : State) : Prop where
  pc : (s.thr f).pc = .failed
  new : 0 < (s.box f).newCmd
  cmd : (s.box f).cmd = .job

theorem Jammed.unread (h : Jammed f s) : Unread (s.box f) (s.thr f).pc := Or.inl h.new

theorem jammed_not_done (ch : Chain cfg) (h : (sys cfg).Reach ok s) (hn : cfg.next z = some f)
    (hj : Jammed f s) : (s.thr z).pc ≠ .done := by
  intro hd
  have hstop := ((reach_inv ch h).link z f hn).stop_iff.mp (by rw [hd]; rfl)
  simp [GotStop, hj.pc, hj.cmd, Pc.recvPhase] at hstop

theorem Jammed.step (ch : Chain cfg) {a : Label} (hi : Inv cfg s) (hst : StartInv cfg s.startView)
    (hf : f < cfg.modulesCnt) (hn : cfg.next z = some f) (hj : Jammed f s) (h : Move cfg s a s') :
    Jammed f s' := by
  have hcmd := (h.unread_box ch hi hst hf hj.unread).1.trans hj.cmd
  obtain ⟨hpc, hnew, -⟩ := hj
  refine ⟨?_, ?_, hcmd⟩
  all_goals clear hcmd
  · cases h with
    | @thread k _ _ h =>
      by_cases hk : f = k
      · subst hk
        cases h
        all_goals simp_all
      · rwa [h.thr_of_ne hk]
    | child h => rwa [h.thr]
    | main h =>
      rcases h.create_or with ⟨k, hm, hk, rfl⟩ | ⟨hthr, -⟩
      · have hne : f ≠ k := by
          rintro rfl
          simp [hst.fresh hm] at hpc
        simpa [createModule, hne] using hpc
      · rwa [hthr]
    | destroy h => cases h <;> exact hpc
    | raise => exact hpc
  · cases h with
    | @thread k _ hk h =>
      by_cases hkf : f = k
      · subst hkf
        cases h
        all_goals simp_all
      · by_cases hkz : k = z
        · subst hkz
          have hsend := h.send hn (Ne.symm hkf) fun hm => by
            simp [(ch.next_none_iff hk).mpr hm] at hn
          generalize s'.box f = b' at hsend
          cases hsend <;> simp_all
        · rwa [h.box_of_ne hkf fun hn' => hkz (ch.next_inj hn' hn)]
    | child h => rwa [h.box]
    | main h =>
      rcases h.create_or with ⟨k, hm, hk, rfl⟩ | ⟨-, hbox⟩
      · have hne : f ≠ k := by
          rintro rfl
          simp [hst.fresh hm] at hpc
        simpa [createModule, hne] using hnew
      · rwa [hbox]
    | destroy h => cases h <;> exact hnew
    | raise => exact hnew

/-- The thread `z` does not return on any continuation. -/
def Hangs (cfg : Config) (z : ℕ) (s : State) : Prop :=
  ∀ t, (sys cfg).Steps noRaise s t → ¬ (t.thr z).pc.returned

theorem Jammed.hangs (ch : Chain cfg) (h : (sys cfg).Reach noRaise s) (hn : cfg.next z = some f)
    (hid : cfg.processStart z ≠ none) (hj : Jammed f s) : Hangs cfg z s := by
  intro t ht
  have hall : (sys cfg).Reach noRaise t ∧ Jammed f t := by
    induction ht with
    | refl => exact ⟨h, hj⟩
    | tail _ hs ih =>
      obtain ⟨a, ha, hs⟩ := hs
      exact ⟨.step ih.1 ha hs, ih.2.step ch (reach_inv ch ih.1) (startInv ih.1) (ch.next_lt hn) hn
        (step_move ch hs)⟩
  rintro (hd | hfail)
  · exact jammed_not_done ch hall.1 hn hall.2 hd
  · exact hid (((startInv hall.1).modules z).failing (Or.inr (Or.inr hfail))).1

end NeverDone

/-! ### The run -/

section Run

variable {cfg : Config} {s t : State} {f i j k p : ℕ}

/-- The child of the module `k` is over with a job; an action returns 0. -/
def answerStep (cfg : Config) (k : ℕ) : Label := if cfg.action k then .ret k 0 else .child k

/-- The steps in which the module `k` and its child do a job. -/
def serveSteps (cfg : Config) (k : ℕ) : List Label :=
  [.thread k, .thread k, .thread k, .child k, .child k, answerStep cfg k, .child k, .thread k]

/-- The module `k` has its slot and its child is idle. -/
structure Serving (s : State) (k : ℕ) : Prop where
  pc : (s.thr k).pc = .setCmd
  cmd : (s.thr k).cmd = .job
  semJob : (s.proc k).semJob = 0
  semResult : (s.proc k).semResult = 0
  child : (s.child k).pc = .waitJob

theorem exec_take (hm : cfg.method k = some .processThread) (hpc : (s.thr k).pc = .waitCmd)
    (hb : (s.box k).newCmd = 1) (hc : (s.box k).cmd = .job) :
    ∃ log, (sys cfg).exec s (List.replicate 4 (.thread k)) = some { s with
      thr := Function.update s.thr k ⟨.setCmd, .job, (s.box k).dataoffset⟩
      box := Function.update s.box k
        { s.box k with newCmd := 0, result := (s.box k).result + 1 }
      log := log } := by
  simp [Lts.exec, sys, step, threadStep, hm, processThread, hpc, waitCmd, hb, readCmd, readOffset,
    postResult, hc, List.replicate]

theorem exec_capture (hm : cfg.method k = some .sourceThread) (hpc : (s.thr k).pc = .checkState)
    (hst : s.st k = .live) (hc : (s.box k).cmd = .job) (hr : 0 < s.ring.sem) :
    ∃ log offs ring, (sys cfg).exec s (List.replicate 4 (.thread k)) = some { s with
      thr := Function.update s.thr k ⟨.setCmd, .job, offs⟩
      ring := ring
      log := log } := by
  simp only [List.replicate, Lts.exec, sys, step, threadStep, hm, sourceThread, hpc, hst, ringWait,
    ringTake, readCmd]
  simp only [State.goto, State.emit, if_true, Option.bind_some, Function.update_self, hr,
    Function.update_idem, hc]
  exact ⟨_, _, _, rfl⟩

theorem exec_ask {m : ThreadMethod} (hm : cfg.method k = some m)
    (hm' : m = .sourceThread ∨ m = .processThread) (hs : Serving s k) :
    ∃ log, (sys cfg).exec s [.thread k, .thread k, .thread k] = some { s with
      thr := Function.update s.thr k { s.thr k with pc := .waitResult }
      proc := Function.update s.proc k ⟨1, 0, .job, (s.thr k).dataoffset, (s.proc k).cmdResult⟩
      log := log } := by
  obtain ⟨hpc, hc, hj, hr, -⟩ := hs
  rcases hm' with rfl | rfl <;>
    simp [Lts.exec, sys, step, threadStep, hm, sourceThread, processThread, hpc, setCmd, setOffs,
      postJob, hc, hj, hr]

theorem exec_answer (cfg : Config) {offs : ℕ} {r : ℤ} (hp : s.proc k = ⟨1, 0, .job, offs, r⟩)
    (hc : (s.child k).pc = .waitJob) :
    ∃ log c, (sys cfg).exec s [.child k, .child k, answerStep cfg k, .child k] = some { s with
      proc := Function.update s.proc k ⟨0, 1, .job, offs, 0⟩
      child := Function.update s.child k c
      log := log } := by
  cases ha : cfg.action k <;>
    simp [Lts.exec, sys, step, hp, hc, answerStep, ha, pipelineProcess, actionReturn]

theorem exec_answered {m : ThreadMethod} (hm : cfg.method k = some m)
    (hm' : m = .sourceThread ∨ m = .processThread) (hs : Serving s k) :
    ∃ log c, (sys cfg).exec s ([.thread k, .thread k, .thread k] ++
      [.child k, .child k, answerStep cfg k, .child k]) = some { s with
      thr := Function.update s.thr k { s.thr k with pc := .waitResult }
      proc := Function.update s.proc k ⟨0, 1, .job, (s.thr k).dataoffset, 0⟩
      child := Function.update s.child k c
      log := log } := by
  obtain ⟨l1, h1⟩ := exec_ask hm hm' hs
  obtain ⟨l2, c, h2⟩ := exec_answer cfg (k := k) (s := { s with
      thr := Function.update s.thr k { s.thr k with pc := .waitResult }
      proc := Function.update s.proc k ⟨1, 0, .job, (s.thr k).dataoffset, (s.proc k).cmdResult⟩
      log := l1 })
    (Function.update_self ..) hs.child
  have h := Lts.exec_append h1 h2
  simp only [Function.update_idem] at h
  exact ⟨l2, c, h⟩

theorem exec_serve_process (hm : cfg.method k = some .processThread) (hs : Serving s k) :
    ∃ log c, (sys cfg).exec s (serveSteps cfg k ++ [.thread k]) = some { s with
      thr := Function.update s.thr k { s.thr k with pc := .waitNext }
      proc := Function.update s.proc k ⟨0, 0, .job, (s.thr k).dataoffset, 0⟩
      child := Function.update s.child k c
      log := log } := by
  obtain ⟨l, c, h⟩ := exec_answered hm (Or.inr rfl) hs
  have hlast : ∃ log, (sys cfg).exec { s with
      thr := Function.update s.thr k { s.thr k with pc := .waitResult }
      proc := Function.update s.proc k ⟨0, 1, .job, (s.thr k).dataoffset, 0⟩
      child := Function.update s.child k c
      log := l } [.thread k, .thread k] = some { s with
      thr := Function.update s.thr k { s.thr k with pc := .waitNext }
      proc := Function.update s.proc k ⟨0, 0, .job, (s.thr k).dataoffset, 0⟩
      child := Function.update s.child k c
      log := log } := by
    simp [Lts.exec, sys, step, threadStep, hm, processThread, waitResult]
  obtain ⟨log, hlast⟩ := hlast
  have hsteps : serveSteps cfg k ++ [.thread k] = ([.thread k, .thread k, .thread k] ++
      [.child k, .child k, answerStep cfg k, .child k]) ++ [.thread k, .thread k] := rfl
  rw [hsteps]
  exact ⟨log, c, Lts.exec_append h hlast⟩

theorem exec_serve_source (hm : cfg.method k = some .sourceThread) (hs : Serving s k) :
    ∃ log c, (sys cfg).exec s (serveSteps cfg k) = some { s with
      thr := Function.update s.thr k { s.thr k with pc := .waitNext }
      proc := Function.update s.proc k ⟨0, 0, .job, (s.thr k).dataoffset, 0⟩
      child := Function.update s.child k c
      log := log } := by
  obtain ⟨l, c, h⟩ := exec_answered hm (Or.inl rfl) hs
  have hlast : ∃ log, (sys cfg).exec { s with
      thr := Function.update s.thr k { s.thr k with pc := .waitResult }
      proc := Function.update s.proc k ⟨0, 1, .job, (s.thr k).dataoffset, 0⟩
      child := Function.update s.child k c
      log := l } [.thread k] = some { s with
      thr := Function.update s.thr k { s.thr k with pc := .waitNext }
      proc := Function.update s.proc k ⟨0, 0, .job, (s.thr k).dataoffset, 0⟩
      child := Function.update s.child k c
      log := log } := by
    simp [Lts.exec, sys, step, threadStep, hm, sourceThread, waitResult]
  obtain ⟨log, hlast⟩ := hlast
  have hsteps : serveSteps cfg k = ([.thread k, .thread k, .thread k] ++
      [.child k, .child k, answerStep cfg k, .child k]) ++ [.thread k] := rfl
  rw [hsteps]
  exact ⟨log, c, Lts.exec_append h hlast⟩

theorem exec_hand {m : ThreadMethod} (hm : cfg.method k = some m)
    (hm' : m = .sourceThread ∨ m = .processThread) (hpc : (s.thr k).pc = .waitNext)
    (hn : cfg.next k = some j) (hb : (s.box j).newCmd = 0) (hr : (s.box j).result = 1) :
    ∃ log, (sys cfg).exec s (List.replicate 4 (.thread k)) = some { s with
      thr := Function.update s.thr k { s.thr k with pc := m.entry }
      box := Function.update s.box j ⟨1, 0, .job, (s.thr k).dataoffset⟩
      log := log } := by
  rcases hm' with rfl | rfl <;>
    simp [Lts.exec, sys, step, threadStep, hm, sourceThread, processThread, hpc, waitNext, putCmd,
      putOffset, postNext, hn, hb, hr, List.replicate, ThreadMethod.entry]

/-- A module that waits for its first letter, and its child for the first job. -/
structure Ready (s : State) (k : ℕ) : Prop where
  pc : (s.thr k).pc = .waitCmd
  semJob : (s.proc k).semJob = 0
  semResult : (s.proc k).semResult = 0
  child : (s.child k).pc = .waitJob

/-- An empty mailbox. -/
def Free (s : State) (k : ℕ) : Prop := (s.box k).newCmd = 0 ∧ (s.box k).result = 1

/-- A mailbox with a job. -/
def Filled (s : State) (k : ℕ) : Prop := (s.box k).newCmd = 1 ∧ (s.box k).cmd = .job

theorem exec_pass (hm : cfg.method k = some .processThread) (hn : cfg.next k = some j)
    (hne : k ≠ j) (hk : Ready s k) (hb : Filled s k) (hj : Free s j) :
    ∃ log c p b t, (sys cfg).exec s (List.replicate 4 (.thread k) ++
      (serveSteps cfg k ++ [.thread k] ++ List.replicate 4 (.thread k))) = some { s with
        thr := Function.update s.thr k t
        box := Function.update (Function.update s.box k b) j
          ⟨1, 0, .job, (s.box k).dataoffset⟩
        proc := Function.update s.proc k p
        child := Function.update s.child k c
        log := log } := by
  obtain ⟨l1, h1⟩ := exec_take hm hk.pc hb.1 hb.2
  obtain ⟨l2, c, h2⟩ := exec_serve_process hm (s := { s with
      thr := Function.update s.thr k ⟨.setCmd, .job, (s.box k).dataoffset⟩
      box := Function.update s.box k { s.box k with newCmd := 0, result := (s.box k).result + 1 }
      log := l1 })
    ⟨by simp, by simp, hk.semJob, hk.semResult, hk.child⟩
  have h12 := Lts.exec_append h1 h2
  simp only [Function.update_self, Function.update_idem] at h12
  obtain ⟨l3, h3⟩ := exec_hand hm (Or.inr rfl) (s := { s with
      thr := Function.update s.thr k ⟨.waitNext, .job, (s.box k).dataoffset⟩
      box := Function.update s.box k { s.box k with newCmd := 0, result := (s.box k).result + 1 }
      proc := Function.update s.proc k ⟨0, 0, .job, (s.box k).dataoffset, 0⟩
      child := Function.update s.child k c
      log := l2 })
    (by simp) hn (by simpa [hne.symm] using hj.1) (by simpa [hne.symm] using hj.2)
  have h := Lts.exec_append h12 h3
  simp only [Function.update_self, Function.update_idem, List.append_assoc] at h
  simp only [List.append_assoc]
  exact ⟨_, _, _, _, _, h⟩

/-- The pipeline is live, `pipeline_thread` in its first join and `pipeline_destroy` not called. -/
structure FirstJoin (cfg : Config) (s : State) : Prop where
  reach : (sys cfg).Reach noRaise s
  live : s.plState = .live
  main : s.main = .join 0
  destroyer : s.destroyer = .idle

/-- The job of the source lies in the mailbox at the place `p`, and the modules
from there to the failed one are idle. -/
structure Carried (ch : Chain cfg) (f p : ℕ) (s : State) : Prop where
  join : FirstJoin cfg s
  failed : (s.thr f).pc = .failed
  ready : ∀ i, i < cfg.modulesCnt → p ≤ ch.pos i → ch.pos i < ch.pos f → Ready s i
  free : ∀ i, i < cfg.modulesCnt → p < ch.pos i → ch.pos i ≤ ch.pos f → Free s i
  filled : ∀ i, i < cfg.modulesCnt → ch.pos i = p → Filled s i

theorem Carried.next (ch : Chain cfg) (hf : f < cfg.modulesCnt) (hp : 0 < p) (hlt : p < ch.pos f)
    (h : Carried ch f p s) : ∃ t, Carried ch f (p + 1) t := by
  obtain ⟨⟨hr, hl, hm, hd⟩, hfail, hready, hfree, hfilled⟩ := h
  have hlen := ch.pos_lt hf
  have hk := ch.lt_of_path (List.getElem?_eq_getElem (show p < ch.path.length by omega))
  have hpos := ch.pos_of_path (List.getElem?_eq_getElem (show p < ch.path.length by omega))
  generalize ch.path[p] = k at hk hpos
  obtain ⟨j, hn⟩ := Option.ne_none_iff_exists'.mp fun hn => by
    have := ch.pos_final hk ((ch.next_none_iff hk).mp hn)
    omega
  have hjpos := ch.pos_next hn
  have hkj : k ≠ j := ch.next_ne_self hn
  have hmeth : cfg.method k = some .processThread := by
    rw [ch.method_pos hk, chainMethod, if_neg (by omega), if_neg (by omega)]
  have hne : ∀ i, ch.pos i ≠ p → i ≠ k := fun i hi he => hi (he ▸ hpos)
  obtain ⟨log, c, q, b, t, hexec⟩ := exec_pass hmeth hn hkj (hready k hk (by omega) (by omega))
    (hfilled k hk hpos) (hfree j (ch.next_lt hn) (by omega) (by omega))
  have hreach := reach_of_exec hr (by cases ha : cfg.action k <;> simp [serveSteps, answerStep, ha])
    hexec
  refine ⟨_, ⟨hreach, hl, hm, hd⟩, ?_, fun i hi h1 h2 => ?_, fun i hi h1 h2 => ?_, fun i hi h1 => ?_⟩
  · simpa [hne f (by omega)] using hfail
  · have hik := hne i (by omega)
    obtain ⟨hpc, hj, hr, hc⟩ := hready i hi (by omega) h2
    exact ⟨by simpa [hik] using hpc, by simpa [hik] using hj, by simpa [hik] using hr,
      by simpa [hik] using hc⟩
  · have hik := hne i (by omega)
    have hij : i ≠ j := by
      rintro rfl
      omega
    simpa [Free, hik, hij] using hfree i hi (by omega) h2
  · obtain rfl : i = j := ch.pos_inj hi (ch.next_lt hn) (by omega)
    simp [Filled]

/-- The job comes to the mailbox of the failed module. -/
theorem Carried.jam (ch : Chain cfg) (hf : f < cfg.modulesCnt) (hp : 0 < p) (hle : p ≤ ch.pos f)
    (h : Carried ch f p s) : ∃ t, FirstJoin cfg t ∧ Jammed f t := by
  induction hn : ch.pos f - p generalizing p s with
  | zero =>
    obtain ⟨hnew, hcmd⟩ := h.filled f hf (by omega)
    exact ⟨s, h.join, h.failed, by omega, hcmd⟩
  | succ n ih =>
    obtain ⟨t, ht⟩ := h.next ch hf hp (by omega)
    exact ih (by omega) (by omega) ht (by omega)

/-- The source has tested the exit flag before the module `f` failed, and all is set live. -/
structure Poised (ch : Chain cfg) (f : ℕ) (s : State) : Prop where
  join : FirstJoin cfg s
  failed : (s.thr f).pc = .failed
  ready : ∀ i, i < cfg.modulesCnt → 0 < ch.pos i → ch.pos i < ch.pos f → Ready s i
  free : ∀ i, i < cfg.modulesCnt → 0 < ch.pos i → ch.pos i ≤ ch.pos f → Free s i
  pc : (s.thr ch.head).pc = .checkState
  st : s.st ch.head = .live
  cmd : (s.box ch.head).cmd = .job
  semJob : (s.proc ch.head).semJob = 0
  semResult : (s.proc ch.head).semResult = 0
  child : (s.child ch.head).pc = .waitJob
  sem : s.ring.sem = cfg.map.dataCnt

/-- With a slot to take the source posts a job to the next module. -/
theorem Poised.carried (ch : Chain cfg) (hpos : 0 < ch.pos f)
    (hcnt : 0 < cfg.map.dataCnt) (h : Poised ch f s) : ∃ t, Carried ch f 1 t := by
  obtain ⟨⟨hr, hl, hm, hd⟩, hfail, hready, hfree, hpc, hst, hcmd, hj, hres, hc, hsem⟩ := h
  obtain ⟨j, hn⟩ := Option.ne_none_iff_exists'.mp fun hn => by
    have h1 := ch.pos_final ch.head_lt ((ch.next_none_iff ch.head_lt).mp hn)
    have h2 := ch.two_le
    rw [ch.pos_head] at h1
    omega
  have hjpos := ch.pos_next hn
  rw [ch.pos_head] at hjpos
  have hhj : ch.head ≠ j := ch.next_ne_self hn
  have hne : ∀ i, 0 < ch.pos i → i ≠ ch.head := fun i hi he => by
    rw [he, ch.pos_head] at hi
    omega
  obtain ⟨hb, hb'⟩ := hfree j (ch.next_lt hn) (by omega) (by omega)
  obtain ⟨l1, offs, ring, h1⟩ := exec_capture ch.method_head hpc hst hcmd (by omega)
  obtain ⟨l2, c, h2⟩ := exec_serve_source ch.method_head (s := { s with
      thr := Function.update s.thr ch.head ⟨.setCmd, .job, offs⟩, ring := ring, log := l1 })
    ⟨by simp, by simp, hj, hres, hc⟩
  have h12 := Lts.exec_append h1 h2
  simp only [Function.update_self, Function.update_idem] at h12
  obtain ⟨l3, h3⟩ := exec_hand ch.method_head (Or.inl rfl) (s := { s with
      thr := Function.update s.thr ch.head ⟨.waitNext, .job, offs⟩
      ring := ring
      proc := Function.update s.proc ch.head ⟨0, 0, .job, offs, 0⟩
      child := Function.update s.child ch.head c
      log := l2 }) (by simp) hn hb hb'
  have hreach := reach_of_exec hr
    (by cases ha : cfg.action ch.head <;> simp [serveSteps, answerStep, ha])
    (Lts.exec_append h12 h3)
  refine ⟨_, ⟨hreach, hl, hm, hd⟩, ?_, fun i hi h1 h2 => ?_, fun i hi h1 h2 => ?_, fun i hi h1 => ?_⟩
  · simpa [hne f hpos] using hfail
  · have hih := hne i (by omega)
    obtain ⟨hpc, hj, hr, hc⟩ := hready i hi (by omega) h2
    exact ⟨by simpa [hih] using hpc, by simpa [hih] using hj, by simpa [hih] using hr,
      by simpa [hih] using hc⟩
  · have hij : i ≠ j := by
      rintro rfl
      omega
    simpa [Free, hij] using hfree i hi (by omega) h2
  · obtain rfl : i = j := ch.pos_inj hi (ch.next_lt hn) (by omega)
    simp [Filled]

/-- The modules before `k` have been started, and the source has tested the exit flag. -/
structure Begun (ch : Chain cfg) (k : ℕ) (s : State) : Prop where
  reach : (sys cfg).Reach noRaise s
  main : s.main = .startNext k
  flag : s.exitFlag = false
  destroyer : s.destroyer = .idle
  proc : ∀ i, (s.proc i).semJob = 0 ∧ (s.proc i).semResult = 0
  sem : s.ring.sem = cfg.map.dataCnt
  head : ch.head < k → (s.thr ch.head).pc = .checkState ∧ s.st ch.head = .init ∧
    (s.box ch.head).cmd = .job ∧ (s.child ch.head).pc = .waitJob
  process : ∀ i, i < k → cfg.method i = some .processThread → Ready s i ∧ Free s i

theorem Begun.next (ch : Chain cfg) (hk : k < cfg.modulesCnt) (hid : cfg.processStart k ≠ none)
    (h : Begun ch k s) : ∃ t, Begun ch (k + 1) t := by
  obtain ⟨hr, hm, hflag, hd, hproc, hsem, hhead, hprocess⟩ := h
  obtain ⟨id, hid⟩ := Option.ne_none_iff_exists'.mp hid
  have hc := StartInv.control_startNext hr hm
  by_cases hkh : k = ch.head
  · subst hkh
    have h1 := exec_start hm hk ch.method_head hid hc
    have h2 : (sys cfg).exec (startedState s ch.head .sourceThread id) [.thread ch.head] =
        some ((startedState s ch.head .sourceThread id).goto ch.head .checkState) := by
      simp [Lts.exec, sys, step, threadStep, ch.method_head, sourceThread, startedState, hflag,
        ThreadMethod.entry]
    refine ⟨_, reach_of_exec hr (by simp [startSteps]) (Lts.exec_append h1 h2), rfl, hflag, hd,
      hproc, hsem, fun _ => by simp [startedState, ThreadMethod.forked], fun i hi hmeth => ?_⟩
    have hne : i ≠ ch.head := by
      rintro rfl
      simp [ch.method_head] at hmeth
    obtain ⟨⟨hpc, hj, hres, hch⟩, hb, hb'⟩ := hprocess i (by omega) hmeth
    exact ⟨⟨by simpa [startedState, hne] using hpc, hj, hres, by simpa [startedState, hne] using hch⟩,
      by simpa [startedState, hne] using hb, by simpa [startedState, hne] using hb'⟩
  · have hsome : cfg.method k ≠ none := by
      intro hn
      rcases ch.method_cases hk with h | h | h <;> rw [hn] at h <;> cases h
    obtain ⟨m, hmeth⟩ := Option.ne_none_iff_exists'.mp hsome
    have h1 := exec_start hm hk hmeth hid hc
    refine ⟨_, reach_of_exec hr (by simp [startSteps]) h1, rfl, hflag, hd, hproc, hsem,
      fun hlt => ?_, fun i hi hmeth' => ?_⟩
    · simpa [startedState, Ne.symm hkh] using hhead (by omega)
    · by_cases hik : i = k
      · subst hik
        obtain rfl := Option.some_inj.mp (hmeth.symm.trans hmeth')
        obtain ⟨hj, hres⟩ := hproc i
        exact ⟨⟨by simp [startedState, ThreadMethod.entry], hj, hres,
          by simp [startedState, ThreadMethod.forked]⟩, by simp [Free, startedState]⟩
      · obtain ⟨⟨hpc, hj, hres, hch⟩, hb, hb'⟩ := hprocess i (by omega) hmeth'
        exact ⟨⟨by simpa [startedState, hik] using hpc, hj, hres,
          by simpa [startedState, hik] using hch⟩,
          by simpa [startedState, hik] using hb, by simpa [startedState, hik] using hb'⟩

theorem exists_begun (ch : Chain cfg) (hk : k ≤ cfg.modulesCnt)
    (hok : ∀ j, j < k → cfg.processStart j ≠ none) : ∃ s, Begun ch k s := by
  induction k with
  | zero =>
    refine ⟨_, .init rfl, rfl, rfl, rfl, fun i => ⟨rfl, rfl⟩, ?_, by simp, by simp⟩
    simp [initial, ringBufferCreate]
  | succ k ih =>
    obtain ⟨s, hs⟩ := ih (by omega) fun j hj => hok j (by omega)
    exact hs.next ch (by omega) (hok k (by omega))

/-- The third module or a later one fails behind a running source, and the pipeline goes live. -/
theorem exists_poised (ch : Chain cfg) (hf : cfg.Fails f) (hext : cfg.external f) (h2 : 2 ≤ f)
    (hpos : 0 < ch.pos f) (hstarted : ∀ i, i < cfg.modulesCnt → ch.pos i < ch.pos f → i < f) :
    ∃ s, Poised ch f s := by
  obtain ⟨s, hr, hm, hflag, hd, hproc, hsem, hhead, hprocess⟩ :=
    exists_begun ch (le_of_lt hf.lt) fun j hj => (hf.before j hj).1
  have hreal : s.realStarted = f := (startInv hr).count f (by simp [hm, MainPc.starting])
  have hlive : (sys cfg).exec (failedState s f) (liveSteps cfg.modulesCnt) = some _ :=
    exec_live rfl (by simp [failedState]; omega)
  have hexec := Lts.exec_append
    (exec_fail hm hf.lt hext hf.none (StartInv.control_startNext hr hm)) hlive
  have hhf : ch.head < f := hstarted _ ch.head_lt (by rw [ch.pos_head]; exact hpos)
  obtain ⟨hpc, hst, hcmd, hchild⟩ := hhead hhf
  have hne : ∀ i, ch.pos i < ch.pos f → i ≠ f := fun i hi he => by
    rw [he] at hi
    omega
  have hprocess' : ∀ i, i < cfg.modulesCnt → 0 < ch.pos i → ch.pos i < ch.pos f →
      Ready s i ∧ Free s i := fun i hi h1 h2 => by
    have hlen := ch.pos_lt hf.lt
    refine hprocess i (hstarted i hi h2) ?_
    rw [ch.method_pos hi, chainMethod, if_neg (by omega), if_neg (by omega)]
  refine ⟨_, ⟨reach_of_exec hr (by simp [failSteps, liveSteps]) hexec, rfl, rfl, hd⟩, ?_,
    fun i hi h1 h2 => ?_, fun i hi h1 h2 => ?_, ?_, ?_, ?_, (hproc _).1, (hproc _).2, hchild, hsem⟩
  · simp [liveState, failedState]
  · obtain ⟨hpci, hj, hres, hch⟩ := (hprocess' i hi h1 h2).1
    exact ⟨by simpa [liveState, failedState, hne i h2] using hpci, hj, hres, hch⟩
  · by_cases hif : i = f
    · simp [Free, liveState, failedState, hif]
    · have hlt : ch.pos i < ch.pos f := lt_of_le_of_ne h2 fun he => hif (ch.pos_inj hi hf.lt he)
      simpa [Free, liveState, failedState, hif] using (hprocess' i hi h1 hlt).2
  · simpa [liveState, failedState, hhf.ne] using hpc
  · simp [liveState, failedState, hhf.ne, ch.head_lt, hst, pipelineModuleSetState]
  · simpa [liveState, failedState, hhf.ne] using hcmd

end Run

end TmkDcl.Pipeline
