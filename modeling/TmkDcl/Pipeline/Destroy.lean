import TmkDcl.Pipeline.NoStop
import TmkDcl.Pipeline.Race
import TmkDcl.Pipeline.Verdict

/-!
# Destroying a live pipeline

`pipeline_destroy` joins `pipeline_thread` before it sets the exit flag
(`pipeline_server.c:194-203`), `pipeline_thread` joins the module threads, and
these wait for the flag. When all modules have been started nobody else sets it,
so no call of `pipeline_destroy` returns. When the third module or a later one
has failed to start the flag is set, but there are runs in which the stop command
does not get to all the modules that have been started.
-/

namespace TmkDcl.Pipeline

/-- Everybody who has been started has returned. -/
structure Finished (cfg : Config) (s : State) : Prop where
  modules : ∀ i, i < cfg.modulesCnt → (s.thr i).pc = .uninit ∨ (s.thr i).pc.returned
  main : s.main = .returned
  destroyer : s.destroyer = .returned

/-- Some finite continuation ends the pipeline. -/
def Destroyable (cfg : Config) (s : State) : Prop :=
  ∃ t, (sys cfg).Steps noRaise s t ∧ Finished cfg t

/-- `pipeline_destroy` has been called. -/
def State.destroyCalled (s : State) : Prop := s.destroyer ≠ .idle

instance (s : State) : Decidable s.destroyCalled := inferInstanceAs (Decidable (_ ≠ _))

section Stuck

variable {cfg : Config} {s t : State} {f i k z : ℕ}

/-- A pipeline whose flag nobody sets is never joined. -/
theorem Held.not_destroyable (hq : cfg.FailsQuietly) (hn : 0 < cfg.modulesCnt)
    (h : (sys cfg).Reach noRaise s) : ¬ Destroyable cfg s := by
  rintro ⟨t, ht, hfin⟩
  have hmain := (reach_held hq hn (h.steps ht)).main 0
  simp [hfin.main, MainPc.joined] at hmain

/-- The started modules that the join loop is over with have returned. -/
def Joined (s : State) : Prop :=
  ∀ i, i < s.realStarted → s.main.joined i = true → (s.thr i).pc.returned

theorem Joined.thread (hj : Joined s) (h : StartMove cfg s.startView k t.startView) : Joined t := by
  obtain ⟨hmain, hreal, hne⟩ := h.frame
  simp only [State.startView] at hmain hreal hne
  intro i hi hjoin
  rw [hreal] at hi
  rw [hmain] at hjoin
  have hik : i ≠ k := by
    rintro rfl
    exact h.not_returned (hj i hi hjoin)
  rw [(hne i hik).1]
  exact hj i hi hjoin

theorem Joined.main (hj : Joined s) (hst : StartInv cfg s.startView) (h : MainMove cfg s t) :
    Joined t := by
  intro i hi hjoin
  cases h
  case join k hm hk hr =>
    dsimp only at hi ⊢
    simp only [MainPc.joined, decide_eq_true_eq] at hjoin
    rcases Nat.lt_succ_iff_lt_or_eq.mp hjoin with hlt | rfl
    · exact hj i hi (by simp [hm, MainPc.joined, hlt])
    · -- a module that has been started does not have the `idx` -1
      refine hr.resolve_left fun hidx => ?_
      obtain ⟨hu, hp⟩ := hst.init_of_lt hi
      have hidx' := (hst.modules i).idx (by simp [hm, MainPc.joined])
      rw [if_neg hu, if_neg fun hs => by rw [hs] at hp; cases hp] at hidx'
      exact hst.started i hi (Config.startIdx_eq.mp (hidx'.symm.trans hidx))
  case allJoined k hm hk =>
    have hle := hst.le
    simp only [State.startView] at hle
    refine hj i hi ?_
    simp only [hm, MainPc.joined, decide_eq_true_eq]
    dsimp only at hi
    omega
  case finish hm => exact hj i hi (by simp [hm, MainPc.joined])
  case checkLive hm =>
    dsimp only at hjoin
    split at hjoin <;> simp [MainPc.joined] at hjoin
  all_goals simp [MainPc.joined] at hjoin

theorem joined {ok : State → Label → Prop} (h : (sys cfg).Reach ok s) : Joined s := by
  refine h.invariant Joined ?_ fun s a s' hr hj _ hs => ?_
  · rintro s rfl i hi
    simp [initial] at hi
  · have hchild : ∀ {k}, ChildMove cfg s k a s' → Joined s' := fun hm => by
      cases hm <;> exact hj
    cases a with
    | thread k => exact hj.thread (threadStep_start hs)
    | child k => exact hchild (pipelineProcess_move hs)
    | write k d => exact hchild (actionWrite_move hs)
    | ret k status => exact hchild (actionReturn_move hs)
    | main => exact hj.main (startInv hr) (pipelineThread_move hs)
    | destroy => cases pipelineDestroy_move hs <;> exact hj
    | raise =>
      cases hs
      exact hj

/-- A pipeline with a started module that hangs is never joined. -/
theorem Hangs.not_joined (h : (sys cfg).Reach noRaise s) (hf : cfg.Fails f) (hz : z < f)
    (hh : Hangs cfg z s) (ht : (sys cfg).Steps noRaise s t) : t.main ≠ .returned := by
  intro hm
  have hst := startInv (h.steps ht)
  have hlt := hf.lt
  have hreal : z < t.realStarted := by
    rcases hst.over_cases (by simp [hm, MainPc.starting]) with he | ⟨hf', -⟩
    · simp only [State.startView] at he
      omega
    · have : t.realStarted = f := hf'.unique hf
      omega
  exact hh t ht (joined (h.steps ht) z hreal (by simp [hm, MainPc.joined]))

theorem Hangs.not_destroyable (h : (sys cfg).Reach noRaise s) (hf : cfg.Fails f) (hz : z < f)
    (hh : Hangs cfg z s) : ¬ Destroyable cfg s := by
  rintro ⟨t, ht, hfin⟩
  exact hh.not_joined h hf hz ht hfin.main

/-- A live pipeline can be set live again behind a call of `pipeline_destroy`. -/
theorem FirstJoin.call (h : FirstJoin cfg s) :
    ∃ t, (sys cfg).Next noRaise s t ∧ (sys cfg).Reach noRaise t ∧ t.destroyCalled ∧
      t.plState = .live := by
  have hs : (sys cfg).step s .destroy = some { s with destroyer := .join } := by
    simp [sys, step, pipelineDestroy, h.destroyer]
  refine ⟨_, ⟨.destroy, by simp [noRaise], hs⟩, .step h.reach (by simp [noRaise]) hs, ?_, h.live⟩
  simp [State.destroyCalled]

theorem Hangs.next (hh : Hangs cfg z s) (hs : (sys cfg).Next noRaise s t) : Hangs cfg z t :=
  fun u hu => hh u (.head hs hu)

end Stuck

/-! ### Live states in which a started module hangs -/

section Failed

variable {cfg : Config} {s t : State} {f i k z : ℕ}

theorem exists_firstJoin (hf : cfg.Fails f) (hext : cfg.external f) (h2 : 2 ≤ f) :
    ∃ s, FirstJoin cfg s := by
  obtain ⟨s, hr, hm, hd⟩ := exists_startNext (le_of_lt hf.lt) hf.before
  have hreal : s.realStarted = f := (startInv hr).count f (by simp [hm, MainPc.starting])
  have hfail := exec_fail hm hf.lt hext hf.none (StartInv.control_startNext hr hm)
  have hlive : (sys cfg).exec (failedState s f) (liveSteps cfg.modulesCnt) = some _ :=
    exec_live rfl (by simp [failedState]; omega)
  have hreach := reach_of_exec hr (by simp [failSteps, liveSteps]) (Lts.exec_append hfail hlive)
  exact ⟨_, hreach, rfl, rfl, hd⟩

/-- Nobody gets past an upstream module that has not been started. -/
theorem hangs_upstream (ch : Chain cfg) (h : (sys cfg).Reach noRaise s) (hf : cfg.Fails f)
    (hz : z < f) (hk : k < cfg.modulesCnt) (hlt : ch.pos k < ch.pos z)
    (hs : ∀ t, (sys cfg).Steps noRaise s t → (t.thr k).pc.starting = true) : Hangs cfg z s := by
  rintro t ht (hd | hd)
  · exact not_done_upstream ch (h.steps ht) (hz.trans hf.lt) hk hlt (hs t ht) hd
  · exact (hf.before z hz).1 (((startInv (h.steps ht)).modules z).failing (Or.inr (Or.inr hd))).1

theorem hangs_next (ch : Chain cfg) (h : (sys cfg).Reach noRaise s) (hf : cfg.Fails f)
    (hz : z < f) (hn : cfg.next z = some k) (hk : f < k) : Hangs cfg z s := by
  rintro t ht (hd | hd)
  · exact not_done_next ch (h.steps ht) hn (uninit_of_fails (h.steps ht) hf hk) hd
  · exact (hf.before z hz).1 (((startInv (h.steps ht)).modules z).failing (Or.inr (Or.inr hd))).1

/-- Some module hangs when one upstream of the failed module has not been started. -/
theorem hangs_gap (ch : Chain cfg) (h : (sys cfg).Reach noRaise s) (hf : cfg.Fails f)
    (h0 : 0 < f) (hk : k < cfg.modulesCnt) (hfk : f < k) (hlt : ch.pos k < ch.pos f) :
    ∃ z, z < f ∧ Hangs cfg z s := by
  have hf0 : 0 < cfg.modulesCnt := Nat.zero_lt_of_lt hk
  have hne : ch.pos 0 ≠ ch.pos k := fun he => by
    have := ch.pos_inj hf0 hk he
    omega
  rcases Nat.lt_or_gt_of_ne hne with h1 | h1
  · obtain ⟨z, j, hn, hz, hj, hpos⟩ :=
      ch.exists_crossing (P := fun i => i < f) hf0 hk h1 h0 (by omega)
    have hjf : j ≠ f := by
      rintro rfl
      omega
    exact ⟨z, hz, hangs_next ch h hf hz hn (by omega)⟩
  · refine ⟨0, h0, hangs_upstream ch h hf h0 hk h1 fun t ht => ?_⟩
    rw [uninit_of_fails (h.steps ht) hf hfk]
    rfl

theorem hangs_head (ch : Chain cfg) (h : (sys cfg).Reach noRaise s) (hf : cfg.Fails f)
    (hext : cfg.external f) (h0 : 0 < f) (hhead : ch.pos f = 0) : Hangs cfg 0 s := by
  have hpos : ch.pos f < ch.pos 0 := by
    rw [hhead]
    refine Nat.pos_of_ne_zero fun h => ?_
    have := ch.pos_inj (h0.trans hf.lt) hf.lt (h.trans hhead.symm)
    omega
  exact hangs_upstream ch h hf h0 hf.lt hpos fun t ht => starting_of_fails (h.steps ht) hf hext

theorem SlotInv.sem_zero (h : SlotInv cfg s) (hcnt : cfg.map.dataCnt = 0) : s.ring.sem = 0 := by
  have hle := h.wf.used_le
  rw [h.maxCnt, hcnt, h.used] at hle
  omega

/-- A thread that waits for a slot goes on waiting when there is none. -/
theorem Move.popWait {a : Label} {s' : State} (h : Move cfg s a s') (hst : StartInv cfg s.startView)
    (hpc : (s.thr i).pc = .popWait) (hsem : s.ring.sem = 0) : (s'.thr i).pc = .popWait := by
  cases h with
  | @thread k _ _ h =>
    by_cases hk : i = k
    · subst hk
      cases h
      case popWait hr => omega
      all_goals simp_all
    · rwa [h.thr_of_ne hk]
  | child h => rwa [h.thr]
  | main h =>
    rcases h.create_or with ⟨k, hm, hk, rfl⟩ | ⟨hthr, -⟩
    · have hne : i ≠ k := by
        rintro rfl
        simp [hst.fresh hm] at hpc
      simpa [createModule, hne] using hpc
    · rwa [hthr]
  | destroy h => cases h <;> exact hpc
  | raise => exact hpc

/-- Without a slot the source hangs once it is past its test of the exit flag. -/
theorem Poised.hangs (ch : Chain cfg) (hcnt : cfg.map.dataCnt = 0) (h : Poised ch f s) :
    ∃ t, FirstJoin cfg t ∧ Hangs cfg ch.head t := by
  have hexec : ∃ t, (sys cfg).exec s (List.replicate 2 (.thread ch.head)) = some t ∧
      (t.thr ch.head).pc = .popWait ∧ t.plState = s.plState ∧ t.main = s.main ∧
      t.destroyer = s.destroyer := by
    simp [Lts.exec, sys, step, threadStep, ch.method_head, sourceThread, h.pc, h.st, readCmd,
      List.replicate]
  obtain ⟨t, ht, hpc, hl, hm, hd⟩ := hexec
  have hrt := reach_of_exec h.join.reach (by simp) ht
  refine ⟨t, ⟨hrt, hl.trans h.join.live, hm.trans h.join.main, hd.trans h.join.destroyer⟩, ?_⟩
  intro u hu
  have hwait : (sys cfg).Reach noRaise u ∧ (u.thr ch.head).pc = .popWait := by
    induction hu with
    | refl => exact ⟨hrt, hpc⟩
    | tail _ hs ih =>
      obtain ⟨a, ha, hs⟩ := hs
      exact ⟨.step ih.1 ha hs, (step_move ch hs).popWait (startInv ih.1) ih.2
        ((slotInv ch ih.1).sem_zero hcnt)⟩
  rintro (hr | hr) <;> simp [hwait.2] at hr

/-- When the third module or a later one fails to start the pipeline can go live
with a module that hangs. -/
theorem exists_hanging (ch : Chain cfg) (hf : cfg.Fails f) (hext : cfg.external f) (h2 : 2 ≤ f) :
    ∃ s z, FirstJoin cfg s ∧ z < f ∧ Hangs cfg z s := by
  by_cases hhead : ch.pos f = 0
  · obtain ⟨s, hs⟩ := exists_firstJoin hf hext h2
    exact ⟨s, 0, hs, by omega, hangs_head ch hs.reach hf hext (by omega) hhead⟩
  by_cases hgap : ∃ k, k < cfg.modulesCnt ∧ f < k ∧ ch.pos k < ch.pos f
  · obtain ⟨k, hk, hfk, hlt⟩ := hgap
    obtain ⟨s, hs⟩ := exists_firstJoin hf hext h2
    obtain ⟨z, hz, hh⟩ := hangs_gap ch hs.reach hf (by omega) hk hfk hlt
    exact ⟨s, z, hs, hz, hh⟩
  -- all modules before the failed one along the links have been started
  have hbefore : ∀ i, i < cfg.modulesCnt → ch.pos i < ch.pos f → i < f := fun i hi hlt => by
    have hne : i ≠ f := by
      rintro rfl
      omega
    by_contra hle
    exact hgap ⟨i, hi, by omega, hlt⟩
  obtain ⟨s, hs⟩ := exists_poised ch hf hext h2 (by omega) hbefore
  rcases Nat.eq_zero_or_pos cfg.map.dataCnt with hcnt | hcnt
  · have hhf : ch.head < f := hbefore _ ch.head_lt (by rw [ch.pos_head]; omega)
    obtain ⟨t, ht, hh⟩ := hs.hangs ch hcnt
    exact ⟨t, ch.head, ht, hhf, hh⟩
  · obtain ⟨t, ht⟩ := hs.carried ch (by omega) hcnt
    obtain ⟨u, hu, hj⟩ := ht.jam ch hf.lt (by omega) (by omega)
    obtain ⟨z, hn⟩ := ch.exists_pred hf.lt fun he => hhead (he ▸ ch.pos_head)
    have hz : z < f := hbefore z (Config.lt_of_next hn) (by rw [ch.pos_next hn]; omega)
    exact ⟨u, z, hu, hz, hj.hangs ch hu.reach hn (hf.before z hz).1⟩

end Failed

/-! ### What can be destroyed -/

section Destroy

variable {cfg : Config} {s t : State} {f i k : ℕ}

/-- The start of the pipeline fails so early, or so quietly, that it never goes live. -/
def Config.NeverLive (cfg : Config) : Prop := ∃ f, cfg.Fails f ∧ (f < 2 ∨ ¬ cfg.external f)

theorem not_live (h : (sys cfg).Reach noRaise s) (hn : cfg.NeverLive) : s.plState ≠ .live := by
  obtain ⟨f, hf, hcase⟩ := hn
  intro hl
  have hst := startInv h
  obtain ⟨hd, h2⟩ := (verdictInv h).live (Or.inl hl)
  rcases hst.over_cases (starting_of_decided hd) with hreal | ⟨hf', hret⟩
  · exact hst.started f (hreal ▸ hf.lt) hf.none
  · have hreal : s.realStarted = f := hf'.unique hf
    rcases hcase with hlt | hint
    · omega
    · have hquiet : cfg.FailsQuietly := fun g hg => by rwa [hg.unique hf]
      have hheld := reach_held hquiet (Nat.zero_lt_of_lt hf.lt) h
      exact (hst.not_failing hquiet).2 (hheld.quiet.returned hret)

theorem exists_live (ch : Chain cfg) (hok : ∀ f, ¬ cfg.Fails f) : ∃ s, FirstJoin cfg s := by
  have hall : ∀ j, j < cfg.modulesCnt → cfg.processStart j ≠ none ∧ cfg.method j ≠ none :=
    fun j hj => by
      induction j using Nat.strongRecOn with
      | _ j ih =>
        have hmeth : cfg.method j ≠ none := by simp [ch.method_pos hj]
        exact ⟨fun hn => hok j ⟨hj, hn, hmeth, fun i hi => ih i hi (hi.trans hj)⟩, hmeth⟩
  obtain ⟨s, hr, hm, hd⟩ := exists_startNext le_rfl hall
  have hreal : s.realStarted = cfg.modulesCnt :=
    (startInv hr).count _ (by simp [hm, MainPc.starting])
  have h2 : 2 ≤ cfg.modulesCnt := by
    have hlen := ch.two_le
    rwa [← ch.length_path]
  have hdec : (sys cfg).exec s [.main] = some { s with main := .decide } := by
    simp [Lts.exec, sys, step, pipelineThread, hm]
  have hlive : (sys cfg).exec { s with main := .decide } (liveSteps cfg.modulesCnt) = some _ :=
    exec_live rfl (by simp; omega)
  exact ⟨_, reach_of_exec hr (by simp [liveSteps]) (Lts.exec_append hdec hlive), rfl, rfl, hd⟩

/-- A live pipeline can be destroyed in every case only if there is no such case;
and one whose modules have all been started can be destroyed in none. -/
theorem destroy_live (ch : Chain cfg) :
    ((∀ s, (sys cfg).Reach noRaise s → s.destroyCalled → s.plState = .live → Destroyable cfg s) ↔
      cfg.NeverLive) ∧
    ((∀ f, ¬ cfg.Fails f) → ∀ s, (sys cfg).Reach noRaise s → ¬ Destroyable cfg s) := by
  have hpos : 0 < cfg.modulesCnt := Nat.zero_lt_of_lt ch.head_lt
  have hstarted : (∀ f, ¬ cfg.Fails f) → ∀ s, (sys cfg).Reach noRaise s → ¬ Destroyable cfg s :=
    fun hok s hr => Held.not_destroyable (fun f hf => absurd hf (hok f)) hpos hr
  refine ⟨⟨fun h => ?_, fun hn s hr _ hl => absurd hl (not_live hr hn)⟩, hstarted⟩
  by_contra hn
  by_cases hok : ∃ f, cfg.Fails f
  · obtain ⟨f, hf⟩ := hok
    obtain ⟨h2, hext⟩ : 2 ≤ f ∧ cfg.external f := by
      simp only [Config.NeverLive, not_exists, not_and, not_or, not_not] at hn
      exact ⟨Nat.le_of_not_lt (hn f hf).1, (hn f hf).2⟩
    obtain ⟨s, z, hs, hz, hh⟩ := exists_hanging ch hf hext h2
    obtain ⟨t, hst, hrt, hcall, hl⟩ := hs.call
    exact (hh.next hst).not_destroyable hrt hf hz (h t hrt hcall hl)
  · have hok' : ∀ f, ¬ cfg.Fails f := fun f hf => hok ⟨f, hf⟩
    obtain ⟨s, hs⟩ := exists_live ch hok'
    obtain ⟨t, -, hrt, hcall, hl⟩ := hs.call
    exact hstarted hok' t hrt (h t hrt hcall hl)

/-- A pipeline of three modules is live and `pipeline_destroy` has been called. -/
theorem destroy_live_three :
    ¬ ∀ cfg : Config, ∀ _ : Chain cfg, ∀ s, (sys cfg).Reach noRaise s → s.destroyCalled →
      s.plState = .live → Destroyable cfg s := by
  intro hall
  have hreach := Lts.reach_exec (sys (threeModules some fun _ => true)) noRaise
    (startLabels 3 ++ [.destroy]) rfl (by decide) fun _ a ha he => by
      subst he
      revert ha
      decide
  have hd := hall _ (threeModules.chain some fun _ => true) _ hreach (by decide) (by decide)
  exact Held.not_destroyable (fun f hf => absurd hf.none (by simp [threeModules])) (by decide)
    hreach hd

end Destroy

end TmkDcl.Pipeline
