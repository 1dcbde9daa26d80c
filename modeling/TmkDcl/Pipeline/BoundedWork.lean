import TmkDcl.Pipeline.Shutdown

/-!
# How much work a slot makes

A slot that the head takes out of the ring is handed down the links, and each module on its way does a
bounded number of steps for it. The load of a module adds up the steps that its thread and its child
still owe: those of the statement the thread is at, those of the letters that wait in its mailbox with
all that they will cause further down, and those of the job its child has been posted. Every step lowers
the sum of the loads, except the one that takes a slot.
-/

namespace TmkDcl.Pipeline

/-- The steps a thread still owes before it waits for new work. `rest` is what a letter to the next
module costs there, and the head (`src`) comes back to its test of the exit flag. -/
def Pc.effort (src flag : Bool) (rest : ℕ) : Pc → ℕ
  | .uninit | .failed | .done | .waitCmd | .writeTest | .checkNextIdx => 0
  | .failPost => 1
  | .failFlag => 2
  | .start => 33 + rest
  | .startPost => 32 + rest
  | .checkExit => (if flag then 20 else 24) + rest
  | .checkState => 23 + rest
  | .readOwnCmd => 22 + rest
  | .popWait => 21 + rest
  | .popTake => 20 + rest
  | .readCmd => 31 + rest
  | .readOffset => 30 + rest
  | .postResult => 29 + rest
  | .clean => 28
  | .setCmd => 28 + rest + if src then 24 + rest else 0
  | .setOffs => 27 + rest + if src then 24 + rest else 0
  | .postJob => 26 + rest + if src then 24 + rest else 0
  | .waitResult => 21 + rest + if src then 24 + rest else 0
  | .readResult => 20 + rest + if src then 24 + rest else 0
  | .waitNext => 19 + rest + if src then 24 + rest else 0
  | .putCmd => 18 + rest + if src then 24 + rest else 0
  | .putOffset => 17 + rest + if src then 24 + rest else 0
  | .postNext => 16 + rest + if src then 24 + rest else 0
  | .push => 15
  | .pushPost => 14
  | .stopWaitNext => 19 + rest
  | .stopPutCmd => 18 + rest
  | .stopPostNext => 17 + rest
  | .stopSetCmd => 12
  | .stopPostJob => 11
  | .stopWaitResult => 6
  | .setInit => 1

/-- The steps a child still owes for the job it has begun. -/
def ChildPc.effort : ChildPc → ℕ
  | .readCmd => 3
  | .action => 2
  | .post _ => 1
  | _ => 0

/-- The thread is about to post the mailbox of the next module. -/
def Pc.mails : Pc → Bool
  | .postNext | .stopPostNext => true
  | _ => false

namespace Chain

variable {cfg : Config} (ch : Chain cfg)

/-- What a letter to the module behind `k` costs there and further down. -/
def rest (k : ℕ) : ℕ := 32 * (ch.path.length - 1 - ch.pos k)

/-- The steps that the thread and the child of a module owe. -/
def load (s : State) (k : ℕ) : ℕ :=
  (s.thr k).pc.effort (cfg.method k = some .sourceThread) s.exitFlag (ch.rest k) +
    (32 + ch.rest k) * (s.box k).newCmd + 4 * (s.proc k).semJob + (s.child k).pc.effort

/-- The steps that all modules owe. -/
def work (s : State) : ℕ := ∑ k ∈ Finset.range cfg.modulesCnt, ch.load s k

/-- What a slot that the head takes adds to the work. -/
def slotWork : ℕ := 33 + ch.rest ch.head

theorem rest_next {k j : ℕ} (hn : cfg.next k = some j) : ch.rest k = 32 + ch.rest j := by
  have hpos := ch.pos_next hn
  have hlt := ch.pos_lt (ch.next_lt hn)
  unfold rest
  omega

end Chain

section Effort

variable {cfg : Config} {s s' : State} {i j k : ℕ} {a : Label} (ch : Chain cfg)

theorem Pc.effort_flag {src : Bool} {n : ℕ} (pc : Pc) :
    pc.effort src true n ≤ pc.effort src false n := by
  cases pc <;> simp [Pc.effort]

theorem ThreadMove.exitFlag (h : ThreadMove cfg s k s') :
    s'.exitFlag = s.exitFlag ∨ s'.exitFlag = true := by
  cases h
  case failFlag => exact Or.inr rfl
  all_goals exact Or.inl rfl

/-- Only a sender adds to the mailbox of another module. -/
theorem ThreadMove.newCmd_of_ne (h : ThreadMove cfg s k s') (hi : i ≠ k) :
    (s'.box i).newCmd =
      (s.box i).newCmd + if cfg.next k = some i ∧ (s.thr k).pc.mails = true then 1 else 0 := by
  by_cases hn : cfg.next k = some i
  · cases h
    case waitNext hpc hn' _ | stopWaitNext hpc hn' _ | putCmd hpc hn' | putOffset hpc hn'
      | stopPutCmd hpc hn' | stopPostNext hpc hn' | postNext hpc hn' _ _ =>
      cases hn.symm.trans hn'
      simp [Pc.mails, hpc, hn]
    case waitCmd hpc _ _ | postStop hpc _ _ _ _ | postTaken hpc _ _ _ _ =>
      simp [Pc.mails, hpc, Function.update_of_ne hi]
    all_goals
      rename_i hpc
      simp_all [Pc.mails]
  · rw [h.box_of_ne hi hn, if_neg fun hc => hn hc.1, Nat.add_zero]

/-- A step of another thread adds to the load of a module what it puts into its mailbox. -/
theorem ThreadMove.load_of_ne (h : ThreadMove cfg s k s') (hi : i ≠ k) :
    ch.load s' i ≤ ch.load s i +
      if cfg.next k = some i ∧ (s.thr k).pc.mails = true then 32 + ch.rest i else 0 := by
  have hpc : (s.thr i).pc.effort (cfg.method i = some .sourceThread) s'.exitFlag (ch.rest i) ≤
      (s.thr i).pc.effort (cfg.method i = some .sourceThread) s.exitFlag (ch.rest i) := by
    rcases h.exitFlag with he | he
    · rw [he]
    · rw [he]
      cases s.exitFlag with
      | true => exact le_refl _
      | false => exact Pc.effort_flag _
  unfold Chain.load
  rw [h.thr_of_ne hi, h.newCmd_of_ne hi, h.proc_of_ne hi, h.child_of_ne hi, Nat.mul_add]
  split <;> omega

/-- A step of a thread lowers the load of its module by itself and by what it puts into the next
mailbox, unless it takes a slot. -/
theorem ThreadMove.load_self (h : ThreadMove cfg s k s') (hself : cfg.next k ≠ some k)
    (hlive : (s.thr k).pc = .checkState → s.exitFlag = true ∨ s.st k = .live) :
    1 + ch.load s' k + (if (s.thr k).pc.mails = true then ch.rest k else 0) ≤
      ch.load s k + if (s.thr k).pc = .popTake then 33 + ch.rest k else 0 := by
  have hne : ∀ {j : ℕ}, cfg.next k = some j → k ≠ j := fun hn he => hself (he ▸ hn)
  unfold Chain.load
  cases h
  case waitCmd hpc _ hr =>
    obtain ⟨n, hn⟩ := Nat.exists_eq_add_one.mpr hr
    simp only [State.goto, State.setBox, Function.update_self, hpc, hn, Pc.effort, Pc.mails,
      Nat.add_sub_cancel, Nat.mul_add]
    simp
    omega
  case checkState hpc _ =>
    rcases hlive hpc with he | he
    · by_cases hl : s.st k = .live <;> simp [hpc, hl, he, Pc.effort, Pc.mails] <;> omega
    · simp [hpc, he, Pc.effort, Pc.mails]
      omega
  case startPost hpc pc hs =>
    subst hs
    by_cases hm : cfg.method k = some .sourceThread <;> simp [hpc, hm, Pc.effort, Pc.mails]
    · split <;> omega
    · omega
  case postNext hpc hn pc hs =>
    subst hs
    by_cases hm : cfg.method k = some .sourceThread <;>
      simp [hpc, hm, Pc.effort, Pc.mails, hne hn]
    · split <;> omega
    · omega
  case stopWaitResult hpc pc hs _ | postStop hpc _ _ pc hs | postTaken hpc _ _ pc hs =>
    subst hs
    split <;> simp [Pc.effort, Pc.mails, *] <;> omega
  case checkExit hpc _ | readResult hpc _ =>
    split <;> simp [Pc.effort, Pc.mails, *] <;> omega
  case waitNext hpc hn _ | stopWaitNext hpc hn _ | putCmd hpc hn | putOffset hpc hn
    | stopPutCmd hpc hn | stopPostNext hpc hn =>
    simp [hpc, Pc.effort, Pc.mails, hne hn]
    omega
  all_goals
    simp_all [Pc.effort, ChildPc.effort, Pc.mails]
    all_goals omega

/-- The loads of the other modules grow by the one letter that a thread puts into a mailbox. -/
theorem ThreadMove.load_others (h : ThreadMove cfg s k s') :
    ∑ i ∈ (Finset.range cfg.modulesCnt).erase k, ch.load s' i ≤
      ∑ i ∈ (Finset.range cfg.modulesCnt).erase k, ch.load s i +
        if (s.thr k).pc.mails = true then ch.rest k else 0 := by
  have hle := Finset.sum_le_sum (s := (Finset.range cfg.modulesCnt).erase k) fun i hi =>
    h.load_of_ne ch (Finset.ne_of_mem_erase hi)
  rw [Finset.sum_add_distrib] at hle
  refine hle.trans (Nat.add_le_add_left ?_ _)
  by_cases hmail : (s.thr k).pc.mails = true
  · simp only [hmail, and_true, if_true]
    cases hn : cfg.next k with
    | none => simp
    | some j =>
      have hmem : j ∈ (Finset.range cfg.modulesCnt).erase k :=
        Finset.mem_erase.mpr ⟨(ch.next_ne_self hn).symm, Finset.mem_range.mpr (ch.next_lt hn)⟩
      simp only [Option.some.injEq]
      rw [Finset.sum_ite_eq, if_pos hmem, ch.rest_next hn]
  · simp [hmail]

/-- Every step of a thread lowers the work, except the one that takes a slot. -/
theorem ThreadMove.work (h : ThreadMove cfg s k s') (hk : k < cfg.modulesCnt)
    (hlive : (s.thr k).pc = .checkState → s.exitFlag = true ∨ s.st k = .live) :
    1 + ch.work s' ≤ ch.work s + if (s.thr k).pc = .popTake then 33 + ch.rest k else 0 := by
  have hmem := Finset.mem_range.mpr hk
  have hself := h.load_self ch (fun hn => ch.next_ne_self hn rfl) hlive
  have hothers := h.load_others ch
  unfold Chain.work
  rw [← Finset.add_sum_erase _ _ hmem, ← Finset.add_sum_erase _ (ch.load s) hmem]
  omega

theorem ChildMove.load_of_ne (h : ChildMove cfg s k a s') (hi : i ≠ k) :
    ch.load s' i = ch.load s i := by
  have hflag : s'.exitFlag = s.exitFlag := by cases h <;> rfl
  have hchild : s'.child i = s.child i := h.child_of_ne hi
  unfold Chain.load
  rw [h.thr, h.box, h.proc_of_ne hi, hchild, hflag]

/-- A step of the child; a write of its action is not counted. -/
def Label.counts : Label → Bool
  | .thread _ | .child _ | .ret _ _ => true
  | _ => false

theorem ChildMove.load_self (h : ChildMove cfg s k a s') :
    a.counts.toNat + ch.load s' k ≤ ch.load s k := by
  unfold Chain.load
  cases h
  case waitJob hpc hr =>
    obtain ⟨n, hn⟩ := Nat.exists_eq_add_one.mpr hr
    simp [hpc, hn, ChildPc.effort, Label.counts]
    omega
  case post exitFlag hpc =>
    cases exitFlag <;> simp [hpc, ChildPc.effort, Label.counts] <;> omega
  all_goals simp_all [ChildPc.effort, Label.counts] <;> omega

theorem ChildMove.work (h : ChildMove cfg s k a s') (hk : k < cfg.modulesCnt) :
    a.counts.toNat + ch.work s' ≤ ch.work s := by
  have hsum := Places.sum_change (f := ch.load s) (g := ch.load s') (Finset.mem_range.mpr hk)
    fun i hi => h.load_of_ne ch hi
  have hself := h.load_self ch
  unfold Chain.work
  omega

/-- What the work depends on. -/
theorem Chain.work_le (hthr : s'.thr = s.thr) (hbox : s'.box = s.box) (hproc : s'.proc = s.proc)
    (hchild : s'.child = s.child) (hflag : s'.exitFlag = s.exitFlag ∨ s'.exitFlag = true) :
    ch.work s' ≤ ch.work s := by
  refine Finset.sum_le_sum fun i _ => ?_
  unfold Chain.load
  rw [hthr, hbox, hproc, hchild]
  rcases hflag with he | he
  · rw [he]
  · have hpc : (s.thr i).pc.effort (cfg.method i = some .sourceThread) true (ch.rest i) ≤
        (s.thr i).pc.effort (cfg.method i = some .sourceThread) false (ch.rest i) :=
      Pc.effort_flag _
    rw [he]
    cases s.exitFlag <;> omega

end Effort

/-! ### Runs -/

section Runs

variable {cfg : Config} {s s' t : State} {i j k : ℕ} {a : Label} (ch : Chain cfg)

/-- An entry of the log for a slot taken out of the ring. -/
def Event.isPop : Event → Bool
  | .pop .. => true
  | _ => false

/-- The slots taken out of the ring so far. -/
def State.pops (s : State) : ℕ := s.log.countP Event.isPop

theorem ThreadMove.pops (h : ThreadMove cfg s k s') :
    s'.pops = s.pops + if (s.thr k).pc = .popTake then 1 else 0 := by
  unfold State.pops
  cases h
  all_goals simp_all [Event.isPop, finishEvent]

theorem ChildMove.pops (h : ChildMove cfg s k a s') : s'.pops = s.pops := by
  unfold State.pops
  cases h <;> simp [Event.isPop]

/-- The head does not turn round between its two tests: the exit flag is set, or the head is live, or
it has returned. -/
def Driven (s : State) : Prop :=
  s.exitFlag = true ∨ s.st ch.head = .live ∨ (s.thr ch.head).pc.returned

theorem ThreadMove.not_returned (h : ThreadMove cfg s k s') : ¬ (s.thr k).pc.returned := by
  cases h <;> simp_all [Pc.returned]

theorem Driven.thread (hd : Driven ch s) (h : ThreadMove cfg s k s') : Driven ch s' := by
  by_cases hk : ch.head = k
  · subst hk
    rcases hd with hd | hd | hd
    · exact Or.inl (h.exitFlag.elim (fun he => he.trans hd) id)
    · cases h
      case setInit => exact Or.inr (Or.inr (Or.inl (by simp)))
      case failFlag => exact Or.inl rfl
      all_goals exact Or.inr (Or.inl hd)
    · exact absurd hd h.not_returned
  · rcases hd with hd | hd | hd
    · exact Or.inl (h.exitFlag.elim (fun he => he.trans hd) id)
    · refine Or.inr (Or.inl ?_)
      cases h
      case setInit => simpa [Function.update_of_ne hk] using hd
      all_goals exact hd
    · exact Or.inr (Or.inr (by rw [h.thr_of_ne hk]; exact hd))

theorem MainMove.keeps_started (h : MainMove cfg s s') (hs : Started s) : Started s' := by
  unfold Started at *
  cases h
  case checkLive hm =>
    dsimp only
    split <;> rfl
  all_goals simp_all [MainPc.starting]

/-- Past the start loop `pipeline_thread` touches none of the fields the work depends on. -/
theorem MainMove.frame (h : MainMove cfg s s') (hs : Started s) :
    s'.thr = s.thr ∧ s'.box = s.box ∧ s'.exitFlag = s.exitFlag := by
  unfold Started at hs
  cases h
  case create hm _ => simp [hm, MainPc.starting] at hs
  all_goals exact ⟨rfl, rfl, rfl⟩

theorem Driven.main (hd : Driven ch s) (hst : StartInv cfg s.startView) (hs : Started s)
    (hhead : cfg.processStart ch.head ≠ none) (hrun : (s.thr ch.head).pc.running = true)
    (h : MainMove cfg s s') : Driven ch s' := by
  obtain ⟨hthr, -, hflag⟩ := h.frame hs
  rcases hd with hd | hd | hd
  · exact Or.inl (hflag.trans hd)
  · cases h
    case create hm _ | started hm _ | joinFailed hm _ => simp [Started, hm, MainPc.starting] at hs
    case setLive k hm hk =>
      refine Or.inr (Or.inl ?_)
      by_cases he : ch.head = k
      · subst he
        simp [hd, pipelineModuleSetState]
      · simpa [Function.update_of_ne he] using hd
    case join k hm hk hr =>
      by_cases he : ch.head = k
      · subst he
        have hidx := (hst.modules ch.head).idx (by simp [State.startView, hm, MainPc.joined])
        have hne : (s.thr ch.head).pc ≠ .uninit ∧ (s.thr ch.head).pc ≠ .start :=
          ⟨fun hu => by simp [hu, Pc.running] at hrun, fun hu => by simp [hu, Pc.running] at hrun⟩
        refine Or.inr (Or.inr (hr.resolve_left fun hi => hhead ?_))
        simp only [State.startView, hne, if_false] at hidx
        exact Config.startIdx_eq.mp (hidx.symm.trans hi)
      · exact Or.inr (Or.inl (by simpa [Function.update_of_ne he] using hd))
    all_goals exact Or.inr (Or.inl hd)
  · exact Or.inr (Or.inr (by rw [hthr]; exact hd))

/-- A state past the start of all modules in which the head works. -/
structure Working (s : State) : Prop where
  reach : (sys cfg).Reach Lts.anyStep s
  started : Started s
  driven : Driven ch s

theorem Working.step (hall : ∀ i, i < cfg.modulesCnt → cfg.processStart i ≠ none)
    (hw : Working ch s) (hstep : step cfg s a = some s') : Working ch s' ∧
      a.counts.toNat + ch.work s' + ch.slotWork * s.pops ≤ ch.work s + ch.slotWork * s'.pops := by
  have hi := reach_inv ch hw.reach
  have hst := startInv hw.reach
  have hr : (sys cfg).Reach Lts.anyStep s' := .step hw.reach trivial hstep
  cases step_move ch hstep with
  | @thread k _ hk h =>
    have hmain : s'.main = s.main := h.main
    refine ⟨⟨hr, by rw [Started, hmain]; exact hw.started, hw.driven.thread ch h⟩, ?_⟩
    have hwork := h.work ch hk fun hpc => by
      have hhead : k = ch.head := (ch.source_iff hk).mp (by
        cases h <;> simp_all)
      subst hhead
      rcases hw.driven with hd | hd | hd
      · exact Or.inl hd
      · exact Or.inr hd
      · exact absurd hd h.not_returned
    have hpops := h.pops
    by_cases hpc : (s.thr k).pc = .popTake
    · have hhead : k = ch.head := (ch.source_iff hk).mp (by cases h <;> simp_all)
      subst hhead
      simp only [hpc, if_true] at hwork hpops
      rw [hpops, Nat.mul_add]
      simp only [Label.counts, Bool.toNat_true, Chain.slotWork] at *
      omega
    · simp only [hpc, if_false, Nat.add_zero] at hwork hpops
      rw [hpops]
      simp only [Label.counts, Bool.toNat_true]
      omega
  | child h =>
    have hmain : s'.main = s.main := h.main
    refine ⟨⟨hr, by rw [Started, hmain]; exact hw.started, ?_⟩, ?_⟩
    · have hflag : s'.exitFlag = s.exitFlag := by cases h <;> rfl
      have hstate : s'.st = s.st := by cases h <;> rfl
      unfold Driven
      rw [hflag, hstate, h.thr]
      exact hw.driven
    · rw [h.pops]
      have := h.work ch (h.lt hi hst)
      omega
  | main h =>
    obtain ⟨hthr, hbox, hflag⟩ := h.frame hw.started
    have hhead := hall _ ch.head_lt
    have hrun := running_of_started hst hall hw.started ch.head_lt
    refine ⟨⟨hr, h.keeps_started hw.started, hw.driven.main ch hst hw.started hhead hrun h⟩, ?_⟩
    have hle := ch.work_le hthr hbox h.proc h.child (Or.inl hflag)
    have hpops : s'.pops = s.pops := by rw [State.pops, h.log, State.pops]
    rw [hpops]
    simp only [Label.counts, Bool.toNat_false]
    omega
  | destroy h =>
    have hle : ch.work s' ≤ ch.work s := by
      cases h
      case cleanup => exact ch.work_le rfl rfl rfl rfl (Or.inr rfl)
      all_goals exact le_refl _
    have hpops : s'.pops = s.pops := by cases h <;> rfl
    have hdriven : Driven ch s' := by
      cases h
      case cleanup => exact Or.inl rfl
      all_goals exact hw.driven
    have hmain : s'.main = s.main := by cases h <;> rfl
    refine ⟨⟨hr, by rw [Started, hmain]; exact hw.started, hdriven⟩, ?_⟩
    rw [hpops]
    simp only [Label.counts, Bool.toNat_false]
    omega
  | raise =>
    refine ⟨⟨hr, hw.started, Or.inl rfl⟩, ?_⟩
    have hle : ch.work { s with exitFlag := true } ≤ ch.work s :=
      ch.work_le rfl rfl rfl rfl (Or.inr rfl)
    simp only [Label.counts, Bool.toNat_false, Nat.zero_add]
    exact Nat.add_le_add_right hle _

/-- In a run of a pipeline that has started, whatever the scheduling and the answers of the children,
the steps of the threads and the children are bounded by the work at its beginning and by what the slots
taken on the way cost; so the threads cannot keep each other busy without taking slots. -/
theorem work_bounded (hall : ∀ i, i < cfg.modulesCnt → cfg.processStart i ≠ none)
    (h : (sys cfg).Reach Lts.anyStep s) (hs : Started s) (hd : Driven ch s) {as : List Label}
    (he : (sys cfg).exec s as = some t) :
    as.countP Label.counts + ch.work t + ch.slotWork * s.pops ≤
      ch.work s + ch.slotWork * t.pops :=
  Lts.exec_countP_le (Working ch) ch.work State.pops ch.slotWork Label.counts
    (fun _ _ _ hw hstep => hw.step ch hall hstep) ⟨h, hs, hd⟩ he

/-- The head of a live pipeline takes the first slot and posts its child. -/
theorem work_bounded_first_slot : ∃ s t, s.pops = 0 ∧ t.pops = 1 ∧
    (List.replicate 8 (Label.thread 0)).countP Label.counts +
      (threeModules.chain some fun _ => true).work t +
      (threeModules.chain some fun _ => true).slotWork * s.pops ≤
    (threeModules.chain some fun _ => true).work s +
      (threeModules.chain some fun _ => true).slotWork * t.pops := by
  have hreach := Lts.reach_exec (sys (threeModules some fun _ => true)) Lts.anyStep
    (startLabels 3) rfl (by decide) fun _ _ _ => trivial
  refine ⟨_, _, by decide, ?_, work_bounded (threeModules.chain some fun _ => true)
    (fun _ _ => by simp [threeModules]) hreach (by decide) (Or.inr (Or.inl (by decide)))
    (Option.some_get (x := (sys (threeModules some fun _ => true)).exec _
      (List.replicate 8 (.thread 0))) (by decide)).symm⟩
  decide

/-! ### The shutdown comes to an end -/

/-- The steps `pipeline_thread` still does for `n` modules past its start loop. -/
def MainPc.effort (n : ℕ) : MainPc → ℕ
  | .decide => 2 * n + 5
  | .checkLive => 2 * n + 4
  | .setLive k => (n - k) + (n + 3)
  | .join k => (n - k) + 2
  | .finish => 1
  | _ => 0

theorem MainMove.effort (h : MainMove cfg s s') (hs : Started s) :
    1 + s'.main.effort cfg.modulesCnt ≤ s.main.effort cfg.modulesCnt := by
  unfold Started at hs
  cases h
  case create hm _ | allStarted hm _ | waitStart hm _ | failed hm _ | started hm _
    | joinFailed hm _ => simp [hm, MainPc.starting] at hs
  case checkLive hm =>
    by_cases hi : s.plState = .init <;> simp [hm, hi, MainPc.effort] <;> omega
  all_goals simp_all [MainPc.effort] <;> omega

include ch in
theorem main_step (hstep : step cfg s a = some s') (hs : Started s) : Started s' ∧
    (decide (a = .main)).toNat + s'.main.effort cfg.modulesCnt ≤ s.main.effort cfg.modulesCnt := by
  cases step_move ch hstep with
  | thread _ h =>
    have hmain : s'.main = s.main := h.main
    simpa [Started, hmain] using hs
  | child h =>
    have hmain : s'.main = s.main := h.main
    have hne : a ≠ .main := by cases h <;> simp
    simpa [Started, hmain, hne] using hs
  | main h => exact ⟨h.keeps_started hs, by simpa using h.effort hs⟩
  | destroy h =>
    have hmain : s'.main = s.main := by cases h <;> rfl
    simpa [Started, hmain] using hs
  | raise => simpa [Started] using hs

/-- A step of the server: of a module thread, of a child or of `pipeline_thread`. -/
def serverStep (s : State) (a : Label) : Prop := moduleStep s a ∨ a = .main

end Runs

end TmkDcl.Pipeline
