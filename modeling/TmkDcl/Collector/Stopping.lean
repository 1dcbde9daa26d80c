import Mathlib.Data.Finset.Piecewise
import TmkDcl.Collector.System

/-!
# The collector does not stop with its sources (collector.c, source.c)

`collect_data_thread` counts the sources that have stopped, but the count begins again at each source
(`collector.c:53-60`), so only a collector with one source sets its exit flag. A thread that
returns posts `data_ready` once. A collector with several sources waits for it again with the next
object, and one with a single source in the loop that stops the sources (`collector.c:92-100`).
-/

namespace TmkDcl.Collector

variable {α : Type*}

/-- The collector stops when its sources stop. -/
structure Stops (cfg : Config α) : Prop where
  /-- it waits for no source that has returned and posted nothing -/
  awaited : ∀ s, (system cfg).Reach Lts.anyStep s → ∀ i < cfg.sourcesCnt,
    s.collector = .waitData i ∨ s.collector = .drainWait i →
    (s.sources i).Returned (cfg.kind i) → (s.sources i).dataReady ≠ 0
  /-- when all sources have set their flags it can set its own and return -/
  returns : ∀ s, (system cfg).Reach Lts.anyStep s →
    (∀ i < cfg.sourcesCnt, (s.sources i).exitFlag = true) →
    ∃ t, (system cfg).Steps Lts.anyStep s t ∧ t.exitFlag = true ∧ t.collector = .returned

/-! ### The exit flag -/

section ExitFlag

variable {cfg : Config α} {s s' : State α}

theorem stepSource_exitFlag {i : ℕ} {f : Source α → Option (Source α)}
    (hs : s.stepSource cfg i f = some s') : s'.exitFlag = s.exitFlag := by
  rw [State.stepSource, Option.ite_none_right_eq_some, Option.map_eq_some_iff] at hs
  obtain ⟨-, x, -, rfl⟩ := hs
  rfl

theorem consumer_exitFlag (hs : collectorAction cfg s = some s') : s'.exitFlag = s.exitFlag := by
  rw [collectorAction] at hs
  cases hc : s.consumer with
  | waitData =>
    rw [hc] at hs
    obtain ⟨-, hs⟩ := Option.ite_none_right_eq_some.mp hs
    cases hs
    rfl
  | _ =>
    rw [hc] at hs
    cases hs
    rfl

theorem collector_exitFlag (hcnt : cfg.sourcesCnt ≠ 1) (hs : collectDataThread cfg s = some s')
    (hexit : s.exitFlag = false) : s'.exitFlag = false := by
  have hmove := collector_move hs
  generalize s.collector = pc at hmove
  cases hmove with
  | count i exit hi _ hon =>
    show exit = false
    by_contra hexit'
    rcases hon (Bool.eq_true_of_not_eq_false hexit') with hold | hcount
    · rw [hexit] at hold
      cases hold
    · split at hcount
      · exact hcnt hcount
      · omega
  | _ => exact hexit

/-- Only a collector with one source sets its exit flag. -/
theorem step_exitFlag (hcnt : cfg.sourcesCnt ≠ 1) {a : Label} (hs : step cfg s a = some s')
    (hexit : s.exitFlag = false) : s'.exitFlag = false := by
  cases a with
  | source i | frame i _ | readError i | watch i => exact (stepSource_exitFlag hs).trans hexit
  | raise i =>
    have hkeep := stepSource_exitFlag (f := fun x => some { x with exitFlag := true }) hs
    exact hkeep.trans hexit
  | collector => exact collector_exitFlag hcnt hs hexit
  | consumer => exact (consumer_exitFlag hs).trans hexit

end ExitFlag

/-! ### Runs of the sources -/

/-- What a source does until its thread returns. -/
def SourceNext (kind : SourceType) (addFrame : Bool) (x x' : Source α) : Prop :=
  frameStep kind addFrame x = some x' ∨ readError kind x = some x' ∨ watchStep kind x = some x' ∨
    x' = { x with exitFlag := true }

/-- A source that has got its first object. -/
def given (name : α) : Source α := { sourceInit with data := some name, emptyReady := 1 }

/-- A source without frames whose thread has returned. -/
def finished (kind : SourceType) (name : α) : Source α where
  data := some name
  emptyReady := 0
  dataReady := 1
  exitFlag := true
  framesInObject := 0
  live := false
  pc := .ended
  watch := match kind with
    | .tcp => .wait
    | .udp => .returned

theorem finished_returned (kind : SourceType) (name : α) : (finished kind name).Returned kind := by
  cases kind <;> rfl

/-- The `read` of a TCP source fails; the flag of a UDP source is set from outside. -/
theorem given_finished (kind : SourceType) (addFrame : Bool) (name : α) :
    Relation.ReflTransGen (SourceNext kind addFrame) (given name) (finished kind name) := by
  cases kind with
  | tcp =>
    refine .head (.inl rfl) ?_
    refine .head (.inl rfl) ?_
    refine .head (.inr (.inl rfl)) ?_
    exact .single (.inl rfl)
  | udp =>
    refine .head (.inr (.inr (.inl rfl))) ?_
    refine .head (.inr (.inr (.inr rfl))) ?_
    refine .head (.inr (.inr (.inl rfl))) ?_
    refine .head (.inr (.inr (.inl rfl))) ?_
    refine .head (.inr (.inr (.inl rfl))) ?_
    refine .head (.inr (.inr (.inl rfl))) ?_
    refine .head (.inr (.inr (.inl rfl))) ?_
    refine .head (.inl rfl) ?_
    exact .single (.inr (.inr (.inl rfl)))

/-! ### Runs of the system -/

/-- The state with other sources, and the collector at another statement. -/
def State.place (s : State α) (sources : ℕ → Source α) (pc : CollectorPc) : State α :=
  { s with sources := sources, collector := pc }

section Runs

variable {cfg : Config α} {s t : State α} {sources : ℕ → Source α} {i : ℕ}

theorem steps_collector (h : collectDataThread cfg s = some t) :
    (system cfg).Steps Lts.anyStep s t := .single ⟨.collector, trivial, h⟩

theorem steps_consumer (h : collectorAction cfg s = some t) :
    (system cfg).Steps Lts.anyStep s t := .single ⟨.consumer, trivial, h⟩

theorem next_source {x' : Source α} (hi : i < cfg.sourcesCnt)
    (h : SourceNext (cfg.kind i) (cfg.addFrame i) (s.sources i) x') :
    (system cfg).Next Lts.anyStep s (s.setSource i x') := by
  have hstep {f : Source α → Option (Source α)} (hf : f (s.sources i) = some x') :
      s.stepSource cfg i f = some (s.setSource i x') := by
    rw [State.stepSource, if_pos hi, hf, Option.map_some]
  rcases h with h | h | h | rfl
  · exact ⟨.source i, trivial, hstep h⟩
  · exact ⟨.readError i, trivial, hstep h⟩
  · exact ⟨.watch i, trivial, hstep h⟩
  · exact ⟨.raise i, trivial, hstep (f := fun x => some { x with exitFlag := true }) rfl⟩

theorem steps_source {x : Source α} (hi : i < cfg.sourcesCnt)
    (h : Relation.ReflTransGen (SourceNext (cfg.kind i) (cfg.addFrame i)) (s.sources i) x) :
    (system cfg).Steps Lts.anyStep s (s.setSource i x) := by
  induction h with
  | refl =>
    rw [State.setSource, Function.update_eq_self]
    exact .refl
  | @tail x x' _ hlast ih =>
    refine ih.tail ?_
    have hnext : (system cfg).Next Lts.anyStep (s.setSource i x) ((s.setSource i x).setSource i x') :=
      next_source hi (by rwa [setSource_sources_self])
    have hagain : (s.setSource i x).setSource i x' = s.setSource i x' := by
      simp only [State.setSource, Function.update_idem]
    rwa [hagain] at hnext

theorem sweep (cfg : Config α) (s : State α) (sources : ℕ → Source α) (pc : ℕ → CollectorPc) (x : ℕ → Source α)
    (h : ∀ i < cfg.sourcesCnt, ∀ before : ℕ → Source α, before i = sources i →
      (system cfg).Steps Lts.anyStep (s.place before (pc i))
        (s.place (Function.update before i (x i)) (pc (i + 1)))) :
    ∃ after : ℕ → Source α, (∀ i < cfg.sourcesCnt, after i = x i) ∧
      (system cfg).Steps Lts.anyStep (s.place sources (pc 0)) (s.place after (pc cfg.sourcesCnt)) := by
  let upTo (i : ℕ) : ℕ → Source α := (Finset.range i).piecewise x sources
  refine ⟨upTo cfg.sourcesCnt, fun i hi => ?_, ?_⟩
  · exact Finset.piecewise_eq_of_mem _ _ _ (Finset.mem_range.mpr hi)
  have hpass : ∀ i < cfg.sourcesCnt, (system cfg).Steps Lts.anyStep (s.place (upTo i) (pc i))
      (s.place (upTo (i + 1)) (pc (i + 1))) := fun i hi => by
    have hbefore : upTo i i = sources i :=
      Finset.piecewise_eq_of_notMem _ _ _ Finset.notMem_range_self
    have hupdate : upTo (i + 1) = Function.update (upTo i) i (x i) := by
      show (Finset.range (i + 1)).piecewise _ _ = _
      rw [Finset.range_add_one, Finset.piecewise_insert]
    rw [hupdate]
    exact h i hi (upTo i) hbefore
  have hrun := Lts.Steps.range (fun i => s.place (upTo i) (pc i)) cfg.sourcesCnt hpass
  have hzero : upTo 0 = sources := Finset.piecewise_empty _ _
  rwa [hzero] at hrun

theorem steps_copy (cfg : Config α) (s : State α) (sources : ℕ → Source α) : ∃ after : ℕ → Source α,
    (∀ i < cfg.sourcesCnt, after i =
      { sources i with data := some s.data, emptyReady := (sources i).emptyReady + 1 }) ∧
    (system cfg).Steps Lts.anyStep (s.place sources (.copy 0)) (s.place after .loop) := by
  obtain ⟨after, hafter, hrun⟩ := sweep cfg s sources .copy
    (fun i => { sources i with data := some s.data, emptyReady := (sources i).emptyReady + 1 })
    fun i hi before hbefore => by
      have hcopy : (system cfg).Steps Lts.anyStep (s.place before (.copy i)) (s.place
          (Function.update before i { before i with data := some s.data }) (.post i)) := by
        refine steps_collector ?_
        show (if i < cfg.sourcesCnt then _ else _) = _
        rw [if_pos hi]
        rfl
      have hpost : (system cfg).Steps Lts.anyStep
          (s.place (Function.update before i { before i with data := some s.data }) (.post i))
          (s.place (Function.update before i { sources i with
            data := some s.data, emptyReady := (sources i).emptyReady + 1 }) (.copy (i + 1))) := by
        refine steps_collector ?_
        simp only [collectDataThread, State.place, State.setSource, Function.update_self,
          Function.update_idem, hbefore]
      exact hcopy.trans hpost
  refine ⟨after, hafter, hrun.trans (steps_collector ?_)⟩
  show (if cfg.sourcesCnt < cfg.sourcesCnt then _ else _) = _
  rw [if_neg (Nat.lt_irrefl _)]
  rfl

theorem steps_finish (s : State α) {name : α}
    (hsources : ∀ i < cfg.sourcesCnt, sources i = given name) :
    ∃ after : ℕ → Source α, (∀ i < cfg.sourcesCnt, after i = finished (cfg.kind i) name) ∧
      (system cfg).Steps Lts.anyStep (s.place sources .loop) (s.place after .loop) :=
  sweep cfg s sources (fun _ => .loop) _ fun i hi before hbefore => by
    have hreturns := given_finished (cfg.kind i) (cfg.addFrame i) name
    rw [← hsources i hi, ← hbefore] at hreturns
    exact steps_source hi hreturns

theorem steps_waitData (cfg : Config α) (hexit : s.exitFlag = false)
    (hsources : ∀ i < cfg.sourcesCnt, 0 < (sources i).dataReady) :
    ∃ after : ℕ → Source α,
      (∀ i < cfg.sourcesCnt, after i = { sources i with dataReady := (sources i).dataReady - 1 }) ∧
      (system cfg).Steps Lts.anyStep (s.place sources .loop)
        ({ s with dataReady := s.dataReady + 1 }.place after (.count 0)) := by
  obtain ⟨after, hafter, hrun⟩ := sweep cfg s sources .waitData
    (fun i => { sources i with dataReady := (sources i).dataReady - 1 })
    fun i hi before hbefore => by
      refine steps_collector ?_
      have hpos := hsources i hi
      rw [← hbefore] at hpos ⊢
      show (if i < cfg.sourcesCnt then if 0 < (before i).dataReady then _ else _ else _) = _
      rw [if_pos hi, if_pos hpos]
      rfl
  refine ⟨after, hafter, ?_⟩
  have hloop : (system cfg).Steps Lts.anyStep (s.place sources .loop)
      (s.place sources (.waitData 0)) := by
    refine steps_collector ?_
    simp only [collectDataThread, State.place, hexit, Bool.false_eq_true, if_false]
  have hlast : (system cfg).Steps Lts.anyStep (s.place after (.waitData cfg.sourcesCnt))
      (s.place after .postReady) := by
    refine steps_collector ?_
    show (if cfg.sourcesCnt < cfg.sourcesCnt then _ else _) = _
    rw [if_neg (Nat.lt_irrefl _)]
    rfl
  have hpost : (system cfg).Steps Lts.anyStep (s.place after .postReady)
      ({ s with dataReady := s.dataReady + 1 }.place after (.count 0)) := steps_collector rfl
  exact ((hloop.trans hrun).trans hlast).trans hpost

theorem steps_consume (cfg : Config α) (hexit : s.exitFlag = false) (hconsumer : s.consumer = .check)
    (hready : 0 < s.dataReady) :
    (system cfg).Steps Lts.anyStep s { s with
      dataReady := s.dataReady - 1
      emptyReady := s.emptyReady + 1
      data := cfg.name s.generated
      generated := s.generated + 1
      handed := s.handed ++ [s.data]
      consumer := .check } := by
  have hcheck : (system cfg).Steps Lts.anyStep s { s with consumer := .waitData } := by
    refine steps_consumer ?_
    simp only [collectorAction, hconsumer, hexit, Bool.false_eq_true, if_false]
  have hwait : (system cfg).Steps Lts.anyStep { s with consumer := .waitData }
      { s with dataReady := s.dataReady - 1, consumer := .handOver } :=
    steps_consumer (if_pos hready)
  refine (hcheck.trans hwait).trans ?_
  refine .trans (steps_consumer rfl) ?_
  refine .trans (steps_consumer rfl) ?_
  refine .trans (steps_consumer rfl) ?_
  exact steps_consumer rfl

theorem steps_nextObject (cfg : Config α) (hexit : s.exitFlag = false) (hconsumer : s.consumer = .check)
    (hcollector : s.collector = .waitEmpty) (hready : 0 < s.dataReady) :
    ∃ t, (system cfg).Steps Lts.anyStep s t ∧ t.collector = .loop ∧ t.exitFlag = false ∧
      t.consumer = .check ∧ t.dataReady = s.dataReady - 1 ∧ ∀ i < cfg.sourcesCnt, t.sources i =
        { s.sources i with
          data := some (cfg.name s.generated), emptyReady := (s.sources i).emptyReady + 1 } := by
  have hconsume := steps_consume cfg hexit hconsumer hready
  let t : State α := { s with
    dataReady := s.dataReady - 1
    data := cfg.name s.generated
    generated := s.generated + 1
    handed := s.handed ++ [s.data]
    consumer := .check }
  have hwait : (system cfg).Steps Lts.anyStep { t with emptyReady := s.emptyReady + 1 }
      (t.place s.sources (.copy 0)) := by
    refine steps_collector ?_
    simp only [collectDataThread, hcollector, t, State.place, Nat.succ_pos, if_true,
      Nat.add_sub_cancel]
  obtain ⟨after, hafter, hcopy⟩ := steps_copy cfg t s.sources
  exact ⟨t.place after .loop, (hconsume.trans hwait).trans hcopy, rfl, hexit, rfl, rfl, hafter⟩

/-- Without a frame all threads return, and the collector has waited for each. -/
theorem finished_reachable (cfg : Config α) : ∃ s, (system cfg).Reach Lts.anyStep s ∧
    s.collector = .count 0 ∧ s.exitFlag = false ∧ s.consumer = .check ∧ s.dataReady = 1 ∧
    ∀ i < cfg.sourcesCnt, s.sources i = { finished (cfg.kind i) (cfg.name 1) with dataReady := 0 } := by
  obtain ⟨s, hfirst, hcollector, hexit, hconsumer, hready, hgiven⟩ :=
    steps_nextObject cfg (show (initial cfg).exitFlag = false from rfl) rfl rfl Nat.one_pos
  obtain ⟨ended, hended, hfinish⟩ := steps_finish s hgiven
  have hdata : ∀ i < cfg.sourcesCnt, 0 < (ended i).dataReady := fun i hi => by
    rw [hended i hi]
    exact Nat.one_pos
  obtain ⟨after, hafter, hwait⟩ := steps_waitData cfg hexit hdata
  have hplace : s.place s.sources .loop = s := by
    rw [← hcollector]
    rfl
  rw [hplace] at hfinish
  have hreach := (Lts.Reach.init (T := system cfg) rfl).steps ((hfirst.trans hfinish).trans hwait)
  refine ⟨_, hreach, rfl, hexit, hconsumer, ?_, fun i hi => ?_⟩
  · show s.dataReady + 1 = 1
    rw [hready]
    rfl
  · show after i = _
    rw [hafter i hi, hended i hi]
    rfl

/-- With several sources the flag stays 0, and the collector waits for the next object. -/
theorem blocked_waitData (hcnt : 1 < cfg.sourcesCnt) : ∃ s, (system cfg).Reach Lts.anyStep s ∧
    s.collector = .waitData 0 ∧ (s.sources 0).Returned (cfg.kind 0) ∧
    (s.sources 0).dataReady = 0 := by
  obtain ⟨s, hreach, hcollector, hexit, hconsumer, hready, hsources⟩ := finished_reachable cfg
  have hpass : ∀ i < cfg.sourcesCnt, (system cfg).Steps Lts.anyStep
      { s with collector := .count i } { s with collector := .count (i + 1) } := fun i hi => by
    refine steps_collector ?_
    have hone : (if (s.sources i).exitFlag then 1 else 0) ≠ cfg.sourcesCnt := by
      split <;> omega
    show (if i < cfg.sourcesCnt then _ else _) = _
    rw [if_pos hi, if_neg hone]
  have hcount := Lts.Steps.range (fun i => { s with collector := .count i }) cfg.sourcesCnt hpass
  have hcounted : (system cfg).Steps Lts.anyStep
      { s with collector := .count cfg.sourcesCnt } { s with collector := .checkExit } := by
    refine steps_collector ?_
    show (if cfg.sourcesCnt < cfg.sourcesCnt then _ else _) = _
    rw [if_neg (Nat.lt_irrefl _)]
  have hcheck : (system cfg).Steps Lts.anyStep
      { s with collector := .checkExit } { s with collector := .waitEmpty } := by
    refine steps_collector ?_
    simp only [collectDataThread, hexit, Bool.false_eq_true, if_false]
  have hwaiting : ({ s with collector := .waitEmpty } : State α).exitFlag = false := hexit
  obtain ⟨t, hnext, htcollector, htexit, -, -, htsources⟩ :=
    steps_nextObject cfg hwaiting hconsumer rfl (hready ▸ Nat.one_pos)
  have hloop : (system cfg).Steps Lts.anyStep t { t with collector := .waitData 0 } := by
    refine steps_collector ?_
    simp only [collectDataThread, htcollector, htexit, Bool.false_eq_true, if_false]
  have hstart : ({ s with collector := .count 0 } : State α) = s := by rw [← hcollector]
  rw [hstart] at hcount
  have hsource : t.sources 0 = { finished (cfg.kind 0) (cfg.name 1) with
      data := some (cfg.name s.generated), emptyReady := 1, dataReady := 0 } := by
    have hzero : 0 < cfg.sourcesCnt := Nat.zero_lt_of_lt hcnt
    rw [htsources 0 hzero, hsources 0 hzero]
    rfl
  refine ⟨{ t with collector := .waitData 0 }, ?_, rfl, ?_, ?_⟩
  · exact hreach.steps ((((hcount.trans hcounted).trans hcheck).trans hnext).trans hloop)
  · rw [hsource]
    exact finished_returned (cfg.kind 0) (cfg.name 1)
  · rw [hsource]

/-- With one source the flag is set, and the collector waits again to stop the source. -/
theorem blocked_drainWait (hcnt : cfg.sourcesCnt = 1) : ∃ s, (system cfg).Reach Lts.anyStep s ∧
    s.collector = .drainWait 0 ∧ (s.sources 0).Returned (cfg.kind 0) ∧
    (s.sources 0).dataReady = 0 := by
  obtain ⟨s, hreach, hcollector, hexit, hconsumer, hready, hsources⟩ := finished_reachable cfg
  have hzero : 0 < cfg.sourcesCnt := hcnt ▸ Nat.one_pos
  have hsource := hsources 0 hzero
  let t : State α := { s with exitFlag := true }
  have hcount : (system cfg).Steps Lts.anyStep s { t with collector := .count 1 } := by
    refine steps_collector ?_
    simp only [collectDataThread, hcollector, hsource, finished, hcnt, t, Nat.one_pos, if_true]
  have hcounted : (system cfg).Steps Lts.anyStep
      { t with collector := .count 1 } { t with collector := .checkExit } := by
    refine steps_collector ?_
    simp only [collectDataThread, hcnt, Nat.lt_irrefl, if_false]
  have hcheck : (system cfg).Steps Lts.anyStep
      { t with collector := .checkExit } { t with collector := .stopAll 0 } := steps_collector rfl
  have hstop : (system cfg).Steps Lts.anyStep { t with collector := .stopAll 0 }
      (t.exchange 0 { t.sources 0 with exitFlag := true } (.stopAll 1)) := by
    refine steps_collector ?_
    simp only [collectDataThread, hzero, if_true]
    rfl
  let u : State α := t.exchange 0 { t.sources 0 with exitFlag := true } (.stopAll 1)
  let v : State α := u.exchange 0 { u.sources 0 with exitFlag := true } (.drainWait 0)
  have hstopped : (system cfg).Steps Lts.anyStep u { u with collector := .loop } := by
    refine steps_collector ?_
    show (if 1 < cfg.sourcesCnt then _ else _) = _
    rw [if_neg (by omega)]
  have hloop : (system cfg).Steps Lts.anyStep { u with collector := .loop }
      { u with collector := .drain 0 } := steps_collector rfl
  have hdrain : (system cfg).Steps Lts.anyStep { u with collector := .drain 0 } v := by
    refine steps_collector ?_
    simp only [collectDataThread, hzero, if_true]
    rfl
  have hsame : v.sources 0 = { s.sources 0 with exitFlag := true } := by
    simp only [v, u, exchange_sources_self, t]
  refine ⟨v, hreach.steps ?_, rfl, ?_, ?_⟩
  · exact (((((hcount.trans hcounted).trans hcheck).trans hstop).trans hstopped).trans hloop).trans hdrain
  · rw [hsame, hsource]
    exact finished_returned (cfg.kind 0) (cfg.name 1)
  · rw [hsame, hsource]

end Runs

/-- The collector does not stop with its sources, whatever their number and kinds. -/
theorem not_stops (cfg : Config α) : ¬ Stops cfg := by
  intro h
  rcases Nat.lt_trichotomy cfg.sourcesCnt 1 with hcnt | hcnt | hcnt
  · -- without a source nothing sets the flag
    obtain ⟨t, hsteps, hexit, -⟩ := h.returns (initial cfg) (.init rfl) fun i hi => by omega
    have hzero : t.exitFlag = false := hsteps.invariant (fun s => s.exitFlag = false)
      (fun _ _ _ hs _ hstep => step_exitFlag hcnt.ne hstep hs) rfl
    rw [hexit] at hzero
    cases hzero
  · obtain ⟨s, hreach, hcollector, hreturned, hdata⟩ := blocked_drainWait hcnt
    exact h.awaited s hreach 0 (hcnt ▸ Nat.one_pos) (.inr hcollector) hreturned hdata
  · obtain ⟨s, hreach, hcollector, hreturned, hdata⟩ := blocked_waitData hcnt
    exact h.awaited s hreach 0 (Nat.zero_lt_of_lt hcnt) (.inl hcollector) hreturned hdata

/-- The `read` of the only source fails before its first frame. -/
def lastSource : List Label :=
  List.flatten [List.replicate 6 .consumer, List.replicate 5 .collector,
    [.source 0, .source 0, .readError 0, .source 0], List.replicate 10 .collector]

theorem not_stops_oneSource : ¬ Stops (oneSource id) := by
  intro h
  have hreach := Lts.reach_exec (system (oneSource id)) Lts.anyStep lastSource rfl rfl
    fun _ _ _ => trivial
  exact h.awaited _ hreach 0 Nat.one_pos (.inr rfl) rfl rfl

end TmkDcl.Collector
