import Mathlib.Data.List.Basic
import TmkDcl.Collector.ObjectSize

/-!
# The frames of the objects (source.c, collector.c, simple_collector.c)

A source that adds a frame has its turn, so the object that it adds to is the one that is not yet handed
over. A source therefore goes through the objects in their order, and its frames are cut into them.
-/

namespace TmkDcl.Collector

variable {α : Type*}

/-- A source has taken a frame and not yet called `add_frame_callback` with it. -/
def FramePc.inHand : FramePc α → ℕ
  | .postData | .checkExit | .waitEmpty | .checkAdd | .adding _ => 1
  | _ => 0

/-- How many frames each source has taken, and which of them it has added under each number. -/
structure Traced (α : Type*) where
  counted : Counted α
  taken : ℕ → ℕ
  object : ℕ → ℕ → List ℕ

def Traced.takenAfter (x : Traced α) : Label → ℕ → ℕ
  | .frame i _ => Function.update x.taken i (x.taken i + 1)
  | _ => x.taken

/-- The frame that a source adds is the one that it has taken last. -/
def Traced.objectAfter (x : Traced α) : Label → ℕ → ℕ → List ℕ
  | .source i =>
    if (x.counted.state.sources i).pc.isAdding then
      Function.update x.object i (Function.update (x.object i) (x.counted.number i)
        (x.object i (x.counted.number i) ++ [x.taken i - 1]))
    else x.object
  | _ => x.object

def traceStep (cfg : Config α) (limit : ℕ → ℕ) (x : Traced α) (a : Label) : Option (Traced α) :=
  (countStep cfg limit x.counted a).map fun c => ⟨c, x.takenAfter a, x.objectAfter a⟩

def traceInit (cfg : Config α) : Traced α := ⟨countInit cfg, fun _ => 0, fun _ _ => []⟩

def tracing (cfg : Config α) (limit : ℕ → ℕ) : Lts (Traced α) Label where
  init x := x = traceInit cfg
  step := traceStep cfg limit

/-- The frames of a source in the objects that were handed over, and in the one that is filled. -/
def Traced.joined (x : Traced α) (i : ℕ) : List ℕ :=
  (List.range (x.counted.state.handed.length + 1)).flatMap (x.object i)

/-! ### One source -/

section Source

variable {kind : SourceType} {x x' : Source α}

theorem inHand_frameStep (h : frameStep kind true x = some x') (hexit : x'.exitFlag = false) :
    x'.pc.inHand + (if x.pc.isAdding then 1 else 0) = x.pc.inHand := by
  obtain ⟨data, emptyReady, dataReady, exitFlag, framesInObject, live, pc, watch⟩ := x
  cases pc with
  | start =>
    obtain ⟨-, h⟩ := Option.ite_none_right_eq_some.mp h
    cases h
    rfl
  | loop =>
    cases kind with
    | tcp =>
      cases h
      cases exitFlag <;> rfl
    | udp =>
      cases h
      cases live <;> rfl
  | waitEmpty =>
    obtain ⟨-, h⟩ := Option.ite_none_right_eq_some.mp h
    cases h
    rfl
  | checkExit =>
    cases h
    cases exitFlag <;> rfl
  | checkAdd =>
    cases h
    rw [show exitFlag = false from hexit]
    rfl
  | reading | postData | adding _ | count | postLast =>
    cases h
    rfl
  | ended => cases h

theorem inHand_takeFrameOf {limit : ℕ} {detected : Bool} (h : takeFrameOf limit detected x = some x') :
    x'.pc.inHand = x.pc.inHand + 1 := by
  rw [takeFrameOf] at h
  cases hpc : x.pc with
  | reading =>
    simp only [hpc] at h
    split at h
    all_goals
      cases h
      rfl
  | _ =>
    simp only [hpc] at h
    cases h

theorem inHand_readError (h : readError kind x = some x') : x'.pc.inHand = x.pc.inHand := by
  cases hpc : x.pc with
  | reading =>
    cases kind with
    | tcp | udp =>
      simp only [readError, hpc] at h
      cases h
      rfl
  | _ => cases kind <;> simp [readError, hpc] at h

theorem inHand_watchStep (hinv : SourceInv kind x) (h : watchStep kind x = some x') :
    x'.pc.inHand = x.pc.inHand := by
  cases kind with
  | tcp => cases h
  | udp =>
    obtain hwait | ⟨hcreate, hpc⟩ | ⟨hwatching, -⟩ := hinv.udp
    · simp only [watchStep, hwait] at h
      obtain ⟨-, h⟩ := Option.ite_none_right_eq_some.mp h
      cases h
      rfl
    · simp only [watchStep, hcreate] at h
      cases h
      rw [hpc]
      rfl
    · simp only [watchStep, hwatching] at h
      cases h
      rfl

end Source

/-! ### The objects -/

/-- A source that has its turn fills the object that is not yet handed over. -/
theorem CountInv.number_of_active {cfg : Config α} {limit : ℕ → ℕ} {c : Counted α} {i : ℕ}
    (h : CountInv cfg limit c) (hi : i < cfg.sourcesCnt) (hactive : (c.state.sources i).active = 1) :
    c.number i = c.state.handed.length := by
  have hnumber := (h.sources i hi).number
  by_contra hne
  obtain ⟨-, howed, -⟩ := h.owed (i := i) (by omega)
  have htoken := h.inv.token i hi
  rw [Source.turn] at htoken
  omega

theorem CountInv.number_le {cfg : Config α} {limit : ℕ → ℕ} {c : Counted α} {i : ℕ}
    (h : CountInv cfg limit c) (hi : i < cfg.sourcesCnt) : c.number i ≤ c.state.handed.length := by
  have hnumber := (h.sources i hi).number
  omega

/-- The frames of a source: those that it has taken, but for the one in its hands, are in the objects in
their order. -/
structure SourceTrace (cfg : Config α) (x : Traced α) (i : ℕ) : Prop where
  joined : x.joined i = List.range (x.joined i).length
  taken : (x.joined i).length + (x.counted.state.sources i).pc.inHand = x.taken i
  frames : ∀ k, (x.object i k).length = x.counted.frames i k

structure TraceInv (cfg : Config α) (limit : ℕ → ℕ) (x : Traced α) : Prop where
  count : CountInv cfg limit x.counted
  sources : ∀ i < cfg.sourcesCnt, cfg.addFrame i = true → SourceTrace cfg x i

section Step

variable {cfg : Config α} {limit : ℕ → ℕ} {x x' : Traced α} {i : ℕ}

/-- The object behind those that were handed over has no frames yet. -/
theorem TraceInv.fresh (h : TraceInv cfg limit x) (hi : i < cfg.sourcesCnt)
    (hadd : cfg.addFrame i = true) {k : ℕ} (hk : x.counted.state.handed.length < k) :
    x.object i k = [] := by
  have hlater := (h.count.sources i hi).later k ((h.count.number_le hi).trans_lt hk)
  rw [← (h.sources i hi hadd).frames k] at hlater
  exact List.eq_nil_of_length_eq_zero hlater

theorem SourceTrace.keep (h : SourceTrace cfg x i) (hjoined : x'.joined i = x.joined i)
    (hobject : x'.object i = x.object i) (htaken : x'.taken i = x.taken i)
    (hframes : x'.counted.frames i = x.counted.frames i)
    (hhand : (x'.counted.state.sources i).pc.inHand = (x.counted.state.sources i).pc.inHand) :
    SourceTrace cfg x' i where
  joined := by rw [hjoined]; exact h.joined
  taken := by rw [hjoined, hhand, htaken]; exact h.taken
  frames k := by rw [hobject, hframes]; exact h.frames k

theorem joined_of_handed (hobject : x'.object i = x.object i)
    (hhanded : x'.counted.state.handed = x.counted.state.handed) : x'.joined i = x.joined i := by
  rw [Traced.joined, Traced.joined, hobject, hhanded]

/-- The source adds the frame in its hands to the object that is filled. -/
theorem SourceTrace.add (h : SourceTrace cfg x i) (hcount : CountInv cfg limit x.counted)
    (hi : i < cfg.sourcesCnt) (hadding : (x.counted.state.sources i).pc.isAdding = true)
    (hhanded : x'.counted.state.handed = x.counted.state.handed)
    (hobject : x'.object = x.objectAfter (.source i)) (htaken : x'.taken i = x.taken i)
    (hframes : x'.counted.frames = x.counted.framesAfter (.source i))
    (hhand : (x'.counted.state.sources i).pc.inHand + 1 = (x.counted.state.sources i).pc.inHand) :
    SourceTrace cfg x' i := by
  obtain ⟨hactive, hone⟩ : (x.counted.state.sources i).active = 1 ∧
      (x.counted.state.sources i).pc.inHand = 1 := by
    cases hpc : (x.counted.state.sources i).pc with
    | adding name => exact ⟨Source.active_adding hpc, rfl⟩
    | _ => simp [hpc, FramePc.isAdding] at hadding
  have hnumber := hcount.number_of_active hi hactive
  have htake := h.taken
  have hobj : x'.object i = Function.update (x.object i) x.counted.state.handed.length
      (x.object i x.counted.state.handed.length ++ [x.taken i - 1]) := by
    rw [hobject, Traced.objectAfter, if_pos hadding, Function.update_self, hnumber]
  have hjoined : x'.joined i = x.joined i ++ [(x.joined i).length] := by
    have hlast : x.taken i - 1 = (x.joined i).length := by omega
    have hbefore : (List.range x.counted.state.handed.length).flatMap (x'.object i) =
        (List.range x.counted.state.handed.length).flatMap (x.object i) := by
      refine List.flatMap_congr fun k hk => ?_
      rw [hobj, Function.update_of_ne (List.mem_range.mp hk).ne]
    rw [← hlast, Traced.joined, Traced.joined, hhanded, List.range_succ, List.flatMap_append,
      List.flatMap_append, hbefore, List.flatMap_singleton, List.flatMap_singleton, hobj,
      Function.update_self, List.append_assoc]
  refine ⟨?_, ?_, fun k => ?_⟩
  · rw [hjoined, List.length_append, List.length_singleton, List.range_succ, ← h.joined]
  · rw [hjoined, List.length_append, List.length_singleton, htaken]
    omega
  · rw [hobj, hframes, Counted.framesAfter, if_pos hadding, Function.update_self, hnumber]
    by_cases hk : k = x.counted.state.handed.length
    · subst hk
      rw [Function.update_self, Function.update_self, List.length_append, List.length_singleton,
        h.frames]
    · rw [Function.update_of_ne hk, Function.update_of_ne hk]
      exact h.frames k

/-- A statement of a source that calls no `add_frame_callback`. -/
theorem TraceInv.quiet {f : Source α → Option (Source α)} {s : State α} (h : TraceInv cfg limit x)
    (hs : x.counted.state.stepSource cfg i f = some s)
    (hf : ∀ y, f (x.counted.state.sources i) = some y →
      y.pc.inHand = (x.counted.state.sources i).pc.inHand)
    (hcount : CountInv cfg limit ⟨s, x.counted.number, x.counted.frames⟩) :
    TraceInv cfg limit ⟨⟨s, x.counted.number, x.counted.frames⟩, x.taken, x.object⟩ := by
  rw [State.stepSource, Option.ite_none_right_eq_some, Option.map_eq_some_iff] at hs
  obtain ⟨-, y, hy, rfl⟩ := hs
  refine ⟨hcount, fun j hj hadd => ?_⟩
  refine (h.sources j hj hadd).keep rfl rfl rfl rfl ?_
  by_cases hji : j = i
  · subst hji
    simpa using hf y hy
  · exact congrArg (fun y : Source α => y.pc.inHand) (setSource_sources_ne hji)

theorem TraceInv.source {s : State α} (h : TraceInv cfg limit x)
    (hs : x.counted.state.stepSource cfg i (frameStep (cfg.kind i) (cfg.addFrame i)) = some s)
    (hno : NoExit cfg s)
    (hcount : CountInv cfg limit ⟨s, x.counted.number, x.counted.framesAfter (.source i)⟩) :
    TraceInv cfg limit ⟨⟨s, x.counted.number, x.counted.framesAfter (.source i)⟩, x.taken,
      x.objectAfter (.source i)⟩ := by
  rw [State.stepSource, Option.ite_none_right_eq_some, Option.map_eq_some_iff] at hs
  obtain ⟨hi, y, hy, rfl⟩ := hs
  have hself : ((x.counted.state.setSource i y).sources i) = y := setSource_sources_self
  have hexit : y.exitFlag = false := hself ▸ hno.2 i hi
  refine ⟨hcount, fun j hj hadd => ?_⟩
  have hold := h.sources j hj hadd
  by_cases hji : j = i
  · subst hji
    rw [hadd] at hy
    have hhand := inHand_frameStep hy hexit
    rw [← hself] at hhand
    cases hadding : (x.counted.state.sources j).pc.isAdding with
    | true =>
      rw [hadding, if_pos rfl] at hhand
      exact hold.add h.count hj hadding rfl rfl rfl rfl hhand
    | false =>
      rw [hadding] at hhand
      have hobject : x.objectAfter (.source j) = x.object := by simp [Traced.objectAfter, hadding]
      have hframes : x.counted.framesAfter (.source j) = x.counted.frames := by
        simp [Counted.framesAfter, hadding]
      rw [hobject, hframes]
      exact hold.keep rfl rfl rfl rfl hhand
  · have hobject : x.objectAfter (.source i) j = x.object j := by
      rw [Traced.objectAfter]
      split
      · exact Function.update_of_ne hji _ _
      · rfl
    have hframes : x.counted.framesAfter (.source i) j = x.counted.frames j := by
      rw [Counted.framesAfter]
      split
      · exact Function.update_of_ne hji _ _
      · rfl
    exact hold.keep (joined_of_handed hobject rfl) hobject rfl hframes
      (congrArg (fun y : Source α => y.pc.inHand) (setSource_sources_ne hji))

theorem TraceInv.frame {s : State α} {detected : Bool} (h : TraceInv cfg limit x)
    (hs : x.counted.state.stepSource cfg i (takeFrameOf (limit i) detected) = some s)
    (hcount : CountInv cfg limit ⟨s, x.counted.number, x.counted.frames⟩) :
    TraceInv cfg limit ⟨⟨s, x.counted.number, x.counted.frames⟩, x.takenAfter (.frame i detected),
      x.object⟩ := by
  rw [State.stepSource, Option.ite_none_right_eq_some, Option.map_eq_some_iff] at hs
  obtain ⟨-, y, hy, rfl⟩ := hs
  have hhand := inHand_takeFrameOf hy
  refine ⟨hcount, fun j hj hadd => ?_⟩
  have hold := h.sources j hj hadd
  by_cases hji : j = i
  · subst hji
    refine ⟨hold.joined, ?_, hold.frames⟩
    show (x.joined j).length + ((x.counted.state.setSource j y).sources j).pc.inHand =
      Function.update x.taken j (x.taken j + 1) j
    have htaken := hold.taken
    rw [setSource_sources_self, Function.update_self, hhand]
    omega
  · refine hold.keep rfl rfl (Function.update_of_ne hji _ _) rfl ?_
    exact congrArg (fun y : Source α => y.pc.inHand) (setSource_sources_ne hji)

theorem CollectorMove.keeps {s s' : State α} {pc : CollectorPc} (h : CollectorMove cfg s pc s')
    (j : ℕ) : (s'.sources j).pc = (s.sources j).pc ∧ s'.handed = s.handed := by
  cases h with
  | copy k | post k | waitData k | stopAll k | drain k | drainWait k =>
    refine ⟨?_, rfl⟩
    by_cases hj : j = k
    · subst hj
      rw [exchange_sources_self]
    · rw [exchange_sources_ne hj]
  | _ => exact ⟨rfl, rfl⟩

theorem TraceInv.collector {s : State α} {number : ℕ → ℕ} (h : TraceInv cfg limit x)
    (hs : collectDataThread cfg x.counted.state = some s)
    (hcount : CountInv cfg limit ⟨s, number, x.counted.frames⟩) :
    TraceInv cfg limit ⟨⟨s, number, x.counted.frames⟩, x.taken, x.object⟩ := by
  have hkeeps := (collector_move hs).keeps
  refine ⟨hcount, fun j hj hadd => ?_⟩
  exact (h.sources j hj hadd).keep (joined_of_handed rfl (hkeeps j).2) rfl rfl rfl
    (congrArg FramePc.inHand (hkeeps j).1)

theorem consumer_keeps {s s' : State α} (h : collectorAction cfg s = some s') :
    s'.sources = s.sources ∧ (s'.handed = s.handed ∨ s'.handed.length = s.handed.length + 1) := by
  rw [collectorAction] at h
  cases hc : s.consumer with
  | waitData =>
    rw [hc] at h
    obtain ⟨-, h⟩ := Option.ite_none_right_eq_some.mp h
    cases h
    exact ⟨rfl, .inl rfl⟩
  | handOver =>
    rw [hc] at h
    cases h
    exact ⟨rfl, .inr (by simp)⟩
  | _ =>
    rw [hc] at h
    cases h
    exact ⟨rfl, .inl rfl⟩

theorem TraceInv.consumer {s : State α} (h : TraceInv cfg limit x)
    (hs : collectorAction cfg x.counted.state = some s)
    (hcount : CountInv cfg limit ⟨s, x.counted.number, x.counted.frames⟩) :
    TraceInv cfg limit ⟨⟨s, x.counted.number, x.counted.frames⟩, x.taken, x.object⟩ := by
  obtain ⟨hsources, hhanded⟩ := consumer_keeps hs
  refine ⟨hcount, fun j hj hadd => ?_⟩
  refine (h.sources j hj hadd).keep ?_ rfl rfl rfl (by rw [hsources])
  cases hhanded with
  | inl hsame => exact joined_of_handed rfl hsame
  | inr hmore =>
    rw [Traced.joined, Traced.joined, hmore, List.range_succ, List.flatMap_append,
      List.flatMap_singleton, h.fresh hj hadd (Nat.lt_succ_self _), List.append_nil]

theorem traceStep_inv {a : Label} (hlimit : ∀ i < cfg.sourcesCnt, 1 ≤ limit i)
    (h : TraceInv cfg limit x) (hs : traceStep cfg limit x a = some x')
    (hno : NoExit cfg x'.counted.state) : TraceInv cfg limit x' := by
  obtain ⟨c, hc, rfl⟩ := Option.map_eq_some_iff.mp hs
  have hcount := countStep_inv hlimit h.count hc hno
  obtain ⟨s, hlimited, rfl⟩ := Option.map_eq_some_iff.mp hc
  cases a with
  | source i => exact h.source hlimited hno hcount
  | frame i detected => exact h.frame hlimited hcount
  | readError i => exact h.quiet hlimited (fun y hy => inHand_readError hy) hcount
  | watch i =>
    by_cases hi : i < cfg.sourcesCnt
    · exact h.quiet hlimited (fun y hy => inHand_watchStep (h.count.inv.sources i hi) hy) hcount
    · have hstep : x.counted.state.stepSource cfg i (watchStep (cfg.kind i)) = some s := hlimited
      rw [State.stepSource, if_neg hi] at hstep
      cases hstep
  | raise i =>
    have hstep : x.counted.state.stepSource cfg i (fun x => some { x with exitFlag := true }) = some s :=
      hlimited
    refine h.quiet hstep (fun y hy => ?_) hcount
    cases hy
    rfl
  | collector => exact h.collector hlimited hcount
  | consumer => exact h.consumer hlimited hcount

end Step

/-! ### Runs -/

section Run

variable {cfg : Config α} {limit : ℕ → ℕ} {x y : Traced α} {i k : ℕ}

theorem traceInv_init : TraceInv cfg limit (traceInit cfg) where
  count := countInv_init
  sources _ _ _ := ⟨rfl, rfl, fun _ => rfl⟩

theorem trace_noExit {a : Label} (hs : traceStep cfg limit x a = some y)
    (hno : NoExit cfg y.counted.state) : NoExit cfg x.counted.state := by
  obtain ⟨c, hc, rfl⟩ := Option.map_eq_some_iff.mp hs
  obtain ⟨s, hlimited, rfl⟩ := Option.map_eq_some_iff.mp hc
  exact (limitedStep_inv hlimited hno).1

theorem traceInv_reach (hlimit : ∀ i < cfg.sourcesCnt, 1 ≤ limit i)
    (h : (tracing cfg limit).Reach Lts.anyStep x) (hno : NoExit cfg x.counted.state) :
    TraceInv cfg limit x := by
  induction h with
  | init hi => exact hi ▸ traceInv_init
  | step _ _ hs ih => exact traceStep_inv hlimit (ih (trace_noExit hs hno)) hs hno

/-- An object that was handed over keeps its frames. -/
theorem object_step {a : Label} (h : CountInv cfg limit x.counted)
    (hs : traceStep cfg limit x a = some y) (hk : k < x.counted.state.handed.length)
    (hi : i < cfg.sourcesCnt) :
    y.object i k = x.object i k ∧ x.counted.state.handed.length ≤ y.counted.state.handed.length := by
  obtain ⟨c, hc, rfl⟩ := Option.map_eq_some_iff.mp hs
  obtain ⟨s, hlimited, rfl⟩ := Option.map_eq_some_iff.mp hc
  have hsource : ∀ j f, x.counted.state.stepSource cfg j f = some s →
      x.counted.state.handed.length ≤ s.handed.length := by
    intro j f hstep
    rw [State.stepSource, Option.ite_none_right_eq_some, Option.map_eq_some_iff] at hstep
    obtain ⟨-, _, -, rfl⟩ := hstep
    exact le_refl _
  cases a with
  | source j =>
    refine ⟨?_, hsource _ _ hlimited⟩
    show x.objectAfter (.source j) i k = x.object i k
    rw [Traced.objectAfter]
    split
    · rename_i hadding
      by_cases hij : i = j
      · subst hij
        have hactive : (x.counted.state.sources i).active = 1 := by
          cases hpc : (x.counted.state.sources i).pc with
          | adding name => exact Source.active_adding hpc
          | _ => simp [hpc, FramePc.isAdding] at hadding
        rw [Function.update_self, h.number_of_active hi hactive, Function.update_of_ne hk.ne]
      · rw [Function.update_of_ne hij]
    · rfl
  | frame j detected | readError j | watch j => exact ⟨rfl, hsource _ _ hlimited⟩
  | raise j => exact ⟨rfl, hsource j (fun x => some { x with exitFlag := true }) hlimited⟩
  | collector => exact ⟨rfl, ((collector_move hlimited).keeps 0).2 ▸ le_refl _⟩
  | consumer =>
    refine ⟨rfl, ?_⟩
    obtain ⟨-, hsame | hmore⟩ := consumer_keeps hlimited
    · exact hsame ▸ le_refl _
    · exact hmore ▸ Nat.le_succ _

theorem object_steps (hlimit : ∀ i < cfg.sourcesCnt, 1 ≤ limit i)
    (hx : (tracing cfg limit).Reach Lts.anyStep x) (h : (tracing cfg limit).Steps Lts.anyStep x y)
    (hno : NoExit cfg y.counted.state) (hk : k < x.counted.state.handed.length)
    (hi : i < cfg.sourcesCnt) :
    y.object i k = x.object i k ∧ x.counted.state.handed.length ≤ y.counted.state.handed.length := by
  induction h with
  | refl => exact ⟨rfl, le_refl _⟩
  | tail hxz hzy ih =>
    obtain ⟨a, -, hs⟩ := hzy
    have hnoz := trace_noExit hs hno
    obtain ⟨hobject, hle⟩ := ih hnoz
    have hcount := (traceInv_reach hlimit (hx.steps hxz) hnoz).count
    obtain ⟨hlast, hlelast⟩ := object_step hcount hs (hk.trans_le hle) hi
    exact ⟨hlast.trans hobject, hle.trans hlelast⟩

/-- What the source `i` has put into the objects: the frames of the handed ones and of the one that is
filled are all that it has taken, in their order, but for the one in its hands. The first two objects have
none, the later ones at least one and at most the limit, and no run changes a handed one. -/
structure Delivered (cfg : Config α) (limit : ℕ → ℕ) (x : Traced α) (i : ℕ) : Prop where
  frames : (List.range x.counted.state.handed.length).flatMap (x.object i) ++
    x.object i x.counted.state.handed.length =
      List.range (x.taken i - (x.counted.state.sources i).pc.inHand)
  size : ∀ k < x.counted.state.handed.length, if k < 2 then x.object i k = []
    else 1 ≤ (x.object i k).length ∧ (x.object i k).length ≤ limit i
  final : ∀ y, (tracing cfg limit).Steps Lts.anyStep x y → NoExit cfg y.counted.state →
    ∀ k < x.counted.state.handed.length, y.object i k = x.object i k

theorem frames_delivered (hlimit : ∀ i < cfg.sourcesCnt, 1 ≤ limit i)
    (h : (tracing cfg limit).Reach Lts.anyStep x) (hno : NoExit cfg x.counted.state)
    (hi : i < cfg.sourcesCnt) (hadd : cfg.addFrame i = true) : Delivered cfg limit x i := by
  have hinv := traceInv_reach hlimit h hno
  have hsource := hinv.sources i hi hadd
  refine ⟨?_, fun k hk => ?_, fun y hxy hnoy k hk => (object_steps hlimit h hxy hnoy hk hi).1⟩
  · have hjoined := hsource.joined
    have htaken := hsource.taken
    have hcut : (x.joined i).length = x.taken i - (x.counted.state.sources i).pc.inHand := by omega
    rw [hcut, Traced.joined, List.range_succ, List.flatMap_append, List.flatMap_singleton] at hjoined
    exact hjoined
  · have hfinished := hinv.count.finished hi hk
    rw [← hsource.frames k, Finished, hadd] at hfinished
    by_cases hk2 : k < 2
    · rw [if_pos (.inl (Nat.le_of_lt_succ hk2))] at hfinished
      rw [if_pos hk2]
      exact List.eq_nil_of_length_eq_zero hfinished
    · rw [if_neg (by simp; omega)] at hfinished
      rw [if_neg hk2]
      exact hfinished

/-- Three objects are handed over, and the source has taken two frames. -/
theorem trace_thirdObject : ∃ x, (tracing (oneSource id) fun _ => 50).Reach Lts.anyStep x ∧
    NoExit (oneSource id) x.counted.state ∧ x.counted.state.handed = [0, 1, 2] ∧ x.taken 0 = 2 ∧
    x.object 0 2 = [0] := by
  refine ⟨_, Lts.reach_exec _ _ thirdObject rfl rfl fun _ _ _ => trivial, ⟨rfl, fun i hi => ?_⟩, rfl, rfl,
    rfl⟩
  have hi : i = 0 := Nat.lt_one_iff.mp hi
  subst hi
  rfl

theorem frames_delivered_thirdObject : ∃ x,
    (tracing (oneSource id) fun _ => 50).Reach Lts.anyStep x ∧ x.counted.state.handed = [0, 1, 2] ∧
    x.object 0 2 = [0] ∧ Delivered (oneSource id) (fun _ => 50) x 0 := by
  obtain ⟨x, hreach, hno, hhanded, -, hobject⟩ := trace_thirdObject
  exact ⟨x, hreach, hhanded, hobject,
    frames_delivered (fun _ _ => Nat.le_of_ble_eq_true rfl) hreach hno Nat.one_pos rfl⟩

end Run

end TmkDcl.Collector
