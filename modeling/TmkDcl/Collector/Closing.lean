import Mathlib.Data.Set.Function
import Mathlib.Order.Interval.Set.Defs
import TmkDcl.Collector.System

/-!
# An object is closed before it is handed over (collector.c, source.c, simple_collector.c)

As long as nobody stops, each source has one turn: the collector gives it with `empty_ready`, and the
source gives it back with `data_ready`. The collector and the consumer have one turn between them in
the same way. So at a hand-over the collector has the turns of all sources, and none adds a frame.
-/

namespace TmkDcl.Collector

variable {α : Type*}

/-- No exit flag has been set. -/
def NoExit (cfg : Config α) (s : State α) : Prop :=
  s.exitFlag = false ∧ ∀ i < cfg.sourcesCnt, (s.sources i).exitFlag = false

/-- No source adds a frame to an object that was handed over. -/
def Closed (cfg : Config α) (s : State α) : Prop :=
  ∀ i < cfg.sourcesCnt, ∀ name ∈ s.handed, (s.sources i).pc ≠ .adding (some name)

/-! ### Turns -/

/-- The source is between a wait for `empty_ready` and the next `data_ready`. -/
def Source.active (x : Source α) : ℕ :=
  match x.pc, x.watch with
  | .start, .create => 1
  | .start, _ => 0
  | .checkExit, _ => 0
  | .waitEmpty, _ => 0
  | _, _ => 1

theorem Source.active_adding {x : Source α} {name : Option α} (h : x.pc = .adding name) :
    x.active = 1 := by
  simp only [Source.active, h]

theorem Source.idle_cases {x : Source α} (h : x.active = 0) :
    x.pc = .start ∧ x.watch ≠ .create ∨ x.pc = .checkExit ∨ x.pc = .waitEmpty := by
  rw [Source.active] at h
  cases hpc : x.pc with
  | start =>
    refine .inl ⟨rfl, fun hwatch => ?_⟩
    simp [hpc, hwatch] at h
  | checkExit => exact .inr (.inl rfl)
  | waitEmpty => exact .inr (.inr rfl)
  | loop | reading | postData | checkAdd | adding _ | count | postLast | ended => simp [hpc] at h

/-- The source has its turn, or it is about to get it. -/
def Source.turn (x : Source α) : ℕ := x.active + x.emptyReady

/-- The collector has the turn of the source `i`. -/
def CollectorPc.owed (i : ℕ) : CollectorPc → ℕ
  | .waitEmpty | .checkExit | .count _ | .postReady => 1
  | .copy k | .post k => if k ≤ i then 1 else 0
  | .waitData k => if i < k then 1 else 0
  | _ => 0

/-- The collector has the turn to fill an object. -/
def CollectorPc.turn : CollectorPc → ℕ
  | .copy _ | .post _ | .loop | .waitData _ | .postReady => 1
  | _ => 0

/-- The statements that the collector reaches without an exit flag. -/
def CollectorPc.Running : CollectorPc → Prop
  | .stopAll _ | .drain _ | .drainWait _ | .postLast | .returned => False
  | _ => True

/-- The consumer has the turn to hand an object over. -/
def ConsumerPc.turn : ConsumerPc α → ℕ
  | .handOver | .generate | .setName _ | .postEmpty => 1
  | _ => 0

/-! ### Steps of a source -/

/-- What holds of a source as long as no exit flag is set. -/
structure SourceInv (kind : SourceType) (x : Source α) : Prop where
  tcp : kind = .tcp → x.watch = .wait
  udp : x.watch = .wait ∨ x.watch = .create ∧ x.pc = .start ∨ x.watch = .watching ∧ x.live = true
  early : kind = .udp → x.watch = .wait → x.pc = .start
  running : x.pc ≠ .postLast ∧ (kind = .tcp → x.pc ≠ .ended)
  adding : ∀ name, x.pc = .adding name → name = x.data

/-- A step of a source that keeps its turns and its name. -/
structure Keeps (kind : SourceType) (x x' : Source α) : Prop where
  inv : SourceInv kind x'
  data : x'.data = x.data
  turns : x'.turn + x'.dataReady = x.turn + x.dataReady
  turn : 0 < x'.turn → 0 < x.turn

/-- A statement that sets no exit flag keeps the turns of a source. -/
def Quiet (kind : SourceType) (f : Source α → Option (Source α)) : Prop :=
  ∀ x x', f x = some x' → x'.exitFlag = false →
    x.exitFlag = false ∧ (SourceInv kind x → Keeps kind x x')

section Source

variable {kind : SourceType} {addFrame : Bool}

theorem quiet_frameStep : Quiet kind (frameStep (α := α) kind addFrame) := by
  rintro ⟨data, emptyReady, dataReady, exitFlag, framesInObject, live, pc, watch⟩ x' h hx
  have hexit : exitFlag = false := by
    cases pc <;> cases kind <;> simp only [frameStep] at h <;> grind
  refine ⟨hexit, fun ⟨htcp, hudp, hearly, hrun, hadd⟩ => ?_⟩
  subst hexit
  cases pc with
  | start | loop | reading | postData | checkExit | waitEmpty | checkAdd | adding | count | postLast | ended =>
    simp only [frameStep] at h
    refine ⟨⟨?_, ?_, ?_, ?_, ?_⟩, ?_, ?_, ?_⟩ <;> grind [Source.turn, Source.active]

/-- A step that only takes a frame, to the end of the object or to the next frame of it. -/
theorem quiet_of_frame {f : Source α → Option (Source α)}
    (hf : ∀ x x', f x = some x' → x.pc = .reading ∧
      ∃ n pc, x' = { x with framesInObject := n, pc := pc } ∧ (pc = .postData ∨ pc = .checkAdd)) :
    Quiet kind f := by
  intro x x' h hx
  obtain ⟨hpc, n, pc, heq, hto⟩ := hf x x' h
  subst heq
  refine ⟨hx, fun ⟨htcp, hudp, hearly, hrun, hadd⟩ => ?_⟩
  obtain ⟨data, emptyReady, dataReady, exitFlag, framesInObject, live, pc', watch⟩ := x
  refine ⟨⟨?_, ?_, ?_, ?_, ?_⟩, ?_, ?_, ?_⟩ <;> grind [Source.turn, Source.active]

theorem quiet_takeFrame (detected : Bool) : Quiet kind (takeFrame (α := α) detected) := by
  refine quiet_of_frame fun x x' h => ?_
  cases hpc : x.pc with
  | reading =>
    simp only [takeFrame, hpc] at h
    grind
  | _ => simp [takeFrame, hpc] at h

theorem quiet_readError : Quiet kind (readError (α := α) kind) := by
  rintro ⟨data, emptyReady, dataReady, exitFlag, framesInObject, live, pc, watch⟩ x' h hx
  cases kind with
  | tcp =>
    cases pc with
    | reading =>
      cases h
      cases hx
    | _ => cases h
  | udp =>
    cases pc with
    | reading =>
      cases h
      refine ⟨hx, fun ⟨htcp, hudp, hearly, hrun, hadd⟩ => ?_⟩
      refine ⟨⟨?_, ?_, ?_, ?_, ?_⟩, ?_, ?_, ?_⟩ <;> grind [Source.turn, Source.active]
    | _ => cases h

theorem quiet_watchStep : Quiet kind (watchStep (α := α) kind) := by
  rintro ⟨data, emptyReady, dataReady, exitFlag, framesInObject, live, pc, watch⟩ x' h hx
  cases kind with
  | tcp => cases h
  | udp =>
    have hexit : exitFlag = false := by
      cases watch <;> simp only [watchStep] at h <;> grind
    refine ⟨hexit, fun ⟨htcp, hudp, hearly, hrun, hadd⟩ => ?_⟩
    subst hexit
    cases watch with
    | wait | create | watching | stop | setExit | postData | join | returned =>
      simp only [watchStep] at h
      refine ⟨⟨?_, ?_, ?_, ?_, ?_⟩, ?_, ?_, ?_⟩ <;> grind [Source.turn, Source.active]

theorem quiet_raise : Quiet kind fun x : Source α => some { x with exitFlag := true } := by
  rintro x x' h hx
  cases h
  cases hx

end Source

/-! ### The invariant -/

/-- The names of the objects that were handed over, and the one that is filled. -/
def Named (cfg : Config α) (s : State α) : Prop :=
  match s.consumer with
  | .generate =>
    s.data = cfg.name (s.generated - 1) ∧ s.handed = (List.range s.generated).map cfg.name
  | .setName name =>
    name = cfg.name (s.generated - 1) ∧ s.handed = (List.range (s.generated - 1)).map cfg.name
  | _ => s.data = cfg.name (s.generated - 1) ∧ s.handed = (List.range (s.generated - 1)).map cfg.name

/-- What holds as long as no exit flag is set. -/
structure Inv (cfg : Config α) (s : State α) : Prop where
  sources : ∀ i < cfg.sourcesCnt, SourceInv (cfg.kind i) (s.sources i)
  token : ∀ i < cfg.sourcesCnt,
    s.collector.owed i + (s.sources i).turn + (s.sources i).dataReady = 1
  turn : s.dataReady + s.emptyReady + s.consumer.turn + s.collector.turn = 1
  data : ∀ i < cfg.sourcesCnt, 0 < (s.sources i).turn ∨ s.collector = .post i →
    (s.sources i).data = some s.data
  running : s.collector.Running
  generated : 0 < s.generated
  named : Named cfg s
  consumer : s.consumer ≠ .postExit

section Step

variable {cfg : Config α} {s s' : State α} {i : ℕ} {x : Source α}

theorem Inv.setSource (h : Inv cfg s) (hx : Keeps (cfg.kind i) (s.sources i) x) :
    Inv cfg (s.setSource i x) := by
  refine ⟨fun j hj => ?_, fun j hj => ?_, h.turn, fun j hj => ?_, h.running, h.generated, h.named,
    h.consumer⟩
  · by_cases hji : j = i
    · subst hji
      rw [setSource_sources_self]
      exact hx.inv
    · rw [setSource_sources_ne hji]
      exact h.sources j hj
  · by_cases hji : j = i
    · subst hji
      have htoken := h.token j hj
      have hturns := hx.turns
      rw [setSource_sources_self]
      show s.collector.owed j + _ + _ = 1
      omega
    · rw [setSource_sources_ne hji]
      exact h.token j hj
  · by_cases hji : j = i
    · subst hji
      rw [setSource_sources_self, hx.data]
      exact fun ht => h.data j hj (ht.imp_left hx.turn)
    · rw [setSource_sources_ne hji]
      exact h.data j hj

theorem stepSource_inv {f : Source α → Option (Source α)} (hf : Quiet (cfg.kind i) f)
    (hs : s.stepSource cfg i f = some s') (hno : NoExit cfg s') :
    NoExit cfg s ∧ (Inv cfg s → Inv cfg s') := by
  rw [State.stepSource, Option.ite_none_right_eq_some, Option.map_eq_some_iff] at hs
  obtain ⟨hi, x, hx, rfl⟩ := hs
  have hxno : x.exitFlag = false := by
    have hxi := hno.2 i hi
    rwa [setSource_sources_self] at hxi
  obtain ⟨hold, hkeep⟩ := hf _ _ hx hxno
  refine ⟨⟨hno.1, fun j hj => ?_⟩, fun h => h.setSource (hkeep (h.sources i hi))⟩
  by_cases hji : j = i
  · exact hji ▸ hold
  · have hj' := hno.2 j hj
    rwa [setSource_sources_ne hji] at hj'

theorem noExit_exchange {pc : CollectorPc} (hno : NoExit cfg (s.exchange i x pc))
    (hx : x.exitFlag = (s.sources i).exitFlag) : NoExit cfg s := by
  refine ⟨hno.1, fun j hj => ?_⟩
  have hj' := hno.2 j hj
  by_cases hji : j = i
  · subst hji
    rw [exchange_sources_self] at hj'
    exact hx ▸ hj'
  · rwa [exchange_sources_ne hji] at hj'

/-- The statements of the collector that change no source. -/
theorem Inv.collector (h : Inv cfg s) {pc : CollectorPc} (hpc : pc.Running)
    (howed : ∀ i < cfg.sourcesCnt, pc.owed i = s.collector.owed i)
    (hturn : pc.turn = s.collector.turn) (hpost : ∀ i, pc ≠ .post i) :
    Inv cfg { s with collector := pc } where
  sources := h.sources
  token := fun i hi => (howed i hi).symm ▸ h.token i hi
  turn := hturn.symm ▸ h.turn
  data := fun i hi ht => h.data i hi (ht.imp_right fun hp => absurd hp (hpost i))
  running := hpc
  generated := h.generated
  named := h.named
  consumer := h.consumer

/-- The statements of the collector that exchange the turn of one source. -/
theorem Inv.exchange (h : Inv cfg s) {pc : CollectorPc} (hpc : pc.Running)
    (hturn : pc.turn = s.collector.turn)
    (howed : ∀ j < cfg.sourcesCnt, j ≠ i → pc.owed j = s.collector.owed j ∧ pc ≠ .post j)
    (hx : i < cfg.sourcesCnt → SourceInv (cfg.kind i) x ∧ pc.owed i + x.turn + x.dataReady = 1 ∧
      (0 < x.turn ∨ pc = .post i → x.data = some s.data)) : Inv cfg (s.exchange i x pc) := by
  refine ⟨fun j hj => ?_, fun j hj => ?_, hturn ▸ h.turn, fun j hj => ?_, hpc, h.generated, h.named,
    h.consumer⟩
  all_goals by_cases hji : j = i
  · subst hji
    rw [exchange_sources_self]
    exact (hx hj).1
  · rw [exchange_sources_ne hji]
    exact h.sources j hj
  · subst hji
    rw [exchange_sources_self]
    exact (hx hj).2.1
  · rw [exchange_sources_ne hji]
    exact (howed j hj hji).1 ▸ h.token j hj
  · subst hji
    rw [exchange_sources_self]
    exact (hx hj).2.2
  · rw [exchange_sources_ne hji]
    exact fun ht => h.data j hj (ht.imp_right fun hp => absurd hp (howed j hj hji).2)

theorem collector_noExit (hs : collectDataThread cfg s = some s') (hno : NoExit cfg s') :
    NoExit cfg s := by
  have hmove := collector_move hs
  generalize s.collector = pc at hmove
  cases hmove with
  | copy i _ | post i | waitData i _ _ | drainWait i _ => exact noExit_exchange hno rfl
  | count i exit _ hoff _ => exact ⟨hoff hno.1, hno.2⟩
  | stopAll i hi | drain i hi =>
    have hflag := hno.2 i hi
    rw [exchange_sources_self] at hflag
    cases hflag
  | _ => exact hno

theorem collector_inv (h : Inv cfg s) (hs : collectDataThread cfg s = some s')
    (hno : NoExit cfg s') : Inv cfg s' := by
  have hmove := collector_move hs
  have hrun := h.running
  have hturn := h.turn
  have htoken := h.token
  have hdata := h.data
  generalize hc : s.collector = pc at hmove hrun hturn htoken hdata
  cases hmove with
  | waitEmpty hpos =>
    refine { h with running := trivial, token := htoken, turn := ?_, data := fun i hi ht => ?_ }
    · simp only [CollectorPc.turn] at hturn ⊢
      omega
    · have ht' : 0 < (s.sources i).turn := ht.resolve_right fun hp => nomatch hp
      have hi' : 1 + (s.sources i).turn + (s.sources i).dataReady = 1 := htoken i hi
      omega
  | copy i hi =>
    have hi' := htoken i hi
    simp only [CollectorPc.owed, le_refl, if_true] at hi'
    refine h.exchange trivial (hc ▸ rfl) (fun j _ hji => ⟨hc ▸ rfl, fun hp => ?_⟩) fun _ => ⟨?_, ?_, ?_⟩
    · cases hp
      exact hji rfl
    · refine { h.sources i hi with adding := fun name hname => ?_ }
      have hactive : (s.sources i).active = 1 := Source.active_adding hname
      simp only [Source.turn] at hi'
      omega
    · simp only [CollectorPc.owed, le_refl, if_true]
      exact hi'
    · exact fun _ => rfl
  | copied i hi =>
    refine h.collector trivial (fun j hj => ?_) (hc ▸ rfl) fun j hp => nomatch hp
    rw [hc]
    show 0 = if i ≤ j then 1 else 0
    rw [if_neg (by omega)]
  | post i =>
    refine h.exchange trivial (hc ▸ rfl) (fun j _ hji => ⟨?_, fun hp => nomatch hp⟩) fun hi => ?_
    · rw [hc]
      simp only [CollectorPc.owed]
      grind
    · have hi' := htoken i hi
      simp only [CollectorPc.owed, le_refl, if_true, Source.turn] at hi'
      refine ⟨{ h.sources i hi with }, ?_, fun _ => hdata i hi (.inr rfl)⟩
      show (if i + 1 ≤ i then 1 else 0) + ((s.sources i).active + ((s.sources i).emptyReady + 1)) +
        (s.sources i).dataReady = 1
      rw [if_neg (by omega)]
      omega
  | loop =>
    have hexit : s.exitFlag = false := hno.1
    have hgoes : (if s.exitFlag then CollectorPc.drain 0 else .waitData 0) = .waitData 0 := by rw [hexit]; rfl
    rw [hgoes]
    exact h.collector trivial (fun j _ => hc ▸ rfl) (hc ▸ rfl) fun j hp => nomatch hp
  | waitData i hi hpos =>
    refine h.exchange trivial (hc ▸ rfl) (fun j _ hji => ⟨?_, fun hp => nomatch hp⟩) fun _ => ?_
    · rw [hc]
      simp only [CollectorPc.owed]
      grind
    · have hi' := htoken i hi
      simp only [CollectorPc.owed, lt_self_iff_false, if_false] at hi'
      refine ⟨{ h.sources i hi with }, ?_, fun ht => ?_⟩
      · show (if i < i + 1 then 1 else 0) + (s.sources i).turn + ((s.sources i).dataReady - 1) = 1
        rw [if_pos (by omega)]
        omega
      · have ht' : 0 < (s.sources i).turn := ht.resolve_right fun hp => nomatch hp
        omega
  | gotData i hi =>
    refine h.collector trivial (fun j hj => ?_) (hc ▸ rfl) fun j hp => nomatch hp
    rw [hc]
    show 1 = if j < i then 1 else 0
    rw [if_pos (by omega)]
  | postReady =>
    refine { h with running := trivial, token := htoken, turn := ?_, data := fun i hi ht => ?_ }
    · simp only [CollectorPc.turn] at hturn ⊢
      omega
    · exact hdata i hi (ht.imp_right fun hp => nomatch hp)
  | count i exit hi _ _ =>
    refine { h with running := trivial, token := htoken, turn := hturn, data := fun i hi ht => ?_ }
    exact hdata i hi (ht.imp_right fun hp => nomatch hp)
  | counted i hi =>
    exact h.collector trivial (fun j _ => hc ▸ rfl) (hc ▸ rfl) fun j hp => nomatch hp
  | checkExit =>
    have hexit : s.exitFlag = false := hno.1
    have hgoes : (if s.exitFlag then CollectorPc.stopAll 0 else .waitEmpty) = .waitEmpty := by rw [hexit]; rfl
    rw [hgoes]
    exact h.collector trivial (fun j _ => hc ▸ rfl) (hc ▸ rfl) fun j hp => nomatch hp
  | stopAll i _ | stopped i _ | drain i _ | drained i _ | drainWait i _ | postLast => exact hrun.elim

/-- Without an exit flag the collector has the turns of all sources as long as it has not its own. -/
theorem CollectorPc.owed_of_turn {pc : CollectorPc} (hpc : pc.Running) (hturn : pc.turn = 0) :
    pc.owed i = 1 := by
  cases pc with
  | waitEmpty | count _ | checkExit => rfl
  | copy _ | post _ | loop | waitData _ | postReady => cases hturn
  | stopAll _ | drain _ | drainWait _ | postLast | returned => exact hpc.elim

/-- The statements of the consumer. -/
theorem Inv.of_consumer (h : Inv cfg s) (hsources : s'.sources = s.sources)
    (hcollector : s'.collector = s.collector)
    (hturn : s'.dataReady + s'.emptyReady + s'.consumer.turn =
      s.dataReady + s.emptyReady + s.consumer.turn)
    (hdata : s'.data = s.data ∨ s.consumer.turn = 1) (hgenerated : 0 < s'.generated)
    (hnamed : Named cfg s') (hconsumer : s'.consumer ≠ .postExit) : Inv cfg s' := by
  refine ⟨hsources ▸ h.sources, hsources ▸ hcollector ▸ h.token, ?_, fun i hi => ?_,
    hcollector ▸ h.running, hgenerated, hnamed, hconsumer⟩
  · rw [hturn, hcollector]
    exact h.turn
  rw [hsources, hcollector]
  rcases hdata with hdata | hconsumer
  · rw [hdata]
    exact h.data i hi
  -- the consumer changes the name while the collector has the turns of all sources
  have hturns := h.turn
  have hzero : s.collector.turn = 0 := by omega
  have howed : s.collector.owed i = 1 := CollectorPc.owed_of_turn h.running hzero
  have htoken := h.token i hi
  rintro (ht | hp)
  · omega
  · rw [hp] at hzero
    cases hzero

theorem consumer_noExit (hs : collectorAction cfg s = some s') (hno : NoExit cfg s') :
    NoExit cfg s := by
  rw [collectorAction] at hs
  cases hc : s.consumer with
  | waitData =>
    rw [hc] at hs
    obtain ⟨-, hs⟩ := Option.ite_none_right_eq_some.mp hs
    cases hs
    exact hno
  | _ =>
    rw [hc] at hs
    cases hs
    exact hno

theorem consumer_inv (h : Inv cfg s) (hs : collectorAction cfg s = some s')
    (hno : NoExit cfg s') : Inv cfg s' := by
  have hexit : s.exitFlag = false := (consumer_noExit hs hno).1
  have hnamed := h.named
  rw [collectorAction] at hs
  rw [Named] at hnamed
  cases hc : s.consumer with
  | check =>
    rw [hc, hexit] at hs
    rw [hc] at hnamed
    cases hs
    exact h.of_consumer rfl rfl (hc ▸ rfl) (.inl rfl) h.generated hnamed nofun
  | postExit => exact absurd hc h.consumer
  | waitData =>
    rw [hc] at hs hnamed
    obtain ⟨hpos, hs⟩ := Option.ite_none_right_eq_some.mp hs
    cases hs
    refine h.of_consumer rfl rfl ?_ (.inl rfl) h.generated hnamed nofun
    rw [hc]
    show s.dataReady - 1 + s.emptyReady + 1 = s.dataReady + s.emptyReady + 0
    omega
  | handOver =>
    rw [hc] at hs hnamed
    cases hs
    refine h.of_consumer rfl rfl (hc ▸ rfl) (.inl rfl) h.generated ⟨hnamed.1, ?_⟩ nofun
    have hgenerated := h.generated
    show s.handed ++ [s.data] = (List.range s.generated).map cfg.name
    rw [hnamed.1, hnamed.2, ← Nat.sub_add_cancel hgenerated, List.range_succ]
    simp
  | generate =>
    rw [hc] at hs hnamed
    cases hs
    exact h.of_consumer rfl rfl (hc ▸ rfl) (.inl rfl) s.generated.succ_pos ⟨rfl, hnamed.2⟩ nofun
  | setName name =>
    rw [hc] at hs hnamed
    cases hs
    exact h.of_consumer rfl rfl (hc ▸ rfl) (.inr (hc ▸ rfl)) h.generated hnamed nofun
  | postEmpty =>
    rw [hc] at hs hnamed
    cases hs
    refine h.of_consumer rfl rfl ?_ (.inl rfl) h.generated hnamed nofun
    rw [hc]
    show s.dataReady + (s.emptyReady + 1) + 0 = s.dataReady + s.emptyReady + 1
    omega

/-- The names, when the consumer has not the turn. -/
theorem Inv.named_of_turn (h : Inv cfg s) (hturn : s.consumer.turn = 0) :
    s.data = cfg.name (s.generated - 1) ∧
      s.handed = (List.range (s.generated - 1)).map cfg.name := by
  have hnamed := h.named
  rw [Named] at hnamed
  cases hc : s.consumer with
  | check | postExit | waitData =>
    rw [hc] at hnamed
    exact hnamed
  | handOver | generate | setName _ | postEmpty =>
    rw [hc] at hturn
    cases hturn

/-! ### Runs -/

theorem step_inv {a : Label} (hs : step cfg s a = some s') (hno : NoExit cfg s') :
    NoExit cfg s ∧ (Inv cfg s → Inv cfg s') := by
  cases a with
  | source i => exact stepSource_inv quiet_frameStep hs hno
  | frame i detected => exact stepSource_inv (quiet_takeFrame detected) hs hno
  | readError i => exact stepSource_inv quiet_readError hs hno
  | watch i => exact stepSource_inv quiet_watchStep hs hno
  | raise i => exact stepSource_inv quiet_raise hs hno
  | collector => exact ⟨collector_noExit hs hno, fun h => collector_inv h hs hno⟩
  | consumer => exact ⟨consumer_noExit hs hno, fun h => consumer_inv h hs hno⟩

end Step

section Run

variable {cfg : Config α} {s : State α}

theorem inv_initial : Inv cfg (initial cfg) where
  sources _ _ := ⟨fun _ => rfl, .inl rfl, fun _ _ => rfl, ⟨nofun, fun _ => nofun⟩, nofun⟩
  token _ _ := rfl
  turn := rfl
  data _ _ h := h.elim (fun ht => absurd ht (Nat.lt_irrefl 0)) nofun
  running := trivial
  generated := Nat.one_pos
  named := ⟨rfl, rfl⟩
  consumer := nofun

theorem inv_reach (h : (system cfg).Reach Lts.anyStep s) (hno : NoExit cfg s) : Inv cfg s := by
  induction h with
  | init hi => exact hi ▸ inv_initial
  | step _ _ hs ih =>
    obtain ⟨hold, hkeep⟩ := step_inv hs hno
    exact hkeep (ih hold)

/-- While no exit flag is set and the names differ, no source adds a frame to an object that was handed over. -/
theorem closed_of_reach (hname : Set.InjOn cfg.name (Set.Iio s.generated))
    (h : (system cfg).Reach Lts.anyStep s) (hno : NoExit cfg s) : Closed cfg s := by
  have hinv := inv_reach h hno
  intro i hi name hmem hadd
  have hactive : (s.sources i).active = 1 := Source.active_adding hadd
  have htoken := hinv.token i hi
  have hturn : 0 < (s.sources i).turn := by
    simp only [Source.turn]
    omega
  have hcollector : s.collector.turn ≠ 0 := fun hzero => by
    have howed : s.collector.owed i = 1 := CollectorPc.owed_of_turn hinv.running hzero
    omega
  have hturns := hinv.turn
  have hconsumer : s.consumer.turn = 0 := by omega
  obtain ⟨hdata, hhanded⟩ := hinv.named_of_turn hconsumer
  have hfilled : name = s.data :=
    Option.some.inj (((hinv.sources i hi).adding _ hadd).trans (hinv.data i hi (.inl hturn)))
  rw [hhanded, hfilled, hdata] at hmem
  obtain ⟨k, hk, heq⟩ := List.mem_map.mp hmem
  have hlt : k < s.generated - 1 := List.mem_range.mp hk
  have hgenerated := hinv.generated
  have hsame : k = s.generated - 1 :=
    hname (Set.mem_Iio.mpr (by omega)) (Set.mem_Iio.mpr (by omega)) heq
  omega

end Run

/-! ### One source -/

/-- The consumer hands two objects over, and the source goes on with its first frame. -/
def secondObject : List Label :=
  List.flatten [List.replicate 6 .consumer, List.replicate 5 .collector,
    [.source 0, .source 0, .frame 0 false, .source 0, .source 0], List.replicate 6 .collector,
    List.replicate 6 .consumer, List.replicate 3 .collector, [.source 0, .source 0]]

theorem secondObject_reach (name : ℕ → ℕ) : ∃ s, (system (oneSource name)).Reach Lts.anyStep s ∧
    NoExit (oneSource name) s ∧ s.handed = [name 0, name 1] ∧
    (s.sources 0).pc = .adding (some (name 2)) := by
  refine ⟨_, Lts.reach_exec _ _ secondObject rfl rfl fun _ _ _ => trivial, ⟨rfl, fun i hi => ?_⟩, rfl, rfl⟩
  have hi : i = 0 := Nat.lt_one_iff.mp hi
  subst hi
  rfl

theorem closed_secondObject : ∃ s, (system (oneSource id)).Reach Lts.anyStep s ∧
    NoExit (oneSource id) s ∧ s.handed = [0, 1] ∧ (s.sources 0).pc = .adding (some 2) ∧
    Closed (oneSource id) s := by
  obtain ⟨s, hreach, hno, hhanded, hpc⟩ := secondObject_reach id
  exact ⟨s, hreach, hno, hhanded, hpc, closed_of_reach (Set.injOn_id _) hreach hno⟩

/-- The third object has the name of the first one. -/
theorem not_closed_of_equal_names : ¬ ∀ (cfg : Config ℕ) (s : State ℕ),
    (system cfg).Reach Lts.anyStep s → NoExit cfg s → Closed cfg s := by
  intro hall
  obtain ⟨s, hreach, hno, hhanded, hpc⟩ := secondObject_reach (· % 2)
  exact hall _ s hreach hno 0 Nat.one_pos 0 (hhanded ▸ List.mem_cons_self) hpc

end TmkDcl.Collector
