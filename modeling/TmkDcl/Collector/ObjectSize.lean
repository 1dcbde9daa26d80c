import TmkDcl.Collector.Closing

/-!
# The size of an object (source.c, collector.c, simple_collector.c)

`frames_in_object` starts at 0, so that the first frame of a source ends an object before it is
added, and `data_ready` of the collector starts at 1 for an object that no source has seen. From the
third object on a source starts each with the frame that ended the one before.
-/

namespace TmkDcl.Collector

variable {α : Type*}

/-- `takeFrame` for any `object_detection_frame_limit`. -/
def takeFrameOf (limit : ℕ) (detected : Bool) (x : Source α) : Option (Source α) :=
  match x.pc with
  | .reading =>
    if detected ∨ x.framesInObject % limit = 0 then
      some { x with framesInObject := 0, pc := .postData }
    else some { x with pc := .checkAdd }
  | _ => none

theorem takeFrameOf_limit (detected : Bool) (x : Source α) :
    takeFrameOf objectDetectionFrameLimit detected x = takeFrame detected x := rfl

/-- `step` with a limit for each source. -/
def limitedStep (cfg : Config α) (limit : ℕ → ℕ) (s : State α) : Label → Option (State α)
  | .frame i detected => s.stepSource cfg i (takeFrameOf (limit i) detected)
  | a => step cfg s a

/-- The number of the name in `collector->data`. -/
def State.current (s : State α) : ℕ :=
  match s.consumer with
  | .setName _ => s.generated - 2
  | _ => s.generated - 1

def FramePc.isAdding : FramePc α → Bool
  | .adding _ => true
  | _ => false

/-- A state with the number of the name in `data` of each source, and how many frames each has added
under each number. -/
structure Counted (α : Type*) where
  state : State α
  number : ℕ → ℕ
  frames : ℕ → ℕ → ℕ

/-- The numbers after a step: the collector copies the number with the name. -/
def Counted.numberAfter (cfg : Config α) (c : Counted α) : Label → ℕ → ℕ
  | .collector =>
    match c.state.collector with
    | .copy i =>
      if i < cfg.sourcesCnt then Function.update c.number i c.state.current else c.number
    | _ => c.number
  | _ => c.number

/-- The frames after a step: the source has called `add_frame_callback`. -/
def Counted.framesAfter (c : Counted α) : Label → ℕ → ℕ → ℕ
  | .source i =>
    if (c.state.sources i).pc.isAdding then
      Function.update c.frames i
        (Function.update (c.frames i) (c.number i) (c.frames i (c.number i) + 1))
    else c.frames
  | _ => c.frames

def countStep (cfg : Config α) (limit : ℕ → ℕ) (c : Counted α) (a : Label) : Option (Counted α) :=
  (limitedStep cfg limit c.state a).map fun s => ⟨s, c.numberAfter cfg a, c.framesAfter a⟩

def countInit (cfg : Config α) : Counted α := ⟨initial cfg, fun _ => 0, fun _ _ => 0⟩

def counting (cfg : Config α) (limit : ℕ → ℕ) : Lts (Counted α) Label where
  init c := c = countInit cfg
  step := countStep cfg limit

/-- A source has added at least one frame to the object with the number `k`, and at most the limit. -/
def Sized (limit : ℕ → ℕ) (c : Counted α) (i k : ℕ) : Prop :=
  1 ≤ c.frames i k ∧ c.frames i k ≤ limit i

/-! ### The frames of one source -/

/-- What a source has added to an object that it has finished. -/
def Finished (addFrame : Bool) (limit m added : ℕ) : Prop :=
  if m ≤ 1 ∨ addFrame = false then added = 0 else 1 ≤ added ∧ added ≤ limit

/-- What a source that has taken `n` frames for an object has added. -/
def addedOf (addFrame : Bool) (n : ℕ) : ℕ := if addFrame then n else 0

/-- What a source has added to the object with the number `m`; `given` says whether it has been given
the name since it has finished the object before. -/
def Phase (addFrame : Bool) (limit given : ℕ) (x : Source α) (m added : ℕ) : Prop :=
  match x.pc with
  | .start => x.framesInObject = 0 ∧ added = 0 ∧ m = if x.watch = .create then 1 else given
  | .loop | .reading | .ended =>
    m = 1 ∧ x.framesInObject = 0 ∧ added = 0 ∨
      2 ≤ m ∧ 1 ≤ x.framesInObject ∧ x.framesInObject ≤ limit ∧
        added = addedOf addFrame x.framesInObject
  | .checkAdd =>
    2 ≤ m ∧ x.framesInObject < limit ∧ added = addedOf addFrame x.framesInObject
  | .adding _ => addFrame = true ∧ 2 ≤ m ∧ x.framesInObject < limit ∧ added = x.framesInObject
  | .count =>
    2 ≤ m ∧ x.framesInObject < limit ∧ added = addedOf addFrame (x.framesInObject + 1)
  | .postData => x.framesInObject = 0 ∧ 1 ≤ m ∧ Finished addFrame limit m added
  | .checkExit | .waitEmpty =>
    x.framesInObject = 0 ∧
      if given = 0 then 1 ≤ m ∧ Finished addFrame limit m added else 2 ≤ m ∧ added = 0
  | .postLast => False

/-- A statement of a source keeps the phase, with one more frame after `add_frame_callback`. -/
def KeepsPhase (kind : SourceType) (addFrame : Bool) (limit : ℕ) (f : Source α → Option (Source α)) :
    Prop :=
  ∀ x x' post m added, f x = some x' → x'.exitFlag = false → SourceInv kind x →
    x.active + x.emptyReady + post ≤ 1 → Phase addFrame limit (x.emptyReady + post) x m added →
    Phase addFrame limit (x'.emptyReady + post) x' m added

section Source

variable {kind : SourceType} {addFrame : Bool} {limit : ℕ}

theorem finished_of_taken {m added n : ℕ} (h : m = 1 ∧ n = 0 ∧ added = 0 ∨
    2 ≤ m ∧ 1 ≤ n ∧ n ≤ limit ∧ added = addedOf addFrame n) :
    1 ≤ m ∧ Finished addFrame limit m added := by
  cases h with
  | inl hfirst =>
    obtain ⟨rfl, -, rfl⟩ := hfirst
    exact ⟨le_refl 1, by simp [Finished]⟩
  | inr hlater =>
    obtain ⟨hm, hpos, hle, rfl⟩ := hlater
    refine ⟨by omega, ?_⟩
    cases addFrame with
    | false => simp [Finished, addedOf]
    | true =>
      rw [Finished, if_neg (by simp; omega)]
      exact ⟨hpos, hle⟩

theorem keepsPhase_takeFrameOf (detected : Bool) :
    KeepsPhase (α := α) kind addFrame limit (takeFrameOf limit detected) := by
  intro x x' post m added h _ _ hactive hphase
  rw [takeFrameOf] at h
  cases hpc : x.pc with
  | reading =>
    simp only [hpc] at h
    simp only [Phase, hpc] at hphase
    split at h
    · cases h
      exact ⟨rfl, finished_of_taken hphase⟩
    · rename_i hnot
      cases h
      have hmod : x.framesInObject % limit ≠ 0 := fun h0 => hnot (.inr h0)
      cases hphase with
      | inl hfirst =>
        rw [hfirst.2.1, Nat.zero_mod] at hmod
        exact absurd rfl hmod
      | inr hlater =>
        obtain ⟨hm, -, hle, hadded⟩ := hlater
        have hne : x.framesInObject ≠ limit := by
          intro heq
          rw [heq, Nat.mod_self] at hmod
          exact hmod rfl
        exact ⟨hm, Nat.lt_of_le_of_ne hle hne, hadded⟩
  | _ =>
    simp only [hpc] at h
    cases h

/-- A statement of the thread that takes the frames keeps the phase, with one more frame after
`add_frame_callback`. -/
theorem phase_frameStep {x x' : Source α} {post m added : ℕ} (hlimit : 1 ≤ limit)
    (h : frameStep kind addFrame x = some x') (hexit : x'.exitFlag = false)
    (hactive : x.active + x.emptyReady + post ≤ 1)
    (hphase : Phase addFrame limit (x.emptyReady + post) x m added) :
    Phase addFrame limit (x'.emptyReady + post) x' m
      (added + if x.pc.isAdding then 1 else 0) := by
  obtain ⟨data, emptyReady, dataReady, exitFlag, framesInObject, live, pc, watch⟩ := x
  cases pc with
  | start =>
    obtain ⟨hguard, h⟩ := Option.ite_none_right_eq_some.mp h
    cases h
    obtain ⟨hframes, hadded, hm⟩ := hphase
    have hgiven : emptyReady + post = 1 := by
      have hpos : 0 < emptyReady := hguard.2
      have hone : _ + emptyReady + post ≤ 1 := hactive
      omega
    refine .inl ⟨?_, hframes, hadded⟩
    rw [hm]
    split
    · rfl
    · exact hgiven
  | loop =>
    cases kind with
    | tcp =>
      cases h
      rw [show exitFlag = false from hexit]
      exact hphase
    | udp =>
      cases h
      cases live
      · exact hphase
      · exact hphase
  | reading =>
    cases h
    exact hphase
  | postData =>
    cases h
    have hgiven : emptyReady + post = 0 := by
      simp only [Source.active] at hactive
      omega
    refine ⟨hphase.1, ?_⟩
    rw [if_pos hgiven]
    exact hphase.2
  | checkExit =>
    cases h
    rw [show exitFlag = false from hexit]
    exact hphase
  | waitEmpty =>
    obtain ⟨hpos, h⟩ := Option.ite_none_right_eq_some.mp h
    cases h
    obtain ⟨hframes, hgiven⟩ := hphase
    have hpos : 0 < emptyReady := hpos
    have hne : emptyReady + post ≠ 0 := by omega
    rw [if_neg hne] at hgiven
    obtain ⟨hm, hadded⟩ := hgiven
    have hframes : framesInObject = 0 := hframes
    refine ⟨hm, ?_, ?_⟩
    · show framesInObject < limit
      omega
    · show added = addedOf addFrame framesInObject
      rw [hadded, hframes]
      simp [addedOf]
  | checkAdd =>
    cases h
    rw [show exitFlag = false from hexit]
    cases addFrame with
    | false =>
      obtain ⟨hm, hlt, hadded⟩ := hphase
      exact ⟨hm, hlt, hadded⟩
    | true =>
      obtain ⟨hm, hlt, hadded⟩ := hphase
      exact ⟨rfl, hm, hlt, hadded⟩
  | adding name =>
    cases h
    obtain ⟨haddFrame, hm, hlt, hadded⟩ := hphase
    refine ⟨hm, hlt, ?_⟩
    rw [addedOf, if_pos haddFrame, hadded]
    rfl
  | count =>
    cases h
    obtain ⟨hm, hlt, hadded⟩ := hphase
    exact .inr ⟨hm, Nat.succ_pos _, hlt, hadded⟩
  | postLast => exact hphase.elim
  | ended => cases h

theorem keepsPhase_readError : KeepsPhase (α := α) kind addFrame limit (readError kind) := by
  intro x x' post m added h hexit _ _ hphase
  cases kind with
  | tcp =>
    cases hpc : x.pc with
    | reading =>
      simp only [readError, hpc] at h
      cases h
      cases hexit
    | _ =>
      simp only [readError, hpc] at h
      cases h
  | udp =>
    cases hpc : x.pc with
    | reading =>
      simp only [readError, hpc] at h
      cases h
      simp only [Phase, hpc] at hphase
      exact hphase
    | _ =>
      simp only [readError, hpc] at h
      cases h

theorem keepsPhase_watchStep : KeepsPhase (α := α) kind addFrame limit (watchStep kind) := by
  intro x x' post m added h hexit hinv hactive hphase
  cases kind with
  | tcp => cases h
  | udp =>
    obtain hwait | ⟨hcreate, hpc⟩ | ⟨hwatching, hlive⟩ := hinv.udp
    · have hpc : x.pc = .start := hinv.early rfl hwait
      simp only [watchStep, hwait] at h
      obtain ⟨hpos, h⟩ := Option.ite_none_right_eq_some.mp h
      cases h
      simp only [Phase, hpc, hwait, reduceCtorEq, if_false, if_true] at hphase ⊢
      refine ⟨hphase.1, hphase.2.1, ?_⟩
      omega
    · simp only [watchStep, hcreate] at h
      cases h
      simp only [Phase, hpc, hcreate, if_true] at hphase ⊢
      exact .inl ⟨hphase.2.2, hphase.1, hphase.2.1⟩
    · simp only [watchStep, hwatching] at h
      cases h
      have hstays : (if !x.exitFlag && x.live then WatchPc.watching else .stop) = x.watch := by
        rw [show x.exitFlag = false from hexit, hlive, hwatching]
        rfl
      rw [hstays]
      exact hphase

theorem keepsPhase_raise :
    KeepsPhase (α := α) kind addFrame limit fun x => some { x with exitFlag := true } := by
  intro x x' post m added h hexit
  cases h
  cases hexit

end Source

/-! ### The frames of the collector -/

/-- The collector has to copy the name of the new object to the source `i`. -/
def CollectorPc.uncopied (i : ℕ) : CollectorPc → ℕ
  | .copy k => if k ≤ i then 1 else 0
  | .post k => if k < i then 1 else 0
  | _ => 0

/-- The consumer has handed an object over and not given the turn back. -/
def ConsumerPc.handed : ConsumerPc α → ℕ
  | .generate | .setName _ | .postEmpty => 1
  | _ => 0

/-- The collector is about to give the source `i` the name that it has copied. -/
def CollectorPc.copied (i : ℕ) : CollectorPc → ℕ
  | .post k => if k = i then 1 else 0
  | _ => 0

/-- The frames of the source `i`, as long as no exit flag is set: it has the number of the object that
is filled, or of the one before where that has been handed over, and it has finished all earlier
ones. -/
structure SourceCount (cfg : Config α) (limit : ℕ → ℕ) (c : Counted α) (i : ℕ) : Prop where
  number : c.number i + c.state.emptyReady + c.state.consumer.handed + c.state.collector.uncopied i =
    c.state.handed.length
  later : ∀ k, c.number i < k → c.frames i k = 0
  earlier : ∀ k < c.number i, Finished (cfg.addFrame i) (limit i) k (c.frames i k)
  phase : Phase (cfg.addFrame i) (limit i)
    ((c.state.sources i).emptyReady + c.state.collector.copied i) (c.state.sources i) (c.number i)
    (c.frames i (c.number i))

structure CountInv (cfg : Config α) (limit : ℕ → ℕ) (c : Counted α) : Prop where
  inv : Inv cfg c.state
  sources : ∀ i < cfg.sourcesCnt, SourceCount cfg limit c i

section Step

variable {cfg : Config α} {limit : ℕ → ℕ} {c c' : Counted α} {s : State α} {i : ℕ}

/-- A source that has not its turn has finished its object, if it has not been given the next one. -/
theorem Phase.finished {addFrame : Bool} {limit m added : ℕ} {x : Source α}
    (h : Phase addFrame limit 0 x m added) (hactive : x.active = 0) :
    Finished addFrame limit m added := by
  rcases Source.idle_cases hactive with ⟨hpc, hcreate⟩ | hpc | hpc
  · simp only [Phase, hpc, if_neg hcreate] at h
    obtain ⟨-, rfl, rfl⟩ := h
    simp [Finished]
  · simp only [Phase, hpc, if_true] at h
    exact h.2.2
  · simp only [Phase, hpc, if_true] at h
    exact h.2.2

/-- While a source has still to be given a name, the collector has its turn. -/
theorem CountInv.owed (h : CountInv cfg limit c)
    (hpending : c.state.emptyReady + c.state.consumer.handed + c.state.collector.uncopied i ≠ 0) :
    c.state.emptyReady + c.state.consumer.handed + c.state.collector.uncopied i = 1 ∧
      c.state.collector.owed i = 1 ∧ c.state.collector.copied i = 0 := by
  have hturn := h.inv.turn
  have hrun := h.inv.running
  have hhanded : c.state.consumer.handed ≤ c.state.consumer.turn := by
    cases c.state.consumer <;> simp [ConsumerPc.handed, ConsumerPc.turn]
  generalize c.state.collector = pc at *
  cases pc with
  | copy k =>
    simp only [CollectorPc.uncopied, CollectorPc.turn, CollectorPc.owed, CollectorPc.copied] at *
    split at hpending <;> grind
  | post k =>
    simp only [CollectorPc.uncopied, CollectorPc.turn, CollectorPc.owed, CollectorPc.copied] at *
    grind
  | loop | waitData _ | postReady =>
    simp only [CollectorPc.uncopied, CollectorPc.turn] at *
    omega
  | waitEmpty | count _ | checkExit =>
    simp only [CollectorPc.uncopied, CollectorPc.turn] at *
    exact ⟨by omega, rfl, rfl⟩
  | stopAll _ | drain _ | drainWait _ | postLast | returned => exact hrun.elim

theorem CountInv.finished (h : CountInv cfg limit c) (hi : i < cfg.sourcesCnt) {k : ℕ}
    (hk : k < c.state.handed.length) : Finished (cfg.addFrame i) (limit i) k (c.frames i k) := by
  have hsource := h.sources i hi
  have hnumber := hsource.number
  by_cases hlt : k < c.number i
  · exact hsource.earlier k hlt
  obtain ⟨hone, howed, hcopied⟩ := h.owed (i := i) (by omega)
  have heq : k = c.number i := by omega
  have htoken := h.inv.token i hi
  rw [Source.turn] at htoken
  have hphase := hsource.phase
  have hgiven : (c.state.sources i).emptyReady + c.state.collector.copied i = 0 := by omega
  rw [hgiven] at hphase
  rw [heq]
  exact hphase.finished (by omega)

/-! ### The steps -/

theorem quiet_takeFrameOf {kind : SourceType} (limit : ℕ) (detected : Bool) :
    Quiet kind (takeFrameOf (α := α) limit detected) := by
  refine quiet_of_frame fun x x' h => ?_
  cases hpc : x.pc with
  | reading =>
    simp only [takeFrameOf, hpc] at h
    grind
  | _ => simp [takeFrameOf, hpc] at h

theorem limitedStep_eq {a : Label} (ha : ∀ i detected, a ≠ .frame i detected) :
    limitedStep cfg limit s a = step cfg s a := by
  cases a with
  | frame i detected => exact absurd rfl (ha i detected)
  | source i | readError i | watch i | raise i | collector | consumer => rfl

theorem limitedStep_inv {s' : State α} {a : Label} (hs : limitedStep cfg limit s a = some s')
    (hno : NoExit cfg s') : NoExit cfg s ∧ (Inv cfg s → Inv cfg s') := by
  cases a with
  | frame i detected => exact stepSource_inv (quiet_takeFrameOf (limit i) detected) hs hno
  | source i | readError i | watch i | raise i | collector | consumer =>
    rw [limitedStep_eq (by simp)] at hs
    exact step_inv hs hno

/-- A source that has its phase again, with what it has added to its object. -/
theorem CountInv.of_source {x : Source α} {frames : ℕ → ℕ → ℕ} (h : CountInv cfg limit c)
    (hinv : Inv cfg (c.state.setSource i x)) (hother : ∀ j, j ≠ i → frames j = c.frames j)
    (hsame : ∀ k, k ≠ c.number i → frames i k = c.frames i k)
    (hphase : Phase (cfg.addFrame i) (limit i) (x.emptyReady + c.state.collector.copied i) x
      (c.number i) (frames i (c.number i))) :
    CountInv cfg limit ⟨c.state.setSource i x, c.number, frames⟩ := by
  refine ⟨hinv, ?_⟩
  intro j hj
  have hold := h.sources j hj
  by_cases hji : j = i
  · subst hji
    refine ⟨hold.number, ?_, ?_, ?_⟩
    · intro k hk
      have hk : c.number j < k := hk
      show frames j k = 0
      rw [hsame k (by omega)]
      exact hold.later k hk
    · intro k hk
      have hk : k < c.number j := hk
      show Finished _ _ k (frames j k)
      rw [hsame k (by omega)]
      exact hold.earlier k hk
    · show Phase _ _ (((c.state.setSource j x).sources j).emptyReady + _) _ _ _
      rw [setSource_sources_self]
      exact hphase
  · refine ⟨hold.number, ?_, ?_, ?_⟩
    · show ∀ k, c.number j < k → frames j k = 0
      rw [hother j hji]
      exact hold.later
    · show ∀ k < c.number j, Finished _ _ k (frames j k)
      rw [hother j hji]
      exact hold.earlier
    · show Phase _ _ (((c.state.setSource i x).sources j).emptyReady + _) _ _ (frames j (c.number j))
      rw [setSource_sources_ne hji, hother j hji]
      exact hold.phase

theorem CountInv.of_same (h : CountInv cfg limit c) (hinv : Inv cfg s)
    (hnumber : ∀ j < cfg.sourcesCnt,
      s.emptyReady + s.consumer.handed + s.collector.uncopied j + c.state.handed.length =
        c.state.emptyReady + c.state.consumer.handed + c.state.collector.uncopied j +
          s.handed.length)
    (hphase : ∀ j < cfg.sourcesCnt, Phase (cfg.addFrame j) (limit j)
      ((s.sources j).emptyReady + s.collector.copied j) (s.sources j) (c.number j)
      (c.frames j (c.number j))) : CountInv cfg limit ⟨s, c.number, c.frames⟩ := by
  refine ⟨hinv, ?_⟩
  intro j hj
  have hold := h.sources j hj
  refine ⟨?_, hold.later, hold.earlier, hphase j hj⟩
  have hnew := hnumber j hj
  have hnumber := hold.number
  show c.number j + s.emptyReady + s.consumer.handed + s.collector.uncopied j = s.handed.length
  omega

theorem Phase.next {addFrame : Bool} {limit m added : ℕ} {x : Source α} {data : Option α}
    (h : Phase addFrame limit 0 x m added) (hactive : x.active = 0) :
    Phase addFrame limit 1 { x with data := data } (m + 1) 0 := by
  rcases Source.idle_cases hactive with ⟨hpc, hcreate⟩ | hpc | hpc
  · simp only [Phase, hpc, if_neg hcreate] at h
    obtain ⟨hframes, -, rfl⟩ := h
    simp only [Phase, hpc, if_neg hcreate]
    exact ⟨hframes, trivial, trivial⟩
  · simp only [Phase, hpc, if_true] at h
    simp only [Phase, hpc, Nat.one_ne_zero, if_false]
    exact ⟨h.1, by omega, trivial⟩
  · simp only [Phase, hpc, if_true] at h
    simp only [Phase, hpc, Nat.one_ne_zero, if_false]
    exact ⟨h.1, by omega, trivial⟩

theorem CountInv.copy (h : CountInv cfg limit c) (hc : c.state.collector = .copy i)
    (hi : i < cfg.sourcesCnt)
    (hinv : Inv cfg (c.state.exchange i { c.state.sources i with data := some c.state.data } (.post i))) :
    CountInv cfg limit
      ⟨c.state.exchange i { c.state.sources i with data := some c.state.data } (.post i),
        Function.update c.number i c.state.current, c.frames⟩ := by
  have hturn := h.inv.turn
  have hold := h.sources i hi
  have hnumber := hold.number
  have hphase := hold.phase
  have htoken := h.inv.token i hi
  rw [hc] at hturn hnumber hphase htoken
  have howed : (CollectorPc.copy i).owed i = 1 := if_pos (le_refl i)
  have huncopied : (CollectorPc.copy i).uncopied i = 1 := if_pos (le_refl i)
  have hcopied : (CollectorPc.copy i).copied i = 0 := rfl
  have hcturn : (CollectorPc.copy i).turn = 1 := rfl
  have hconsumer : c.state.consumer.turn = 0 := by omega
  have hhanded : c.state.consumer.handed = 0 ∧ c.state.current = c.state.generated - 1 := by
    rw [State.current]
    generalize c.state.consumer = pc at hconsumer
    cases pc with
    | check | postExit | waitData | handOver => exact ⟨rfl, rfl⟩
    | generate | setName _ | postEmpty => cases hconsumer
  have hlength : c.state.handed.length = c.state.current := by
    rw [(h.inv.named_of_turn hconsumer).2, hhanded.2]
    simp
  refine ⟨hinv, ?_⟩
  intro j hj
  by_cases hji : j = i
  · subst hji
    rw [Source.turn] at htoken
    have hzero : c.frames j c.state.current = 0 := hold.later _ (by omega)
    have hnext : c.state.current = c.number j + 1 := by omega
    have hgiven : (c.state.sources j).emptyReady = 0 := by omega
    rw [hgiven, hcopied, Nat.zero_add] at hphase
    refine ⟨?_, ?_, ?_, ?_⟩
    · show Function.update c.number j c.state.current j + c.state.emptyReady +
        c.state.consumer.handed + (CollectorPc.post j).uncopied j = c.state.handed.length
      have hpost : (CollectorPc.post j).uncopied j = 0 := if_neg (lt_irrefl j)
      rw [Function.update_self, hpost, hlength]
      omega
    · intro k hk
      have hk : Function.update c.number j c.state.current j < k := hk
      rw [Function.update_self] at hk
      exact hold.later k (by omega)
    · intro k hk
      have hk : k < Function.update c.number j c.state.current j := hk
      rw [Function.update_self] at hk
      exact h.finished hj (by omega)
    · show Phase _ _ (((c.state.exchange j _ _).sources j).emptyReady + (CollectorPc.post j).copied j) _
        (Function.update c.number j c.state.current j) (c.frames j (Function.update c.number j _ j))
      have hpost : (CollectorPc.post j).copied j = 1 := if_pos rfl
      rw [exchange_sources_self, Function.update_self, hzero, hpost, hnext]
      show Phase _ _ ((c.state.sources j).emptyReady + 1) _ _ _
      rw [hgiven]
      exact hphase.next (by omega)
  · have hother := h.sources j hj
    have hnumberj := hother.number
    have hphasej := hother.phase
    rw [hc] at hnumberj hphasej
    have hsame : (CollectorPc.post i).uncopied j = (CollectorPc.copy i).uncopied j := by
      simp only [CollectorPc.uncopied]
      grind
    have hcopiedj : (CollectorPc.post i).copied j = (CollectorPc.copy i).copied j :=
      if_neg fun heq => hji heq.symm
    have hnumbers : Function.update c.number i c.state.current j = c.number j :=
      Function.update_of_ne hji _ _
    refine ⟨?_, ?_, ?_, ?_⟩
    · show Function.update c.number i _ j + _ + _ + (CollectorPc.post i).uncopied j = _
      rw [hnumbers, hsame]
      exact hnumberj
    · show ∀ k, Function.update c.number i _ j < k → c.frames j k = 0
      rw [hnumbers]
      exact hother.later
    · show ∀ k < Function.update c.number i _ j, Finished _ _ k (c.frames j k)
      rw [hnumbers]
      exact hother.earlier
    · show Phase _ _ (((c.state.exchange i _ _).sources j).emptyReady + (CollectorPc.post i).copied j) _
        (Function.update c.number i _ j) (c.frames j (Function.update c.number i _ j))
      rw [exchange_sources_ne hji, hnumbers, hcopiedj]
      exact hphasej

/-- A source has its turn at most once, counting the one that the collector is about to give. -/
theorem CountInv.given_le (h : CountInv cfg limit c) (hi : i < cfg.sourcesCnt) :
    (c.state.sources i).active + (c.state.sources i).emptyReady + c.state.collector.copied i ≤ 1 := by
  have htoken := h.inv.token i hi
  rw [Source.turn] at htoken
  have hcopied : c.state.collector.copied i ≤ c.state.collector.owed i := by
    cases c.state.collector with
    | post k =>
      simp only [CollectorPc.copied, CollectorPc.owed]
      grind
    | waitEmpty | copy _ | loop | waitData _ | postReady | count _ | checkExit | stopAll _ | drain _
    | drainWait _ | postLast | returned => exact Nat.zero_le _
  omega

theorem CountInv.collector (h : CountInv cfg limit c) (hs : collectDataThread cfg c.state = some s)
    (hinv : Inv cfg s) (hno : NoExit cfg s) :
    CountInv cfg limit ⟨s, c.numberAfter cfg .collector, c.frames⟩ := by
  have hmove := collector_move hs
  have hrun := h.inv.running
  have hexit := (collector_noExit hs hno).1
  rw [Counted.numberAfter]
  generalize hc : c.state.collector = pc at hmove hrun
  cases hmove with
  | waitEmpty hpos =>
    refine h.of_same hinv (fun j _ => ?_) fun j hj => ?_
    · rw [hc]
      show c.state.emptyReady - 1 + c.state.consumer.handed + 1 + c.state.handed.length =
        c.state.emptyReady + c.state.consumer.handed + 0 + c.state.handed.length
      omega
    · have hphase := (h.sources j hj).phase
      rw [hc] at hphase
      exact hphase
  | copy i hi =>
    simp only [if_pos hi]
    exact h.copy hc hi hinv
  | copied i hi =>
    simp only [if_neg (Nat.not_lt.mpr hi)]
    refine h.of_same hinv (fun j hj => ?_) fun j hj => ?_
    · rw [hc]
      have huncopied : (CollectorPc.copy i).uncopied j = 0 := if_neg (by omega)
      rw [huncopied]
      rfl
    · have hphase := (h.sources j hj).phase
      rw [hc] at hphase
      exact hphase
  | post i =>
    refine h.of_same hinv (fun j _ => ?_) fun j hj => ?_
    · rw [hc]
      have huncopied : (CollectorPc.copy (i + 1)).uncopied j = (CollectorPc.post i).uncopied j := rfl
      show _ + _ + (CollectorPc.copy (i + 1)).uncopied j + _ = _
      rw [huncopied]
      rfl
    · have hphase := (h.sources j hj).phase
      rw [hc] at hphase
      by_cases hji : j = i
      · subst hji
        have hcopied : (CollectorPc.post j).copied j = 1 := if_pos rfl
        rw [hcopied] at hphase
        rw [exchange_sources_self]
        exact hphase
      · have hcopied : (CollectorPc.post i).copied j = 0 := if_neg fun heq => hji heq.symm
        rw [hcopied] at hphase
        rw [exchange_sources_ne hji]
        exact hphase
  | loop =>
    have hgoes : (if c.state.exitFlag then CollectorPc.drain 0 else .waitData 0) = .waitData 0 := by
      rw [hexit]
      rfl
    rw [hgoes] at hinv ⊢
    refine h.of_same hinv (fun j _ => ?_) fun j hj => ?_
    · rw [hc]
      rfl
    · have hphase := (h.sources j hj).phase
      rw [hc] at hphase
      exact hphase
  | waitData i hi hpos =>
    refine h.of_same hinv (fun j _ => ?_) fun j hj => ?_
    · rw [hc]
      rfl
    · have hphase := (h.sources j hj).phase
      rw [hc] at hphase
      by_cases hji : j = i
      · subst hji
        rw [exchange_sources_self]
        exact hphase
      · rw [exchange_sources_ne hji]
        exact hphase
  | gotData i hi | postReady | count i exit hi _ _ | counted i hi =>
    refine h.of_same hinv (fun j _ => ?_) fun j hj => ?_
    · rw [hc]
      rfl
    · have hphase := (h.sources j hj).phase
      rw [hc] at hphase
      exact hphase
  | checkExit =>
    have hgoes : (if c.state.exitFlag then CollectorPc.stopAll 0 else .waitEmpty) = .waitEmpty := by
      rw [hexit]
      rfl
    rw [hgoes] at hinv ⊢
    refine h.of_same hinv (fun j _ => ?_) fun j hj => ?_
    · rw [hc]
      rfl
    · have hphase := (h.sources j hj).phase
      rw [hc] at hphase
      exact hphase
  | stopAll i _ | stopped i _ | drain i _ | drained i _ | drainWait i _ | postLast => exact hrun.elim

theorem CountInv.consumer (h : CountInv cfg limit c) (hs : collectorAction cfg c.state = some s)
    (hinv : Inv cfg s) : CountInv cfg limit ⟨s, c.number, c.frames⟩ := by
  have hphase := fun j hj => (h.sources j hj).phase
  rw [collectorAction] at hs
  cases hc : c.state.consumer with
  | check =>
    rw [hc] at hs
    cases hs
    refine h.of_same hinv (fun j _ => ?_) hphase
    rw [hc]
    cases hexit : c.state.exitFlag <;> rfl
  | postExit => exact absurd hc h.inv.consumer
  | waitData =>
    rw [hc] at hs
    obtain ⟨-, hs⟩ := Option.ite_none_right_eq_some.mp hs
    cases hs
    refine h.of_same hinv (fun j _ => ?_) hphase
    rw [hc]
    rfl
  | handOver =>
    rw [hc] at hs
    cases hs
    refine h.of_same hinv (fun j _ => ?_) hphase
    rw [hc]
    show c.state.emptyReady + 1 + c.state.collector.uncopied j + c.state.handed.length =
      c.state.emptyReady + 0 + c.state.collector.uncopied j + (c.state.handed ++ [c.state.data]).length
    rw [List.length_append, List.length_singleton]
    omega
  | generate =>
    rw [hc] at hs
    cases hs
    refine h.of_same hinv (fun j _ => ?_) hphase
    rw [hc]
    rfl
  | setName name =>
    rw [hc] at hs
    cases hs
    refine h.of_same hinv (fun j _ => ?_) hphase
    rw [hc]
    rfl
  | postEmpty =>
    rw [hc] at hs
    cases hs
    refine h.of_same hinv (fun j _ => ?_) hphase
    rw [hc]
    show c.state.emptyReady + 1 + 0 + c.state.collector.uncopied j + c.state.handed.length =
      c.state.emptyReady + 1 + c.state.collector.uncopied j + c.state.handed.length
    omega

theorem CountInv.source {f : Source α → Option (Source α)} (h : CountInv cfg limit c)
    (hf : KeepsPhase (cfg.kind i) (cfg.addFrame i) (limit i) f)
    (hs : c.state.stepSource cfg i f = some s) (hinv : Inv cfg s) (hno : NoExit cfg s) :
    CountInv cfg limit ⟨s, c.number, c.frames⟩ := by
  rw [State.stepSource, Option.ite_none_right_eq_some, Option.map_eq_some_iff] at hs
  obtain ⟨hi, x, hx, rfl⟩ := hs
  have hexit : x.exitFlag = false := by
    have hxi := hno.2 i hi
    rwa [setSource_sources_self] at hxi
  refine h.of_source hinv (fun _ _ => rfl) (fun _ _ => rfl) ?_
  exact hf _ _ _ _ _ hx hexit (h.inv.sources i hi) (h.given_le hi) (h.sources i hi).phase

theorem CountInv.frame (h : CountInv cfg limit c) (hlimit : 1 ≤ limit i)
    (hs : c.state.stepSource cfg i (frameStep (cfg.kind i) (cfg.addFrame i)) = some s)
    (hinv : Inv cfg s) (hno : NoExit cfg s) :
    CountInv cfg limit ⟨s, c.number, c.framesAfter (.source i)⟩ := by
  rw [State.stepSource, Option.ite_none_right_eq_some, Option.map_eq_some_iff] at hs
  obtain ⟨hi, x, hx, rfl⟩ := hs
  have hexit : x.exitFlag = false := by
    have hxi := hno.2 i hi
    rwa [setSource_sources_self] at hxi
  have hphase := phase_frameStep hlimit hx hexit (h.given_le hi) (h.sources i hi).phase
  rw [Counted.framesAfter]
  cases hadding : (c.state.sources i).pc.isAdding with
  | false =>
    rw [hadding] at hphase
    exact h.of_source hinv (fun _ _ => rfl) (fun _ _ => rfl) hphase
  | true =>
    rw [hadding] at hphase
    simp only [if_true] at hphase ⊢
    refine h.of_source hinv (fun j hji => Function.update_of_ne hji _ _) (fun k hk => ?_) ?_
    · rw [Function.update_self, Function.update_of_ne hk]
    · rw [Function.update_self, Function.update_self]
      exact hphase

theorem countStep_inv {a : Label} (hlimit : ∀ i < cfg.sourcesCnt, 1 ≤ limit i)
    (h : CountInv cfg limit c) (hs : countStep cfg limit c a = some c')
    (hno : NoExit cfg c'.state) : CountInv cfg limit c' := by
  obtain ⟨s, hlimited, rfl⟩ := Option.map_eq_some_iff.mp hs
  have hinv : Inv cfg s := (limitedStep_inv hlimited hno).2 h.inv
  cases a with
  | source i =>
    have hi : i < cfg.sourcesCnt := by
      have hsource : c.state.stepSource cfg i _ = some s := hlimited
      rw [State.stepSource, Option.ite_none_right_eq_some] at hsource
      exact hsource.1
    exact h.frame (hlimit i hi) hlimited hinv hno
  | frame i detected => exact h.source (keepsPhase_takeFrameOf detected) hlimited hinv hno
  | readError i => exact h.source keepsPhase_readError hlimited hinv hno
  | watch i => exact h.source keepsPhase_watchStep hlimited hinv hno
  | raise i => exact h.source keepsPhase_raise hlimited hinv hno
  | collector => exact h.collector hlimited hinv hno
  | consumer => exact h.consumer hlimited hinv

end Step

section Run

variable {cfg : Config α} {limit : ℕ → ℕ} {c : Counted α}

theorem countInv_init : CountInv cfg limit (countInit cfg) where
  inv := inv_initial
  sources i _ := by
    refine ⟨rfl, fun _ _ => rfl, fun k hk => absurd hk (Nat.not_lt_zero k), ?_⟩
    exact ⟨rfl, rfl, rfl⟩

theorem countInv_reach (hlimit : ∀ i < cfg.sourcesCnt, 1 ≤ limit i)
    (h : (counting cfg limit).Reach Lts.anyStep c) (hno : NoExit cfg c.state) :
    CountInv cfg limit c := by
  induction h with
  | init hi => exact hi ▸ countInv_init
  | @step c c' a _ _ hs ih =>
    have hold : NoExit cfg c.state := by
      obtain ⟨s, hlimited, rfl⟩ := Option.map_eq_some_iff.mp hs
      exact (limitedStep_inv hlimited hno).1
    exact countStep_inv hlimit (ih hold) hs hno

theorem Finished.sized_iff {addFrame : Bool} {limit m added : ℕ}
    (h : Finished addFrame limit m added) :
    1 ≤ added ∧ added ≤ limit ↔ 2 ≤ m ∧ addFrame = true := by
  rw [Finished] at h
  split at h
  · rename_i hnone
    rw [h]
    grind
  · grind

/-- Before an exit, an object that was handed over has its frames from every source exactly if it is
neither the first nor the second, and every source has an `add_frame_callback`. -/
theorem object_sized_iff (hlimit : ∀ i < cfg.sourcesCnt, 1 ≤ limit i)
    (h : (counting cfg limit).Reach Lts.anyStep c) (hno : NoExit cfg c.state) {k : ℕ}
    (hk : k < c.state.handed.length) :
    (∀ i < cfg.sourcesCnt, Sized limit c i k) ↔
      ∀ i < cfg.sourcesCnt, 2 ≤ k ∧ cfg.addFrame i = true := by
  have hinv := countInv_reach hlimit h hno
  constructor
  · intro hsized i hi
    exact (hinv.finished hi hk).sized_iff.mp (hsized i hi)
  · intro hlater i hi
    exact (hinv.finished hi hk).sized_iff.mpr (hlater i hi)

end Run

/-! ### One source -/

/-- A third object is handed over, after the detector has ended it. -/
def thirdObject : List Label :=
  secondObject ++ [.source 0, .source 0, .source 0, .frame 0 true, .source 0, .source 0] ++
    List.replicate 6 .collector ++ List.replicate 3 .consumer

theorem thirdObject_reach : ∃ c, (counting (oneSource id) fun _ => 50).Reach Lts.anyStep c ∧
    NoExit (oneSource id) c.state ∧ c.state.handed = [0, 1, 2] ∧
    (List.range 3).map (c.frames 0) = [0, 0, 1] := by
  refine ⟨_, Lts.reach_exec _ _ thirdObject rfl rfl fun _ _ _ => trivial, ⟨rfl, fun i hi => ?_⟩, rfl, rfl⟩
  have hi : i = 0 := Nat.lt_one_iff.mp hi
  subst hi
  rfl

theorem object_sized_thirdObject : ∃ c, (counting (oneSource id) fun _ => 50).Reach Lts.anyStep c ∧
    NoExit (oneSource id) c.state ∧ c.state.handed = [0, 1, 2] ∧ Sized (fun _ => 50) c 0 2 := by
  obtain ⟨c, hreach, hno, hhanded, -⟩ := thirdObject_reach
  have hk : 2 < c.state.handed.length := by rw [hhanded]; decide
  have hsized := (object_sized_iff (fun _ _ => Nat.le_of_ble_eq_true rfl) hreach hno hk).mpr
    fun _ _ => ⟨le_refl 2, rfl⟩
  exact ⟨c, hreach, hno, hhanded, hsized 0 Nat.one_pos⟩

/-- The first two objects have no frames. -/
theorem not_sized_firstObjects : ¬ ∀ (cfg : Config ℕ) (limit : ℕ → ℕ) (c : Counted ℕ),
    (∀ i < cfg.sourcesCnt, 1 ≤ limit i) → (counting cfg limit).Reach Lts.anyStep c →
    NoExit cfg c.state → ∀ k < c.state.handed.length, ∀ i < cfg.sourcesCnt, Sized limit c i k := by
  intro hall
  obtain ⟨c, hreach, hno, hhanded, hframes⟩ := thirdObject_reach
  have hsized := hall _ _ c (fun _ _ => Nat.le_of_ble_eq_true rfl) hreach hno 1
    (hhanded ▸ Nat.le_of_ble_eq_true rfl) 0 Nat.one_pos
  have hnone : c.frames 0 1 = 0 := by simp_all [List.range_succ]
  rw [Sized, hnone] at hsized
  exact absurd hsized.1 (Nat.lt_irrefl 0)

end TmkDcl.Collector
