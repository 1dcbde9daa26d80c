import TmkDcl.Pipeline.Delivery

/-!
# Object names in free slots

An action may leave its slot alone, and the pipeline then carries what the slot
held before. So a slot has to be empty when it comes back to the ring.
`finalization_thread` clears the first byte before its push (`pipeline.c:50-56`), a
`process_thread` that drops a job does not (`pipeline.c:272-281`): the names are
fresh in the runs in which only empty slots are dropped.
-/

namespace TmkDcl.Pipeline

/-- The chunk holds the empty string. -/
def emptyName (d : Chunk) : Prop := d.head? = some 0

instance (d : Chunk) : Decidable (emptyName d) := inferInstanceAs (Decidable (_ = _))

/-- A `process_thread` that drops a job pushes an empty slot. -/
def cleanDrops (cfg : Config) (s : State) : Label → Prop
  | .thread k => cfg.method k = some .processThread → (s.thr k).pc = .push →
      emptyName (s.chunk (s.thr k).dataoffset)
  | _ => True

instance (cfg : Config) (s : State) : (a : Label) → Decidable (cleanDrops cfg s a)
  | .thread k => inferInstanceAs (Decidable (cfg.method k = some .processThread →
      (s.thr k).pc = .push → emptyName (s.chunk (s.thr k).dataoffset)))
  | .child _ | .write _ _ | .ret _ _ | .main | .destroy | .raise => .isTrue trivial

/-- The thread has a slot to which its action has not written. -/
def unwritten (t : Thread) (p : ProcessInfo) (c : Child) : Prop :=
  t.pc = .setCmd ∨ t.pc = .setOffs ∨ t.pc = .postJob ∨
    t.pc = .waitResult ∧ (0 < p.semJob ∨ c.pc = .readCmd ∨ c.wrote = false)

/-- The slots that have to be empty: those in the ring, the one a
`finalization_thread` is about to push, and the one the source has taken until
its action writes to it. -/
structure SlotsEmpty (cfg : Config) (s : State) : Prop where
  size : ∀ offs, (s.chunk offs).length = cfg.map.dataSize
  free : ∀ offs ∈ s.ring.contents, emptyName (s.chunk offs)
  cleaned : ∀ k, cfg.method k = some .finalizationThread → (s.thr k).pc = .push →
    emptyName (s.chunk (s.thr k).dataoffset)
  taken : ∀ k, cfg.method k = some .sourceThread → unwritten (s.thr k) (s.proc k) (s.child k) →
    emptyName (s.chunk (s.thr k).dataoffset)

section Events

variable {cfg : Config} {s : State} {i k offs : ℕ} {data : Chunk} {result : ℤ} {wrote : Bool}

theorem pop_mem_events (h : .pop i offs data ∈ s.events cfg k) : (s.thr k).pc = .popTake ∧
    offs = (ringBufferPop s.ring).1 ∧ data = s.chunk offs := by
  cases hpc : (s.thr k).pc <;> simp only [State.events, hpc] at h
  case waitResult => by_cases hm : cfg.method k = some .sourceThread <;> simp [hm, finishEvent] at h
  case postNext | stopPostNext => cases hn : cfg.next k <;> simp [hn] at h
  case popTake =>
    simp only [List.mem_singleton, Event.pop.injEq] at h
    obtain ⟨-, rfl, rfl⟩ := h
    exact ⟨rfl, rfl, rfl⟩
  all_goals simp [finishEvent] at h

theorem finish_mem_events (h : .finish i offs data result wrote ∈ s.events cfg k) : i = k ∧
    Finishing cfg s k ∧ data = s.chunk (s.thr k).dataoffset ∧ wrote = (s.child k).wrote := by
  cases hpc : (s.thr k).pc <;> simp only [State.events, hpc] at h
  case waitResult =>
    by_cases hm : cfg.method k = some .sourceThread
    · simp only [hm, if_true, finishEvent, List.mem_cons, reduceCtorEq, List.not_mem_nil,
        or_false, false_or, Event.finish.injEq] at h
      obtain ⟨rfl, -, rfl, -, rfl⟩ := h
      exact ⟨rfl, Or.inl ⟨hpc, hm⟩, rfl, rfl⟩
    · simp [hm] at h
  case readResult =>
    simp only [finishEvent, List.mem_singleton, Event.finish.injEq] at h
    obtain ⟨rfl, -, rfl, -, rfl⟩ := h
    exact ⟨rfl, Or.inr hpc, rfl, rfl⟩
  case postNext | stopPostNext => cases hn : cfg.next k <;> simp [hn] at h
  all_goals simp at h

end Events

section Steps

variable {cfg : Config} {s s' : State} {i j k offs : ℕ} {a : Label}

theorem Move.free_chunk (hi : Inv cfg s) (hst : StartInv cfg s.startView) (hs : SlotInv cfg s)
    (h : Move cfg s a s') (ho : offs ∈ s.ring.contents) : s'.chunk offs = s.chunk offs := by
  by_contra hne
  obtain ⟨k, hk, hheld, -⟩ := h.chunk hi hst hne
  have hring : offs ∈ s.at .ring := ho
  have := Places.eq_of_mem hs.nodup (mem_places.mpr trivial) (mem_places.mpr hk) hring hheld
  simp at this

theorem ThreadMove.other_chunk (hs : SlotInv cfg s) (h : ThreadMove cfg s k s')
    (hk : k < cfg.modulesCnt) (hj : j < cfg.modulesCnt) (hne : j ≠ k)
    (ho : offs ∈ s.at (.held j)) : s'.chunk offs = s.chunk offs := by
  by_contra hc
  obtain ⟨hpc, rfl⟩ := h.chunk hc
  have hheld : (s.thr k).dataoffset ∈ s.at (.held k) := by simp [State.at, held, Thread.holds, hpc]
  have he := Places.eq_of_mem hs.nodup (mem_places.mpr hj) (mem_places.mpr hk) ho hheld
  exact hne (Place.held.inj he)

theorem ChildMove.other_chunk (hi : Inv cfg s) (hs : SlotInv cfg s) (h : ChildMove cfg s k a s')
    (hk : k < cfg.modulesCnt) (hj : j < cfg.modulesCnt) (hne : j ≠ k)
    (ho : offs ∈ s.at (.held j)) : s'.chunk offs = s.chunk offs := by
  by_contra hc
  obtain ⟨hpc, rfl⟩ := h.chunk (hi.job k) hc
  have hheld : (s.thr k).dataoffset ∈ s.at (.held k) := by simp [State.at, held, Thread.holds, hpc]
  have he := Places.eq_of_mem hs.nodup (mem_places.mpr hj) (mem_places.mpr hk) ho hheld
  exact hne (Place.held.inj he)

theorem unwritten_held {t : Thread} {p : ProcessInfo} {c : Child} (h : unwritten t p c) :
    t.dataoffset ∈ held t := by
  rcases h with h | h | h | ⟨h, -⟩ <;> simp [held, Thread.holds, h]

theorem SlotsEmpty.initial : SlotsEmpty cfg (initial cfg) := by
  have hempty : emptyName (List.replicate cfg.map.dataSize 0) := by
    obtain ⟨n, hn⟩ : ∃ n, cfg.map.dataSize = n + 1 := ⟨_, (Nat.succ_pred_eq_of_pos cfg.dataSize_pos).symm⟩
    rw [hn]
    rfl
  refine ⟨fun offs => ?_, fun offs _ => hempty, fun k _ hpc => ?_, fun k _ hu => hempty⟩
  · simp [TmkDcl.Pipeline.initial]
  · simp [TmkDcl.Pipeline.initial] at hpc

theorem emptyName_set {d : Chunk} (h : 0 < d.length) : emptyName (d.set 0 0) := by
  cases d with
  | nil => simp at h
  | cons b d => rfl

theorem ThreadMove.size (h : ThreadMove cfg s k s') (hs : ∀ offs, (s.chunk offs).length = cfg.map.dataSize) :
    (s'.chunk offs).length = cfg.map.dataSize := by
  cases h
  case clean =>
    simp only [State.goto, State.setChunk]
    by_cases ho : offs = (s.thr k).dataoffset
    · rw [ho, Function.update_self, List.length_set, hs]
    · rw [Function.update_of_ne ho, hs]
  all_goals exact hs offs

/-- A thread that comes to a push comes from the clearing of its slot, or it drops a job. -/
theorem ThreadMove.to_push (h : ThreadMove cfg s k s') (hpc : (s'.thr k).pc = .push) :
    ((s.thr k).pc = .clean ∧ s'.chunk = Function.update s.chunk (s.thr k).dataoffset
      ((s.chunk (s.thr k).dataoffset).set 0 0) ∧ (s'.thr k).dataoffset = (s.thr k).dataoffset) ∨
    cfg.method k = some .processThread := by
  cases h
  case clean hpc' _ => exact Or.inl ⟨hpc', rfl, by simp⟩
  case readResult hm => exact Or.inr hm
  case startPost pc hs | postNext pc hs | stopWaitResult pc hs _ | postStop pc hs
    | postTaken pc hs =>
    exfalso
    revert hpc
    simp only [State.goto, State.setBox, State.setProc, State.emit, Function.update_self, hs]
    split <;> simp
  case checkExit | checkState =>
    exfalso
    revert hpc
    simp only [State.goto, Function.update_self]
    split <;> simp
  all_goals simp at hpc

/-- The source keeps its slot until its child has the job, and has it from the ring. -/
theorem ThreadMove.to_unwritten (h : ThreadMove cfg s k s') (hm : cfg.method k = some .sourceThread)
    (hu : unwritten (s'.thr k) (s'.proc k) (s'.child k)) :
    ((s.thr k).pc = .popTake ∧ (s'.thr k).dataoffset = (ringBufferPop s.ring).1) ∨
    unwritten (s.thr k) (s.proc k) (s.child k) ∧ (s'.thr k).dataoffset = (s.thr k).dataoffset := by
  cases h
  case popTake hpc _ => exact Or.inl ⟨hpc, by simp⟩
  case setCmd hpc => exact Or.inr ⟨Or.inl hpc, by simp⟩
  case setOffs hpc => exact Or.inr ⟨Or.inr (Or.inl hpc), by simp⟩
  case postJob hpc => exact Or.inr ⟨Or.inr (Or.inr (Or.inl hpc)), by simp⟩
  case startPost pc hs | postNext pc hs | stopWaitResult pc hs _ =>
    exfalso
    revert hu
    simp [unwritten, hs, hm]
  case checkExit | checkState =>
    exfalso
    revert hu
    simp only [State.goto, Function.update_self, unwritten]
    split <;> simp
  all_goals simp_all [unwritten]

theorem SlotsEmpty.thread (ch : Chain cfg) (he : SlotsEmpty cfg s) (hi : Inv cfg s)
    (hst : StartInv cfg s.startView) (hs : SlotInv cfg s) (hk : k < cfg.modulesCnt)
    (hok : cleanDrops cfg s (.thread k)) (h : ThreadMove cfg s k s') : SlotsEmpty cfg s' := by
  have hfree : ∀ offs ∈ s.ring.contents, emptyName (s'.chunk offs) := fun offs ho => by
    rw [(Move.thread hk h).free_chunk hi hst hs ho]
    exact he.free offs ho
  refine ⟨fun offs => h.size he.size, ?_, fun j hm hpc => ?_, fun j hm hu => ?_⟩
  · cases h.ring with
    | stay hr | wait _ hr | post _ hr =>
      rw [hr]
      exact hfree
    | take hpc hr =>
      have hc := (RingBuffer.pop_spec hs.wf (hs.used_pos hk hpc)).2
      rw [hr]
      exact fun offs ho => hfree offs (hc ▸ List.mem_cons_of_mem _ ho)
    | put hpc hin hr =>
      have hlt := hs.used_lt hk (by simp [Thread.holds, hpc])
      rw [hr, (RingBuffer.push_spec hs.wf hlt hs.maxCnt_lt hin _).2]
      intro offs ho
      rcases List.mem_append.mp ho with ho | ho
      · exact hfree offs ho
      · -- the slot pushed: dropped by a process_thread, or cleared
        obtain rfl := List.mem_singleton.mp ho
        have hchunk : s'.chunk = s.chunk := h.chunk_eq (by simp [hpc])
        rw [hchunk]
        rcases ch.method_cases hk with hm | hm | hm
        · have hruns := hi.runs k _ hm
          simp [hpc, ThreadMethod.runs] at hruns
        · exact hok hm hpc
        · exact he.cleaned k hm hpc
  · by_cases hjk : j = k
    · subst hjk
      rcases h.to_push hpc with ⟨-, hchunk, hoffs⟩ | hm'
      · rw [hchunk, hoffs, Function.update_self]
        exact emptyName_set (by rw [he.size]; exact cfg.dataSize_pos)
      · simp [hm] at hm'
    · rw [h.thr_of_ne hjk] at hpc ⊢
      have hheld : (s.thr j).dataoffset ∈ s.at (.held j) := by simp [State.at, held, Thread.holds, hpc]
      rw [h.other_chunk hs hk (lt_of_method hm) hjk hheld]
      exact he.cleaned j hm hpc
  · by_cases hjk : j = k
    · subst hjk
      have hclean : (s.thr j).pc ≠ .clean := fun hpc => by
        have hruns := hi.runs j _ hm
        simp [hpc, ThreadMethod.runs] at hruns
      rw [h.chunk_eq hclean]
      rcases h.to_unwritten hm hu with ⟨hpc, hoffs⟩ | ⟨hu', hoffs⟩
      · have hc := (RingBuffer.pop_spec hs.wf (hs.used_pos hk hpc)).2
        rw [hoffs]
        exact he.free _ (hc ▸ List.mem_cons_self)
      · rw [hoffs]
        exact he.taken j hm hu'
    · rw [h.thr_of_ne hjk, h.proc_of_ne hjk, h.child_of_ne hjk] at hu
      rw [h.thr_of_ne hjk, h.other_chunk hs hk (lt_of_method hm) hjk (unwritten_held hu)]
      exact he.taken j hm hu

/-- A child that has written to the slot of the source has its job. -/
theorem ChildMove.to_unwritten (hj : JobInv (s.thr k) (s.proc k) (s.child k))
    (h : ChildMove cfg s k a s') (hu : unwritten (s'.thr k) (s'.proc k) (s'.child k)) :
    unwritten (s.thr k) (s.proc k) (s.child k) ∧ s'.chunk = s.chunk := by
  have htok := hj.tokens
  have hwait : (s.thr k).pc.jobPhase.waiting ≤ 1 := by
    unfold JobPhase.waiting
    split <;> omega
  rw [h.thr] at hu
  have hpre : ∀ {p : ProcessInfo} {c : Child}, unwritten (s.thr k) p c → (s.thr k).pc ≠ .waitResult →
      unwritten (s.thr k) (s.proc k) (s.child k) := fun hu hne => by
    rcases hu with hp | hp | hp | ⟨hp, -⟩
    · exact Or.inl hp
    · exact Or.inr (Or.inl hp)
    · exact Or.inr (Or.inr (Or.inl hp))
    · exact absurd hp hne
  by_cases hpc : (s.thr k).pc = .waitResult
  · cases h with
    | write d hc ha hd =>
      -- the child works, so there is no second job under way
      rw [hc] at htok
      simp only [ChildPc.busy] at htok
      have hjob : (s.proc k).semJob = 0 := by omega
      simp [unwritten, hpc, hjob, hc] at hu
    | waitJob hc hr => exact ⟨Or.inr (Or.inr (Or.inr ⟨hpc, Or.inl hr⟩)), rfl⟩
    | readJob hc _ => exact ⟨Or.inr (Or.inr (Or.inr ⟨hpc, Or.inr (Or.inl hc)⟩)), rfl⟩
    | readStop hc hcmd => simp [hj.cmd_job (by simp [hpc, Pc.jobPhase])] at hcmd
    | noAction hc _ | ret _ _ hc _ _ =>
      refine ⟨?_, rfl⟩
      simp only [State.setProc, State.setChild, State.emit, Function.update_self] at hu
      rcases hu with hp | hp | hp | ⟨-, hjob | hread | hw⟩
      · simp [hpc] at hp
      · simp [hpc] at hp
      · simp [hpc] at hp
      · exact Or.inr (Or.inr (Or.inr ⟨hpc, Or.inl hjob⟩))
      · simp at hread
      · exact Or.inr (Or.inr (Or.inr ⟨hpc, Or.inr (Or.inr hw)⟩))
    | post e hc =>
      refine ⟨?_, rfl⟩
      simp only [State.setProc, State.setChild, Function.update_self] at hu
      rcases hu with hp | hp | hp | ⟨-, hjob | hread | hw⟩
      · simp [hpc] at hp
      · simp [hpc] at hp
      · simp [hpc] at hp
      · exact Or.inr (Or.inr (Or.inr ⟨hpc, Or.inl hjob⟩))
      · cases e <;> simp at hread
      · exact Or.inr (Or.inr (Or.inr ⟨hpc, Or.inr (Or.inr hw)⟩))
  · refine ⟨hpre hu hpc, funext fun offs => ?_⟩
    by_contra hne
    exact hpc (h.chunk hj hne).1

theorem ChildMove.size (h : ChildMove cfg s k a s') (hs : ∀ offs, (s.chunk offs).length = cfg.map.dataSize) :
    (s'.chunk offs).length = cfg.map.dataSize := by
  cases h
  case write d _ _ hd =>
    simp only [State.setChild, State.setChunk]
    by_cases ho : offs = (s.proc k).cmdOffs
    · rw [ho, Function.update_self, hd]
    · rw [Function.update_of_ne ho, hs]
  all_goals exact hs offs

theorem SlotsEmpty.child (he : SlotsEmpty cfg s) (hi : Inv cfg s) (hst : StartInv cfg s.startView)
    (hs : SlotInv cfg s) (h : ChildMove cfg s k a s') : SlotsEmpty cfg s' := by
  -- only the slot of the module of the child changes
  have hchunk : ∀ j, j < cfg.modulesCnt → ∀ offs ∈ s.at (.held j), j ≠ k →
      s'.chunk offs = s.chunk offs := fun j hj offs ho hne => by
    by_contra hc
    obtain ⟨hpc, rfl⟩ := h.chunk (hi.job k) hc
    have hk : k < cfg.modulesCnt := by
      by_contra hk
      have hu := (hst.modules k).uninit.mpr (Or.inl (Nat.le_of_not_lt hk))
      simp [hpc] at hu
    exact hc (h.other_chunk hi hs hk hj hne ho)
  refine ⟨fun offs => h.size he.size, fun offs ho => ?_, fun j hm hpc => ?_, fun j hm hu => ?_⟩
  · rw [h.ring] at ho
    rw [(Move.child h).free_chunk hi hst hs ho]
    exact he.free offs ho
  · rw [h.thr] at hpc ⊢
    have hheld : (s.thr j).dataoffset ∈ s.at (.held j) := by simp [State.at, held, Thread.holds, hpc]
    rw [(Move.child h).held_chunk hi hst hs (lt_of_method hm) hheld (by simp [hpc]) (by simp [hpc])]
    exact he.cleaned j hm hpc
  · rw [h.thr]
    by_cases hjk : j = k
    · subst hjk
      obtain ⟨hu', hc⟩ := h.to_unwritten (hi.job j) hu
      rw [hc]
      exact he.taken j hm hu'
    · rw [h.thr, h.proc_of_ne hjk, h.child_of_ne hjk] at hu
      rw [hchunk j (lt_of_method hm) _ (unwritten_held hu) hjk]
      exact he.taken j hm hu

theorem SlotsEmpty.main (he : SlotsEmpty cfg s) (h : MainMove cfg s s') : SlotsEmpty cfg s' := by
  have hchunk : s'.chunk = s.chunk := by cases h <;> rfl
  obtain ⟨hsize, hfree, hclean, htaken⟩ := he
  rcases h.create_or with ⟨k, hm, hk, rfl⟩ | ⟨hthr, -⟩
  · refine ⟨hsize, hfree, fun j hm' hpc => ?_, fun j hm' hu => ?_⟩
    all_goals
      by_cases hjk : j = k
    · subst hjk
      simp [createModule] at hpc
    · simp only [createModule, Function.update_of_ne hjk] at hpc ⊢
      exact hclean j hm' hpc
    · subst hjk
      simp [createModule, unwritten] at hu
    · simp only [createModule, Function.update_of_ne hjk] at hu ⊢
      exact htaken j hm' hu
  · rw [← hchunk] at hsize hfree hclean htaken
    rw [← h.ring] at hfree
    rw [← hthr] at hclean htaken
    rw [← h.proc, ← h.child] at htaken
    exact ⟨hsize, hfree, hclean, htaken⟩

theorem slotsEmpty (ch : Chain cfg) (h : (sys cfg).Reach (cleanDrops cfg) s) : SlotsEmpty cfg s := by
  refine h.invariant (SlotsEmpty cfg) ?_ fun s a s' hr he hok hs => ?_
  · rintro s rfl
    exact .initial
  · have hi := reach_inv ch hr
    have hst := startInv hr
    cases step_move ch hs with
    | thread hk h => exact he.thread ch hi hst (slotInv ch hr) hk hok h
    | child h => exact he.child hi hst (slotInv ch hr) h
    | main h => exact he.main h
    | destroy h => cases h <;> exact ⟨he.size, he.free, he.cleaned, he.taken⟩
    | raise => exact ⟨he.size, he.free, he.cleaned, he.taken⟩

end Steps

/-! ### The names -/

section Names

variable {cfg : Config} {s s' : State} {i j k offs : ℕ} {data : Chunk} {a : Label}

/-- The entries of the log about slots of the source that its action has not written to. -/
structure LogEmpty (cfg : Config) (s : State) : Prop where
  popped : ∀ i offs data, .pop i offs data ∈ s.log → emptyName data
  skipped : ∀ i offs data result, cfg.method i = some .sourceThread →
    .finish i offs data result false ∈ s.log → emptyName data

theorem LogEmpty.thread (hl : LogEmpty cfg s) (he : SlotsEmpty cfg s) (hi : Inv cfg s)
    (hs : SlotInv cfg s) (hk : k < cfg.modulesCnt) (h : ThreadMove cfg s k s') :
    LogEmpty cfg s' := by
  refine ⟨fun i offs data hmem => ?_, fun i offs data result hm hmem => ?_⟩
  all_goals
    rw [h.log] at hmem
    rcases List.mem_append.mp hmem with hmem | hmem
  · exact hl.popped i offs data hmem
  · obtain ⟨hpc, rfl, rfl⟩ := pop_mem_events hmem
    have hc := (RingBuffer.pop_spec hs.wf (hs.used_pos hk hpc)).2
    exact he.free _ (hc ▸ List.mem_cons_self)
  · exact hl.skipped i offs data result hm hmem
  · obtain ⟨rfl, hf, rfl, hw⟩ := finish_mem_events hmem
    rcases hf with ⟨hpc, -⟩ | hpc
    · exact he.taken i hm (Or.inr (Or.inr (Or.inr ⟨hpc, Or.inr (Or.inr hw.symm)⟩)))
    · have hruns := hi.runs i _ hm
      simp [hpc, ThreadMethod.runs] at hruns

theorem logEmpty (ch : Chain cfg) (h : (sys cfg).Reach (cleanDrops cfg) s) : LogEmpty cfg s := by
  refine h.invariant (LogEmpty cfg) ?_ fun s a s' hr hl _ hs => ?_
  · rintro s rfl
    exact ⟨by simp [initial], by simp [initial]⟩
  · obtain ⟨hpop, hskip⟩ := hl
    cases step_move ch hs with
    | thread hk h =>
      exact LogEmpty.thread ⟨hpop, hskip⟩ (slotsEmpty ch hr) (reach_inv ch hr) (slotInv ch hr) hk h
    | child h =>
      rcases h.log with he | ⟨cmd, offs, result, he⟩
      · rw [← he] at hpop hskip
        exact ⟨hpop, hskip⟩
      · refine ⟨fun i offs data hmem => hpop i offs data ?_,
          fun i offs data result hm hmem => hskip i offs data result hm ?_⟩ <;>
          simpa [he] using hmem
    | main h =>
      rw [← h.log] at hpop hskip
      exact ⟨hpop, hskip⟩
    | destroy h =>
      rw [← h.log] at hpop hskip
      exact ⟨hpop, hskip⟩
    | raise => exact ⟨hpop, hskip⟩

/-- No name of an earlier job comes back: the source takes empty slots, what it
passes on without a write is empty, and so is what its next module gets unless
the action has written it. -/
structure NamesFresh (ch : Chain cfg) (s : State) : Prop where
  popped : ∀ i offs data, .pop i offs data ∈ s.log → emptyName data
  skipped : ∀ i offs data result, cfg.method i = some .sourceThread →
    .finish i offs data result false ∈ s.log → emptyName data
  delivered : ∀ j, cfg.next ch.head = some j → ∀ offs data, (offs, data) ∈ jobs (s.taken j) →
    emptyName data ∨ ∃ result, .finish ch.head offs data result true ∈ s.log

theorem mem_finished {result : ℤ} (h : ((offs, data), result) ∈ s.finished i) :
    ∃ wrote, .finish i offs data result wrote ∈ s.log := by
  obtain ⟨e, he, hf⟩ := List.mem_filterMap.mp h
  cases e with
  | finish k offs' data' result' wrote =>
    by_cases hk : k = i
    · simp only [Event.finished, hk, if_true, Option.some.injEq, Prod.mk.injEq] at hf
      obtain ⟨⟨rfl, rfl⟩, rfl⟩ := hf
      exact ⟨wrote, hk ▸ he⟩
    · simp [hk] at hf
  | _ => simp at hf

theorem no_stale_names (ch : Chain cfg) (h : (sys cfg).Reach (cleanDrops cfg) s) :
    NamesFresh ch s := by
  have hl := logEmpty ch h
  refine ⟨hl.popped, hl.skipped, fun j hn offs data hmem => ?_⟩
  have hacc := (taken_isPrefix ch h hn).subset hmem
  obtain ⟨⟨x, result⟩, hx, he⟩ := List.mem_map.mp hacc
  simp only at he
  subst he
  obtain ⟨wrote, hfin⟩ := mem_finished (List.mem_filter.mp hx).1
  cases wrote with
  | true => exact Or.inr ⟨result, hfin⟩
  | false => exact Or.inl (hl.skipped _ _ _ _ ch.method_head hfin)

/-- The head does a job, in which its action writes `d` to the slot, and posts it. -/
def headJob (d : List Chunk) : List Label :=
  List.flatten [List.replicate 8 (.thread 0), [.child 0, .child 0], d.map (.write 0),
    [.ret 0 0, .child 0], List.replicate 5 (.thread 0)]

/-- The second module takes its job and drops it with the result 5. -/
def dropJob : List Label :=
  List.flatten [List.replicate 7 (.thread 1), [.child 1, .child 1, .ret 1 5, .child 1],
    List.replicate 4 (.thread 1)]

/-- A job whose slot the head has left empty is dropped, and the slot comes round again. -/
theorem no_stale_names_round :
    ∃ s, (sys (threeModules some fun _ => true)).Reach
        (cleanDrops (threeModules some fun _ => true)) s ∧ s.finishedOffs 0 = [512, 516] ∧
      .finish 1 512 [0, 0, 0, 0] 5 false ∈ s.log ∧ (s.thr 0).dataoffset = 512 ∧
      NamesFresh (threeModules.chain some fun _ => true) s := by
  have hreach := Lts.reach_of_guard (Lts.reach_exec
    ((sys (threeModules some fun _ => true)).guard (cleanDrops (threeModules some fun _ => true)))
    Lts.anyStep (List.flatten [startLabels 3, headJob [], dropJob, headJob [],
      List.replicate 8 (.thread 0)]) rfl (by decide) fun _ _ _ => trivial)
  refine ⟨_, hreach, ?_, ?_, ?_, no_stale_names (threeModules.chain some fun _ => true) hreach⟩
  all_goals decide

/-- A job with the name "A" is dropped, and the head gets its slot with the name still there. -/
theorem no_stale_names_dropped :
    ¬ ∀ cfg : Config, ∀ ch : Chain cfg, ∀ s, (sys cfg).Reach Lts.anyStep s → NamesFresh ch s := by
  intro hall
  have hreach := Lts.reach_exec (sys (threeModules some fun _ => true)) Lts.anyStep
    (List.flatten [startLabels 3, headJob [[65, 0, 0, 0]], dropJob, headJob [],
      List.replicate 8 (.thread 0)]) rfl (by decide) fun _ _ _ => trivial
  have hnames := hall _ (threeModules.chain some fun _ => true) _ hreach
  exact absurd (hnames.popped 0 512 [65, 0, 0, 0] (by decide)) (by decide)

end Names

end TmkDcl.Pipeline
