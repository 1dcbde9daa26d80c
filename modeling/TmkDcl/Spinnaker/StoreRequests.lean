import TmkDcl.Spinnaker.Recording

/-!
# Beats that are asked for (tools/spinnaker/src/captureManager.cpp, main_acquisition.cpp)

In the calibration mode a beat is saved because `storeOnce` has asked for it. The flag is tested in front of the
files and cleared behind them, so a request that comes while a beat is saved is cleared with the one before.
-/

namespace TmkDcl.Spinnaker

/-- The number of the saved beat that answers a request, or that the flag was cleared before a test saw it. -/
inductive Answer where
  | pending
  | saved (number : ℕ)
  | dropped
  deriving DecidableEq

/-- A call of `storeOnce`, and where `run` was then. -/
structure Request where
  during : RunPc
  answer : Answer
  deriving DecidableEq

/-- The flag is going to be cleared before it is tested. -/
def RunPc.deaf : RunPc → Bool
  | .begin | .save _ | .rearm => true
  | _ => false

def Request.settle (answer : Answer) (r : Request) : Request :=
  if r.answer = .pending then { r with answer } else r

/-- The requests after a step. -/
def Recorder.requests (s : Recorder) (rs : List Request) : RecorderLabel → List Request
  | .storeOnce => rs ++ [⟨s.pc, .pending⟩]
  | .stop => rs
  | .run _ =>
    match s.pc with
    | .storeBeat => if s.mStoreThisBeat then rs.map (Request.settle (.saved s.j)) else rs
    | .begin | .rearm => rs.map (Request.settle .dropped)
    | _ => rs

def asking (count : ℕ) : Lts (Recorder × List Request) RecorderLabel where
  init x := ∃ b, x = (.initial b, [])
  step x a := (x.1.step count false a).map fun s' => (s', x.1.requests x.2 a)

/-- Each saved beat was asked for and each request has one answer, which is a saved beat unless the request came
while `run` did not listen. -/
structure RequestsAnswered (s : Recorder) (rs : List Request) : Prop where
  saved : ∀ r ∈ rs, ∀ n, r.answer = .saved n → n < s.kept.count true ∧ r.during.deaf = false
  asked : ∀ n < s.kept.count true, ∃ r ∈ rs, r.answer = .saved n
  dropped : ∀ r ∈ rs, r.answer = .dropped → r.during.deaf = true
  missed : ∀ r ∈ rs, r.during.deaf = true → r.answer = .dropped ∨ r.answer = .pending ∧ s.pc.deaf = true
  pending : ∀ r ∈ rs, r.answer = .pending → r.during.deaf = false → s.pc.deaf = false ∧ s.mStoreThisBeat = true

/-- With `RequestsAnswered`: where `run` listens, the flag is set only if somebody waits. -/
structure RequestInv (s : Recorder) (rs : List Request) : Prop extends RequestsAnswered s rs where
  heard : s.pc ≠ .returned → s.pc.deaf = false → s.mStoreThisBeat = true → ∃ r ∈ rs, r.answer = .pending

section Requests

variable {count : ℕ} {s s' : Recorder} {rs : List Request} {r : Request} {answer : Answer}

/-- What was answered keeps its answer, and the rest gets this one. -/
theorem mem_settle (h : r ∈ rs.map (Request.settle answer)) : ∃ q ∈ rs, r.during = q.during ∧
    (q.answer = .pending ∧ r.answer = answer ∨ q.answer ≠ .pending ∧ r.answer = q.answer) := by
  obtain ⟨q, hq, rfl⟩ := List.mem_map.mp h
  by_cases hpending : q.answer = .pending
  · exact ⟨q, hq, by simp [Request.settle, hpending], Or.inl ⟨hpending, by simp [Request.settle, hpending]⟩⟩
  · exact ⟨q, hq, by simp [Request.settle, hpending], Or.inr ⟨hpending, by simp [Request.settle, hpending]⟩⟩

theorem settle_mem_of_ne (h : r ∈ rs) (hne : r.answer ≠ .pending) : r ∈ rs.map (Request.settle answer) :=
  List.mem_map.mpr ⟨r, h, by rw [Request.settle, if_neg hne]⟩

theorem settle_mem (h : r ∈ rs) (hpending : r.answer = .pending) :
    ⟨r.during, answer⟩ ∈ rs.map (Request.settle answer) :=
  List.mem_map.mpr ⟨r, h, by rw [Request.settle, if_pos hpending]⟩

theorem not_pending_of_settle (hne : answer ≠ .pending) (h : r ∈ rs.map (Request.settle answer)) :
    r.answer ≠ .pending := by
  obtain ⟨q, -, -, ⟨-, hnew⟩ | ⟨hold, hsame⟩⟩ := mem_settle h
  · rwa [hnew]
  · rwa [hsame]

/-- A step that neither tests the flag nor sets it. -/
theorem RequestInv.move (h : RequestInv s rs) (hkept : s'.kept = s.kept)
    (hflag : s'.mStoreThisBeat = s.mStoreThisBeat) (hdeaf : s'.pc.deaf = s.pc.deaf)
    (hreturned : s.pc ≠ .returned) : RequestInv s' rs where
  saved := hkept ▸ h.saved
  asked := hkept ▸ h.asked
  dropped := h.dropped
  missed := hdeaf ▸ h.missed
  pending := by
    rw [hdeaf, hflag]
    exact h.pending
  heard _ := by
    rw [hdeaf, hflag]
    exact h.heard hreturned

/-- `mStoreThisBeat.store(mStoreStream)`. -/
theorem RequestInv.clear (h : RequestInv s rs) (hdeaf : s.pc.deaf = true) (hkept : s'.kept = s.kept)
    (hheard : s'.pc ≠ .returned → s'.mStoreThisBeat = false) :
    RequestInv s' (rs.map (Request.settle .dropped)) where
  saved := by
    intro r hr n hn
    obtain ⟨q, hq, hduring, ⟨-, hnew⟩ | ⟨-, hsame⟩⟩ := mem_settle hr
    · rw [hnew] at hn
      cases hn
    · rw [hduring, hkept]
      exact h.saved q hq n (hsame.symm.trans hn)
  asked := by
    intro n hn
    obtain ⟨r, hr, hanswer⟩ := h.asked n (hkept ▸ hn)
    exact ⟨r, settle_mem_of_ne hr (by rw [hanswer]; exact Answer.noConfusion), hanswer⟩
  dropped := by
    intro r hr hanswer
    obtain ⟨q, hq, hduring, ⟨hpending, -⟩ | ⟨-, hsame⟩⟩ := mem_settle hr
    · rw [hduring]
      by_contra hlistening
      have hfalse := (h.pending q hq hpending (Bool.not_eq_true _ ▸ hlistening)).1
      exact Bool.false_ne_true (hfalse.symm.trans hdeaf)
    · rw [hduring]
      exact h.dropped q hq (hsame.symm.trans hanswer)
  missed := by
    intro r hr hlate
    obtain ⟨q, hq, hduring, ⟨-, hnew⟩ | ⟨hne, hsame⟩⟩ := mem_settle hr
    · exact Or.inl hnew
    · obtain hdropped | ⟨hpending, -⟩ := h.missed q hq (hduring ▸ hlate)
      · exact Or.inl (hsame.trans hdropped)
      · exact absurd hpending hne
  pending r hr hpending := absurd hpending (not_pending_of_settle Answer.noConfusion hr)
  heard hreturned _ hflag := absurd ((hheard hreturned).symm.trans hflag) Bool.false_ne_true

/-- A beat that is saved answers all that wait. -/
theorem RequestInv.save (h : RequestInv s rs) (hpc : s.pc = .storeBeat) (hflag : s.mStoreThisBeat = true)
    (hcounted : s.j = s.kept.count true) :
    RequestInv { s with kept := s.kept ++ [true], pc := .save 0 } (rs.map (Request.settle (.saved s.j))) where
  saved := by
    intro r hr n hn
    rw [List.count_append, List.count_singleton_self]
    obtain ⟨q, hq, hduring, ⟨hpending, hnew⟩ | ⟨-, hsame⟩⟩ := mem_settle hr
    · rw [hnew, Answer.saved.injEq] at hn
      have hlistening : q.during.deaf = false := by
        by_contra hdeaf
        obtain hdropped | ⟨-, hwindow⟩ := h.missed q hq (Bool.not_eq_false _ ▸ hdeaf)
        · rw [hpending] at hdropped
          cases hdropped
        · rw [hpc] at hwindow
          cases hwindow
      exact ⟨by omega, hduring ▸ hlistening⟩
    · obtain ⟨hlt, hlistening⟩ := h.saved q hq n (hsame.symm.trans hn)
      exact ⟨Nat.lt_add_right _ hlt, hduring ▸ hlistening⟩
  asked := by
    intro n hn
    rw [List.count_append, List.count_singleton_self] at hn
    by_cases hold : n < s.kept.count true
    · obtain ⟨r, hr, hanswer⟩ := h.asked n hold
      exact ⟨r, settle_mem_of_ne hr (by rw [hanswer]; exact Answer.noConfusion), hanswer⟩
    · have hlast : s.j = n := by omega
      obtain ⟨r, hr, hpending⟩ := h.heard (by simp [hpc]) (by simp [hpc, RunPc.deaf]) hflag
      exact ⟨_, settle_mem hr hpending, congrArg Answer.saved hlast⟩
  dropped := by
    intro r hr hanswer
    obtain ⟨q, hq, hduring, ⟨-, hnew⟩ | ⟨-, hsame⟩⟩ := mem_settle hr
    · rw [hnew] at hanswer
      cases hanswer
    · rw [hduring]
      exact h.dropped q hq (hsame.symm.trans hanswer)
  missed := by
    intro r hr hlate
    obtain ⟨q, hq, hduring, hanswer⟩ := mem_settle hr
    obtain hdropped | ⟨-, hwindow⟩ := h.missed q hq (hduring ▸ hlate)
    · obtain ⟨hpending, -⟩ | ⟨-, hsame⟩ := hanswer
      · rw [hdropped] at hpending
        cases hpending
      · exact Or.inl (hsame.trans hdropped)
    · rw [hpc] at hwindow
      cases hwindow
  pending r hr hpending := absurd hpending (not_pending_of_settle Answer.noConfusion hr)
  heard _ hdeaf := absurd hdeaf.symm Bool.false_ne_true

/-- `storeOnce`. -/
theorem RequestInv.ask (h : RequestInv s rs) :
    RequestInv { s with mStoreThisBeat := true } (rs ++ [⟨s.pc, .pending⟩]) where
  saved := by
    intro r hr n hn
    rcases List.mem_append.mp hr with hr | hr
    · exact h.saved r hr n hn
    · rw [List.mem_singleton.mp hr] at hn
      cases hn
  asked := by
    intro n hn
    obtain ⟨r, hr, hanswer⟩ := h.asked n hn
    exact ⟨r, List.mem_append_left _ hr, hanswer⟩
  dropped := by
    intro r hr hanswer
    rcases List.mem_append.mp hr with hr | hr
    · exact h.dropped r hr hanswer
    · rw [List.mem_singleton.mp hr] at hanswer
      cases hanswer
  missed := by
    intro r hr hduring
    rcases List.mem_append.mp hr with hr | hr
    · exact h.missed r hr hduring
    · rw [List.mem_singleton.mp hr] at hduring ⊢
      exact Or.inr ⟨rfl, hduring⟩
  pending := by
    intro r hr hanswer hduring
    rcases List.mem_append.mp hr with hr | hr
    · exact ⟨(h.pending r hr hanswer hduring).1, rfl⟩
    · rw [List.mem_singleton.mp hr] at hduring
      exact ⟨hduring, rfl⟩
  heard _ _ _ := ⟨_, List.mem_append_right _ (List.mem_singleton_self _), rfl⟩

theorem RequestInv.run {complete : Bool} (h : RequestInv s rs) (hi : RecordInv count s)
    (hs : s.run count false complete = some s') : RequestInv s' (s.requests rs (.run complete)) := by
  unfold Recorder.requests
  cases hpc : s.pc with
  | begin =>
    simp only [Recorder.run, hpc] at hs
    have hdeaf : s.pc.deaf = true := by rw [hpc]; rfl
    split at hs
    · cases hs
      exact h.clear hdeaf rfl fun hne => absurd rfl hne
    · cases hs
      exact h.clear hdeaf rfl fun _ => rfl
  | rearm =>
    simp only [Recorder.run, hpc, Option.some.injEq] at hs
    subst hs
    exact h.clear (by rw [hpc]; rfl) rfl fun _ => rfl
  | storeBeat =>
    simp only [Recorder.run, hpc, Option.some.injEq] at hs
    subst hs
    have hcounted := hi.counted
    rw [hpc] at hcounted
    cases hflag : s.mStoreThisBeat with
    | true =>
      have hsave := h.save hpc hflag hcounted
      rwa [hflag] at hsave
    | false =>
      have hmove : RequestInv { s with pc := .recheck } rs :=
        h.move rfl rfl (by rw [hpc]; rfl) (by rw [hpc]; exact RunPc.noConfusion)
      have hcount : (s.kept ++ [false]).count true = s.kept.count true := by simp
      refine ⟨⟨?_, ?_, hmove.dropped, hmove.missed, ?_⟩, fun _ _ hset => absurd hset Bool.false_ne_true⟩
      · simpa [hcount] using hmove.saved
      · simpa [hcount] using hmove.asked
      · intro r hr hanswer hduring
        exact absurd (hflag.symm.trans (h.pending r hr hanswer hduring).2) Bool.false_ne_true
  | failed m | returned => simp [Recorder.run, hpc] at hs
  | first m | grab m =>
    simp only [Recorder.run, hpc] at hs
    split at hs
    · split at hs
      all_goals
        cases hs
        exact h.move rfl rfl (by simp [hpc, RunPc.deaf, Recorder.getNextImage]) (by simp [hpc])
    · cases hs
      exact h.move rfl rfl (by simp [hpc, RunPc.deaf]) (by simp [hpc])
  | save m =>
    simp only [Recorder.run, hpc] at hs
    split at hs
    all_goals
      cases hs
      exact h.move rfl rfl (by simp [hpc, RunPc.deaf]) (by simp [hpc])
  | warmUp k =>
    simp only [Recorder.run, hpc, Option.some.injEq] at hs
    subst hs
    refine h.move rfl rfl ?_ (by simp [hpc])
    rw [hpc]
    dsimp only
    split_ifs <;> rfl
  | test | recheck =>
    simp only [Recorder.run, hpc, Option.some.injEq] at hs
    subst hs
    refine h.move rfl rfl ?_ (by simp [hpc])
    rw [hpc]
    dsimp only
    split_ifs <;> rfl
  | count =>
    simp only [Recorder.run, hpc, Option.some.injEq] at hs
    subst hs
    exact h.move rfl rfl (by rw [hpc]; rfl) (by simp [hpc])

theorem requestInv {x : Recorder × List Request} (h : (asking count).Reach Lts.anyStep x) :
    RecordInv count x.1 ∧ RequestInv x.1 x.2 := by
  apply h.invariant fun x => RecordInv count x.1 ∧ RequestInv x.1 x.2
  · rintro x ⟨b, rfl⟩
    have hinit : (recording count false).Reach Lts.anyStep (Recorder.initial b) := .init ⟨b, rfl⟩
    refine ⟨recordInv hinit, ⟨⟨?_, ?_, ?_, ?_, ?_⟩, ?_⟩⟩
    · exact fun r hr => absurd hr List.not_mem_nil
    · exact fun n hn => absurd hn (Nat.not_lt_zero n)
    · exact fun r hr => absurd hr List.not_mem_nil
    · exact fun r hr => absurd hr List.not_mem_nil
    · exact fun r hr => absurd hr List.not_mem_nil
    · exact fun _ hdeaf => absurd hdeaf.symm Bool.false_ne_true
  · rintro ⟨s, rs⟩ a ⟨t, ts⟩ - ⟨hrecord, hrequest⟩ - hs
    obtain ⟨s', hs', heq⟩ := Option.map_eq_some_iff.mp hs
    cases heq
    refine ⟨hrecord.step hs', ?_⟩
    cases a with
    | run complete => exact hrequest.run hrecord hs'
    | storeOnce =>
      cases hs'
      exact hrequest.ask
    | stop =>
      cases hs'
      exact ⟨⟨hrequest.saved, hrequest.asked, hrequest.dropped, hrequest.missed, hrequest.pending⟩,
        hrequest.heard⟩

theorem mem_filesOf_iff {i n : ℕ} (h : RecordInv count s) (hi : i < count) (hall : s.pc.unsaved i = false) :
    (∃ image, (some image, n) ∈ s.filesOf i) ↔ n < s.kept.count true := by
  have hfiles := h.files i hi
  rw [Recorder.unsaved, hall, if_neg Bool.false_ne_true, List.append_nil, Recorder.keptFrames] at hfiles
  have hpace := h.pace hi
  have hlength : (select s.kept (s.beatImages i)).length = s.kept.count true := select_length (by omega)
  rw [hfiles, ← hlength]
  constructor
  · rintro ⟨image, hmem⟩
    have hlt := List.snd_lt_of_mem_zipIdx hmem
    simpa using hlt
  · intro hlt
    refine ⟨(select s.kept (s.beatImages i))[n], ?_⟩
    rw [List.mk_mem_zipIdx_iff_getElem?, List.getElem?_map, List.getElem?_eq_getElem hlt]
    rfl

/-- In every run of the calibration mode: the requests and the files of each camera go with each other. -/
theorem requests_answered {x : Recorder × List Request} (h : (asking count).Reach Lts.anyStep x) :
    RequestsAnswered x.1 x.2 ∧ ∀ i < count, x.1.pc.unsaved i = false → ∀ n,
      (∃ image, (some image, n) ∈ x.1.filesOf i) ↔ ∃ r ∈ x.2, r.answer = .saved n := by
  obtain ⟨hrecord, hrequest⟩ := requestInv h
  refine ⟨hrequest.toRequestsAnswered, fun i hi hall n => ?_⟩
  rw [mem_filesOf_iff hrecord hi hall]
  constructor
  · exact hrequest.asked n
  · rintro ⟨r, hr, hanswer⟩
    exact (hrequest.saved r hr n hanswer).1

/-- Two requests in front of the first test, one while the beat is saved, and one behind it. -/
def fourRequests : List RecorderLabel :=
  [.run true, .run true, .run true, .run true, .run true, .run true, .storeOnce, .run true, .run true, .run true,
    .storeOnce, .run true, .run true, .storeOnce, .run true, .run true, .storeOnce, .run true]

theorem requests_answered_four : ∃ x, (asking 1).Reach Lts.anyStep x ∧
    x.2.map Request.answer = [.saved 0, .saved 0, .dropped, .pending] ∧ RequestsAnswered x.1 x.2 := by
  have hreach := Lts.reach_exec (asking 1) Lts.anyStep fourRequests (s := (.initial false, [])) ⟨false, rfl⟩ rfl
    fun _ _ _ => trivial
  exact ⟨_, hreach, rfl, (requests_answered hreach).1⟩

end Requests

end TmkDcl.Spinnaker
