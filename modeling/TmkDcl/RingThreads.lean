import Mathlib.Algebra.Order.Ring.Int
import TmkDcl.Lts
import TmkDcl.RingBuffer
import TmkDcl.Tally

/-!
# Threads on a ring buffer (misc/src/ring_buffer.c)

Any number of threads call `ring_buffer_pop` and `ring_buffer_push` on one ring. Each statement is
a step of its own: the semaphore is waited for before the mutex is taken and posted after it is
released, so threads stand anywhere around the section that one of them is in.
-/

namespace TmkDcl.RingThreads

open RingBuffer (intPos intEntry store wrap_eq)

/-- The statement at which a thread stands (`ring_buffer.c:40-61`). -/
inductive Pc where
  | idle
  | popWait
  | popLock
  | popRead
  | popWrap (offs : ℕ)
  | popUsed (offs : ℕ)
  | popUnlock (offs : ℕ)
  | pushLock (offs : ℕ)
  | pushPos (offs : ℕ)
  | pushWrap (offs : ℕ) (pos : ℤ)
  | pushStore (offs : ℕ) (pos : ℤ)
  | pushUnlock (offs : ℕ)
  | pushPost
  deriving DecidableEq

/-- The ring and its threads. `given` counts the values that the caller has filled in or handed to
a push, `pushed` and `popped` list the values in the order in which the mutex was left with them,
and `indexes` lists the entries of `buffer` that were read or written. -/
structure State (τ : Type*) where
  ring : RingBuffer
  mutex : Option τ
  pc : τ → Pc
  given : ℕ
  pushed : List ℕ
  popped : List ℕ
  indexes : List ℤ

/-- The two forms of a created ring: empty, or full with entries that the caller fills in. -/
inductive Form where
  | empty (maxCnt : ℕ)
  | full (filled : List ℕ)

def Form.ring : Form → RingBuffer
  | .empty n => ringBufferCreate n true
  | .full xs => { ringBufferCreate xs.length false with buffer := xs }

def Form.maxCnt : Form → ℕ
  | .empty n => n
  | .full xs => xs.length

def Form.filled : Form → List ℕ
  | .empty _ => []
  | .full xs => xs

inductive Label (τ : Type*) where
  | pop (t : τ)
  | push (t : τ) (shmemOffs : ℕ)
  | go (t : τ)

section System

variable {τ : Type*} [DecidableEq τ]

def State.goto (s : State τ) (t : τ) (pc : Pc) : State τ :=
  { s with pc := Function.update s.pc t pc }

/-- The next statement of a thread inside `ring_buffer_pop` or `ring_buffer_push`. -/
def statement (s : State τ) (t : τ) : Option (State τ) :=
  match s.pc t with
  | .idle => none
  | .popWait =>
    if 0 < s.ring.sem then
      some { s.goto t .popLock with ring := { s.ring with sem := s.ring.sem - 1 } }
    else none
  | .popLock =>
    if s.mutex = none then some { s.goto t .popRead with mutex := some t } else none
  | .popRead =>
    some { s.goto t (.popWrap (s.ring.buffer.getD s.ring.start 0)) with
      ring := { s.ring with start := s.ring.start + 1 }
      indexes := s.indexes ++ [(s.ring.start : ℤ)] }
  | .popWrap offs =>
    some { s.goto t (.popUsed offs) with
      ring := { s.ring with
        start := if s.ring.start ≥ s.ring.maxCnt then 0 else s.ring.start } }
  | .popUsed offs =>
    some { s.goto t (.popUnlock offs) with ring := { s.ring with used := s.ring.used - 1 } }
  | .popUnlock offs =>
    some { s.goto t .idle with mutex := none, popped := s.popped ++ [offs] }
  | .pushLock offs =>
    if s.mutex = none then some { s.goto t (.pushPos offs) with mutex := some t } else none
  | .pushPos offs =>
    some { s.goto t (.pushWrap offs (intPos s.ring)) with
      ring := { s.ring with used := s.ring.used + 1 } }
  | .pushWrap offs pos =>
    some (s.goto t (.pushStore offs (if pos ≥ s.ring.maxCnt then pos - s.ring.maxCnt else pos)))
  | .pushStore offs pos =>
    some { s.goto t (.pushUnlock offs) with
      ring := store s.ring pos offs
      indexes := s.indexes ++ [pos] }
  | .pushUnlock offs =>
    some { s.goto t .pushPost with mutex := none, pushed := s.pushed ++ [offs] }
  | .pushPost =>
    some { s.goto t .idle with ring := { s.ring with sem := s.ring.sem + 1 } }

/-- A thread outside of the ring calls one of the functions, or a thread inside goes on. -/
def step (s : State τ) : Label τ → Option (State τ)
  | .pop t => if s.pc t = .idle then some (s.goto t .popWait) else none
  | .push t offs =>
    if s.pc t = .idle then some { s.goto t (.pushLock offs) with given := s.given + 1 } else none
  | .go t => statement s t

def initial (f : Form) : State τ where
  ring := f.ring
  mutex := none
  pc := fun _ => .idle
  given := f.filled.length
  pushed := f.filled
  popped := []
  indexes := []

def system (τ : Type*) [DecidableEq τ] (f : Form) : Lts (State τ) (Label τ) where
  init s := s = initial f
  step := step

/-- A push is called only if it leaves at most `max_cnt` values outstanding: given to the ring and
not returned by a pop. -/
def atMostMaxCnt (s : State τ) : Label τ → Prop
  | .push _ _ => s.given + 1 ≤ s.popped.length + s.ring.maxCnt
  | _ => True

end System

/-- The thread holds the mutex. -/
def Pc.inside : Pc → Bool
  | .popRead | .popWrap _ | .popUsed _ | .popUnlock _ => true
  | .pushPos _ | .pushWrap _ _ | .pushStore _ _ | .pushUnlock _ => true
  | _ => false

/-- A pop that has its unit of the semaphore and has not counted `used` down. -/
def Pc.waited : Pc → Bool
  | .popLock | .popRead | .popWrap _ | .popUsed _ => true
  | _ => false

/-- A push that has counted `used` up and not posted. -/
def Pc.unposted : Pc → Bool
  | .pushWrap _ _ | .pushStore _ _ | .pushUnlock _ | .pushPost => true
  | _ => false

/-- An outstanding value that `used` does not count. -/
def Pc.afloat : Pc → Bool
  | .pushLock _ | .pushPos _ | .popUnlock _ => true
  | _ => false

/-- A state of a ring that is a FIFO. Between the statements of lines 45 and 46 `start` may be
`max_cnt`, which no other thread can see. -/
structure State.IsFifo {τ : Type*} (s : State τ) : Prop where
  order : s.popped <+: s.pushed
  contents : s.mutex = none → s.pushed = s.popped ++ s.ring.contents
  start_lt : (∀ t offs, s.pc t ≠ .popWrap offs) → s.ring.start < s.ring.maxCnt
  used_le : s.ring.used ≤ s.ring.maxCnt
  index : ∀ i ∈ s.indexes, 0 ≤ i ∧ i < s.ring.maxCnt
  sem : ∃ w u, Tally Pc.waited s.pc w ∧ Tally Pc.unposted s.pc u ∧
    s.ring.sem + w + u = s.ring.used

/-! ### Counts -/

/-- Who holds the mutex, and how the counters fit the threads in progress. -/
structure Counts {τ : Type*} (s : State τ) : Prop where
  holder : ∀ t, (s.pc t).inside = true ↔ s.mutex = some t
  sem : ∃ w u, Tally Pc.waited s.pc w ∧ Tally Pc.unposted s.pc u ∧
    s.ring.sem + w + u = s.ring.used
  given : ∃ n, Tally Pc.afloat s.pc n ∧ s.given = s.popped.length + s.ring.used + n
  given_le : s.given ≤ s.popped.length + s.ring.maxCnt

section Counts

variable {τ : Type*} {s s' : State τ} {t : τ}

theorem Counts.used_le (h : Counts s) : s.ring.used ≤ s.ring.maxCnt := by
  obtain ⟨n, _, hn⟩ := h.given
  have hle := h.given_le
  omega

theorem Counts.used_pos (h : Counts s) (ht : (s.pc t).waited = true) : 0 < s.ring.used := by
  obtain ⟨w, u, hw, _, hsem⟩ := h.sem
  have hpos := hw.pos ht
  omega

theorem Counts.used_lt (h : Counts s) (ht : (s.pc t).afloat = true) :
    s.ring.used < s.ring.maxCnt := by
  obtain ⟨n, hn, hgiven⟩ := h.given
  have hpos := hn.pos ht
  have hle := h.given_le
  omega

/-- The mutex is left alone, taken or released by the thread `t`. -/
inductive MutexMove (t : τ) : Option τ → Bool → Option τ → Bool → Prop
  | stay (m : Option τ) (b : Bool) : MutexMove t m b m b
  | lock : MutexMove t none false (some t) true
  | unlock : MutexMove t (some t) true none false

variable [DecidableEq τ]

theorem Counts.holder_move {pc : Pc} (h : Counts s) (hpc : s'.pc = Function.update s.pc t pc)
    (hm : MutexMove t s.mutex (s.pc t).inside s'.mutex pc.inside) (i : τ) :
    (s'.pc i).inside = true ↔ s'.mutex = some i := by
  have hold := h.holder i
  rw [hpc]
  by_cases hi : i = t
  · subst hi
    rw [Function.update_self]
    generalize hb : (s.pc i).inside = b at hm hold
    generalize pc.inside = b' at hm
    generalize s.mutex = m at hm hold
    generalize s'.mutex = m' at hm
    cases hm with
    | stay => exact hold
    | lock => simp
    | unlock => simp
  · rw [Function.update_of_ne hi]
    generalize (s.pc t).inside = b at hm
    generalize pc.inside = b' at hm
    generalize s.mutex = m at hm hold
    generalize s'.mutex = m' at hm
    cases hm with
    | stay => exact hold
    | lock => simp [hold, Ne.symm hi]
    | unlock => simp [hold, Ne.symm hi]

/-- A statement of the thread `t` keeps the counts when the counters change by what the thread's
own count changes. -/
theorem Counts.move {pc : Pc} (h : Counts s) (hpc : s'.pc = Function.update s.pc t pc)
    (hm : MutexMove t s.mutex (s.pc t).inside s'.mutex pc.inside)
    (hsem : s'.ring.sem + pc.waited.toNat + pc.unposted.toNat + s.ring.used
      = s.ring.sem + (s.pc t).waited.toNat + (s.pc t).unposted.toNat + s'.ring.used)
    (hgiven : s'.given + s.popped.length + s.ring.used + (s.pc t).afloat.toNat
      = s.given + s'.popped.length + s'.ring.used + pc.afloat.toNat)
    (hle : s'.given ≤ s'.popped.length + s'.ring.maxCnt) : Counts s' := by
  refine ⟨h.holder_move hpc hm, ?_, ?_, hle⟩
  · obtain ⟨w, u, hw, hu, he⟩ := h.sem
    obtain ⟨w', hw', hwe⟩ := hw.update t pc
    obtain ⟨u', hu', hue⟩ := hu.update t pc
    rw [hpc]
    exact ⟨w', u', hw', hu', by omega⟩
  · obtain ⟨n, hn, he⟩ := h.given
    obtain ⟨n', hn', hne⟩ := hn.update t pc
    rw [hpc]
    exact ⟨n', hn', by omega⟩

theorem Counts.statement (h : Counts s) (hs : statement s t = some s') : Counts s' := by
  have hle := h.given_le
  have hused : (s.pc t).waited = true → 0 < s.ring.used := h.used_pos
  have hholds : (s.pc t).inside = true → s.mutex = some t := (h.holder t).mp
  cases hpc : s.pc t with
  | idle => simp [RingThreads.statement, hpc] at hs
  | popWait =>
    simp only [RingThreads.statement, hpc, Option.ite_none_right_eq_some,
      Option.some.injEq] at hs
    obtain ⟨hsem, rfl⟩ := hs
    refine h.move rfl (by rw [hpc]; exact .stay _ _) ?_ ?_ hle
    · simp [hpc, Pc.waited, Pc.unposted]
      omega
    · simp [hpc, Pc.afloat, State.goto]
  | popLock | pushLock offs =>
    simp only [RingThreads.statement, hpc, Option.ite_none_right_eq_some,
      Option.some.injEq] at hs
    obtain ⟨hfree, rfl⟩ := hs
    refine h.move rfl (by rw [hpc, hfree]; exact .lock) ?_ ?_ hle
    · simp [hpc, Pc.waited, Pc.unposted, State.goto]
    · simp [hpc, Pc.afloat, State.goto]
  | popRead | popWrap offs =>
    simp only [RingThreads.statement, hpc, Option.some.injEq] at hs
    subst hs
    refine h.move rfl (by rw [hpc]; exact .stay _ _) ?_ ?_ hle
    · simp [hpc, Pc.waited, Pc.unposted]
    · simp [hpc, Pc.afloat, State.goto]
  | popUsed offs =>
    simp only [RingThreads.statement, hpc, Option.some.injEq] at hs
    subst hs
    have hpos := hused (by rw [hpc]; rfl)
    refine h.move rfl (by rw [hpc]; exact .stay _ _) ?_ ?_ hle
    · simp [hpc, Pc.waited, Pc.unposted]
      omega
    · simp [hpc, Pc.afloat, State.goto]
      omega
  | popUnlock offs =>
    simp only [RingThreads.statement, hpc, Option.some.injEq] at hs
    subst hs
    refine h.move rfl (by rw [hpc, hholds (by rw [hpc]; rfl)]; exact .unlock) ?_ ?_ ?_
    · simp [hpc, Pc.waited, Pc.unposted, State.goto]
    · simp [hpc, Pc.afloat, State.goto]
      omega
    · simp [State.goto]
      omega
  | pushPos offs =>
    simp only [RingThreads.statement, hpc, Option.some.injEq] at hs
    subst hs
    refine h.move rfl (by rw [hpc]; exact .stay _ _) ?_ ?_ hle
    · simp [hpc, Pc.waited, Pc.unposted]
      omega
    · simp [hpc, Pc.afloat, State.goto]
      omega
  | pushWrap offs pos | pushStore offs pos =>
    simp only [RingThreads.statement, hpc, Option.some.injEq] at hs
    subst hs
    refine h.move rfl (by rw [hpc]; exact .stay _ _) ?_ ?_ hle
    · simp [hpc, Pc.waited, Pc.unposted, State.goto, store]
    · simp [hpc, Pc.afloat, State.goto, store]
  | pushUnlock offs =>
    simp only [RingThreads.statement, hpc, Option.some.injEq] at hs
    subst hs
    refine h.move rfl (by rw [hpc, hholds (by rw [hpc]; rfl)]; exact .unlock) ?_ ?_ hle
    · simp [hpc, Pc.waited, Pc.unposted, State.goto]
    · simp [hpc, Pc.afloat, State.goto]
  | pushPost =>
    simp only [RingThreads.statement, hpc, Option.some.injEq] at hs
    subst hs
    refine h.move rfl (by rw [hpc]; exact .stay _ _) ?_ ?_ hle
    · simp [hpc, Pc.waited, Pc.unposted]
    · simp [hpc, Pc.afloat, State.goto]

theorem Counts.step {a : Label τ} (h : Counts s) (ho : atMostMaxCnt s a)
    (hs : step s a = some s') : Counts s' := by
  have hle := h.given_le
  cases a with
  | pop i =>
    simp only [RingThreads.step, Option.ite_none_right_eq_some, Option.some.injEq] at hs
    obtain ⟨hpc, rfl⟩ := hs
    refine h.move rfl (by rw [hpc]; exact .stay _ _) ?_ ?_ hle
    · simp [hpc, Pc.waited, Pc.unposted, State.goto]
    · simp [hpc, Pc.afloat, State.goto]
  | push i offs =>
    simp only [RingThreads.step, Option.ite_none_right_eq_some, Option.some.injEq] at hs
    obtain ⟨hpc, rfl⟩ := hs
    refine h.move rfl (by rw [hpc]; exact .stay _ _) ?_ ?_ ho
    · simp [hpc, Pc.waited, Pc.unposted, State.goto]
    · simp [hpc, Pc.afloat, State.goto]
      omega
  | go i => exact h.statement hs

omit [DecidableEq τ] in
theorem Counts.initial (f : Form) : Counts (initial (τ := τ) f) := by
  refine ⟨fun t => by simp [RingThreads.initial, Pc.inside], ?_, ?_, ?_⟩
  · refine ⟨0, 0, .zero fun _ => rfl, .zero fun _ => rfl, ?_⟩
    cases f <;> rfl
  · refine ⟨0, .zero fun _ => rfl, ?_⟩
    cases f <;> simp [RingThreads.initial, Form.filled, Form.ring, ringBufferCreate]
  · cases f <;> simp [RingThreads.initial, Form.filled, Form.ring, ringBufferCreate]

theorem reach_counts {f : Form} (h : (system τ f).Reach atMostMaxCnt s) : Counts s := by
  refine h.invariant Counts (fun s hs => ?_) fun s a s' _ hI ho hs => hI.step ho hs
  rw [show s = initial f from hs]
  exact Counts.initial f

end Counts

/-! ### What the holder of the mutex has done -/

/-- The entry that a push into the ring `r` writes (`ringBufferPush`). -/
def pushEntry (r : RingBuffer) : ℕ :=
  if r.start + r.used ≥ r.maxCnt then r.start + r.used - r.maxCnt else r.start + r.used

/-- `Section r pc r'`: a thread that found the ring `r` when it took the mutex has turned it into
`r'` when it stands at `pc`. -/
inductive Section (r : RingBuffer) : Pc → RingBuffer → Prop
  | popRead (h : 0 < r.used) : Section r .popRead r
  | popWrap (h : 0 < r.used) :
      Section r (.popWrap (ringBufferPop r).1) { r with start := r.start + 1 }
  | popUsed (h : 0 < r.used) :
      Section r (.popUsed (ringBufferPop r).1) { (ringBufferPop r).2 with used := r.used }
  | popUnlock (h : 0 < r.used) : Section r (.popUnlock (ringBufferPop r).1) (ringBufferPop r).2
  | pushPos (offs : ℕ) (h : r.used < r.maxCnt) : Section r (.pushPos offs) r
  | pushWrap (offs : ℕ) (h : r.used < r.maxCnt) :
      Section r (.pushWrap offs (r.start + r.used : ℕ)) { r with used := r.used + 1 }
  | pushStore (offs : ℕ) (h : r.used < r.maxCnt) :
      Section r (.pushStore offs (pushEntry r)) { r with used := r.used + 1 }
  | pushUnlock (offs : ℕ) (h : r.used < r.maxCnt) :
      Section r (.pushUnlock offs) (ringBufferPush r offs)

section Section

variable {r r' : RingBuffer} {pc : Pc}

theorem Section.setSem (h : Section r pc r') (n : ℕ) :
    Section { r with sem := n } pc { r' with sem := n } := by
  cases h with
  | popRead h => exact .popRead h
  | popWrap h => exact .popWrap h
  | popUsed h => exact .popUsed h
  | popUnlock h => exact .popUnlock h
  | pushPos offs h => exact .pushPos offs h
  | pushWrap offs h => exact .pushWrap offs h
  | pushStore offs h => exact .pushStore offs h
  | pushUnlock offs h =>
    rw [← RingBuffer.push_setSem]
    exact .pushUnlock offs h

theorem pushEntry_lt (h : r.Wf) (hu : r.used < r.maxCnt) : pushEntry r < r.maxCnt := by
  have hs := h.start_lt (Nat.zero_lt_of_lt hu)
  unfold pushEntry
  split <;> omega

/-- Up to `2^30` entries the sum of two indexes is an int. -/
theorem sum_lt (h : r.Wf) (hu : r.used < r.maxCnt) (hn : r.maxCnt ≤ 2 ^ 30) :
    r.start + r.used < 2 ^ 31 := by
  have hs := h.start_lt (Nat.zero_lt_of_lt hu)
  omega

theorem store_pushEntry (h : r.Wf) (hu : r.used < r.maxCnt) (hn : r.maxCnt ≤ 2 ^ 30) (offs : ℕ) :
    store { r with used := r.used + 1 } (pushEntry r) offs = ringBufferPush r offs := by
  rw [ringBufferPush, intEntry, RingBuffer.intPos_eq (sum_lt h hu hn), wrap_eq, pushEntry]

/-- Only between lines 45 and 46 may `start` be `max_cnt`. -/
theorem Section.start_lt (h : Section r pc r') (hr : r.Wf) (hpos : 0 < r.maxCnt)
    (hpc : ∀ offs, pc ≠ .popWrap offs) : r'.start < r.maxCnt := by
  have hs := hr.start_lt hpos
  have hpop : (ringBufferPop r).2.start < r.maxCnt := by
    simp only [ringBufferPop]
    split <;> omega
  cases h with
  | popRead | pushPos | pushWrap | pushStore => exact hs
  | popWrap => exact absurd rfl (hpc _)
  | popUsed | popUnlock => exact hpop
  | pushUnlock => exact hs

end Section

/-! ### Contents -/

/-- What the ring held when the mutex was last free is what has been pushed and not popped. -/
structure Holds {τ : Type*} (s : State τ) (r : RingBuffer) : Prop where
  wf : r.Wf
  maxCnt : r.maxCnt = s.ring.maxCnt
  contents : s.pushed = s.popped ++ r.contents
  free : s.mutex = none → s.ring = r
  held : ∀ t, s.mutex = some t → Section r (s.pc t) s.ring
  index : ∀ i ∈ s.indexes, 0 ≤ i ∧ i < s.ring.maxCnt

section Contents

variable {τ : Type*} [DecidableEq τ] {s s' : State τ} {t : τ} {r : RingBuffer} {pc : Pc}

/-- A statement outside of the mutex changes nothing but the semaphore. -/
theorem Holds.outside (h : Holds s r) (ht : s.mutex ≠ some t) (n g : ℕ) :
    Holds { s.goto t pc with ring := { s.ring with sem := n }, given := g } { r with sem := n } := by
  refine ⟨h.wf.sem n, h.maxCnt, h.contents, fun hfree => ?_, fun i hi => ?_, h.index⟩
  · rw [h.free hfree]
  · have hne : i ≠ t := fun he => ht (he ▸ hi)
    simp only [State.goto, Function.update_of_ne hne]
    exact (h.held i hi).setSem n

/-- A statement under the mutex that releases neither it nor a value. -/
theorem Holds.inside {ring : RingBuffer} {is : List ℤ} (h : Holds s r) (ht : s.mutex = some t)
    (hsec : Section r pc ring) (hn : ring.maxCnt = s.ring.maxCnt)
    (his : ∀ i ∈ is, i ∈ s.indexes ∨ 0 ≤ i ∧ i < s.ring.maxCnt) :
    Holds { s.goto t pc with ring := ring, indexes := is } r := by
  refine ⟨h.wf, h.maxCnt.trans hn.symm, h.contents, fun hfree => ?_, fun i hi => ?_, fun i hi => ?_⟩
  · have hno : s.mutex = none := hfree
    simp [ht] at hno
  · have hi : i = t := Option.some.inj (hi.symm.trans ht)
    subst hi
    simpa only [State.goto, Function.update_self] using hsec
  · simp only [hn]
    exact (his i hi).elim (h.index i) id

theorem Holds.lock (h : Holds s r) (hfree : s.mutex = none) (hsec : Section r pc r) :
    Holds { s.goto t pc with mutex := some t } r := by
  have hring := h.free hfree
  refine ⟨h.wf, h.maxCnt, h.contents, fun hno => absurd hno (by simp), fun i hi => ?_, h.index⟩
  have hi : t = i := Option.some.inj hi
  subst hi
  simp only [State.goto, Function.update_self, hring]
  exact hsec

theorem Holds.pop (h : Holds s r) (hu : 0 < r.used) (hring : s.ring = (ringBufferPop r).2) :
    Holds { s.goto t pc with mutex := none, popped := s.popped ++ [(ringBufferPop r).1] }
      (ringBufferPop r).2 := by
  obtain ⟨hwf, hcontents⟩ := RingBuffer.pop_spec h.wf hu
  refine ⟨hwf, ?_, ?_, fun _ => hring, fun i hi => absurd hi (by simp), h.index⟩
  · exact congrArg RingBuffer.maxCnt hring.symm
  · simp only [State.goto]
    rw [h.contents, hcontents, List.append_assoc, List.singleton_append]

theorem Holds.push (h : Holds s r) (hu : r.used < r.maxCnt) (hn : r.maxCnt ≤ 2 ^ 30) {offs : ℕ}
    (hring : s.ring = ringBufferPush r offs) :
    Holds { s.goto t pc with mutex := none, pushed := s.pushed ++ [offs] }
      (ringBufferPush r offs) := by
  have hint : r.maxCnt < 2 ^ 31 := by omega
  obtain ⟨hwf, hcontents⟩ := RingBuffer.push_spec h.wf hu hint (h.wf.pushInside hu hn) offs
  refine ⟨hwf, ?_, ?_, fun _ => hring, fun i hi => absurd hi (by simp), h.index⟩
  · exact congrArg RingBuffer.maxCnt hring.symm
  · simp only [State.goto]
    rw [h.contents, hcontents, List.append_assoc]

theorem Holds.statement_inside {ring : RingBuffer} (h : Holds s r) (hn : s.ring.maxCnt ≤ 2 ^ 30)
    (hmutex : s.mutex = some t) (hpc : s.pc t = pc) (hring : s.ring = ring)
    (hsec : Section r pc ring) (hs : statement s t = some s') : ∃ r', Holds s' r' := by
  cases hsec with
  | popRead hu =>
    simp only [RingThreads.statement, hpc, hring, Option.some.injEq] at hs
    subst hs
    refine ⟨_, h.inside hmutex (.popWrap hu) h.maxCnt fun i hi => ?_⟩
    refine (List.mem_append.mp hi).imp_right fun hi => ?_
    rw [List.mem_singleton.mp hi, hring]
    have hlt := h.wf.start_lt (hu.trans_le h.wf.used_le)
    exact ⟨Int.natCast_nonneg _, Int.ofNat_lt.mpr hlt⟩
  | popWrap hu =>
    simp only [RingThreads.statement, hpc, hring, Option.some.injEq] at hs
    subst hs
    exact ⟨_, h.inside hmutex (.popUsed hu) h.maxCnt fun i => Or.inl⟩
  | popUsed hu =>
    simp only [RingThreads.statement, hpc, hring, Option.some.injEq] at hs
    subst hs
    exact ⟨_, h.inside hmutex (.popUnlock hu) h.maxCnt fun i => Or.inl⟩
  | popUnlock hu =>
    simp only [RingThreads.statement, hpc, Option.some.injEq] at hs
    subst hs
    exact ⟨_, h.pop hu hring⟩
  | pushPos offs hu =>
    have hpos := RingBuffer.intPos_eq (sum_lt h.wf hu (h.maxCnt.trans_le hn))
    simp only [RingThreads.statement, hpc, hring, hpos, Option.some.injEq] at hs
    subst hs
    exact ⟨_, h.inside hmutex (.pushWrap offs hu) h.maxCnt fun i => Or.inl⟩
  | pushWrap offs hu =>
    simp only [RingThreads.statement, hpc, hring, wrap_eq, Option.some.injEq] at hs
    subst hs
    exact ⟨_, h.inside hmutex (hring ▸ .pushStore offs hu) rfl fun i => Or.inl⟩
  | pushStore offs hu =>
    have hstore := store_pushEntry h.wf hu (h.maxCnt.trans_le hn) offs
    simp only [RingThreads.statement, hpc, hring, hstore, Option.some.injEq] at hs
    subst hs
    refine ⟨_, h.inside hmutex (.pushUnlock offs hu) h.maxCnt fun i hi => ?_⟩
    refine (List.mem_append.mp hi).imp_right fun hi => ?_
    rw [List.mem_singleton.mp hi, hring]
    exact ⟨Int.natCast_nonneg _, Int.ofNat_lt.mpr (pushEntry_lt h.wf hu)⟩
  | pushUnlock offs hu =>
    simp only [RingThreads.statement, hpc, Option.some.injEq] at hs
    subst hs
    exact ⟨_, h.push hu (h.maxCnt.trans_le hn) hring⟩

theorem Holds.statement (h : Holds s r) (hc : Counts s) (hn : s.ring.maxCnt ≤ 2 ^ 30)
    (hs : statement s t = some s') : ∃ r', Holds s' r' := by
  by_cases hmutex : s.mutex = some t
  · exact h.statement_inside hn hmutex rfl rfl (h.held t hmutex) hs
  have hnot := (hc.holder t).not.mpr hmutex
  cases hpc : s.pc t with
  | idle => simp [RingThreads.statement, hpc] at hs
  | popWait =>
    simp only [RingThreads.statement, hpc, Option.ite_none_right_eq_some,
      Option.some.injEq] at hs
    obtain ⟨_, rfl⟩ := hs
    exact ⟨_, h.outside hmutex _ s.given⟩
  | popLock =>
    simp only [RingThreads.statement, hpc, Option.ite_none_right_eq_some,
      Option.some.injEq] at hs
    obtain ⟨hnone, rfl⟩ := hs
    have hpos := hc.used_pos (t := t) (by rw [hpc]; rfl)
    rw [h.free hnone] at hpos
    exact ⟨_, h.lock hnone (.popRead hpos)⟩
  | pushLock offs =>
    simp only [RingThreads.statement, hpc, Option.ite_none_right_eq_some,
      Option.some.injEq] at hs
    obtain ⟨hnone, rfl⟩ := hs
    have hlt := hc.used_lt (t := t) (by rw [hpc]; rfl)
    rw [h.free hnone] at hlt
    exact ⟨_, h.lock hnone (.pushPos offs hlt)⟩
  | pushPost =>
    simp only [RingThreads.statement, hpc, Option.some.injEq] at hs
    subst hs
    exact ⟨_, h.outside hmutex _ s.given⟩
  | _ => exact absurd (by rw [hpc]; rfl) hnot

theorem Holds.step {a : Label τ} (h : Holds s r) (hc : Counts s) (hn : s.ring.maxCnt ≤ 2 ^ 30)
    (hs : step s a = some s') : ∃ r', Holds s' r' := by
  have hidle : ∀ i, s.pc i = .idle → s.mutex ≠ some i := fun i hi he => by
    have hin := (hc.holder i).mpr he
    rw [hi] at hin
    exact Bool.false_ne_true hin
  cases a with
  | pop i =>
    simp only [RingThreads.step, Option.ite_none_right_eq_some, Option.some.injEq] at hs
    obtain ⟨hpc, rfl⟩ := hs
    exact ⟨_, h.outside (hidle i hpc) s.ring.sem s.given⟩
  | push i offs =>
    simp only [RingThreads.step, Option.ite_none_right_eq_some, Option.some.injEq] at hs
    obtain ⟨hpc, rfl⟩ := hs
    exact ⟨_, h.outside (hidle i hpc) s.ring.sem (s.given + 1)⟩
  | go i => exact h.statement hc hn hs

omit [DecidableEq τ] in
theorem Holds.initial (f : Form) : Holds (initial (τ := τ) f) f.ring := by
  refine ⟨?_, rfl, ?_, fun _ => rfl, fun t ht => absurd ht (by simp [RingThreads.initial]),
    fun i hi => absurd hi (by simp [RingThreads.initial])⟩
  · cases f with
    | empty n => exact RingBuffer.create_wf n true
    | full xs =>
      have hwf := RingBuffer.create_wf xs.length false
      exact ⟨rfl, hwf.start_lt, hwf.used_le⟩
  · cases f with
    | empty n => simp [RingThreads.initial, Form.filled, Form.ring, ringBufferCreate,
        RingBuffer.contents]
    | full xs =>
      simp only [RingThreads.initial, Form.filled, Form.ring, List.nil_append]
      exact (RingBuffer.contents_filled xs).symm

theorem step_maxCnt {a : Label τ} (hs : RingThreads.step s a = some s') :
    s'.ring.maxCnt = s.ring.maxCnt := by
  cases a with
  | pop i | push i offs =>
    simp only [RingThreads.step, Option.ite_none_right_eq_some, Option.some.injEq] at hs
    obtain ⟨_, rfl⟩ := hs
    rfl
  | go i =>
    simp only [RingThreads.step] at hs
    unfold RingThreads.statement at hs
    split at hs <;> simp only [Option.ite_none_right_eq_some, Option.some.injEq, reduceCtorEq] at hs
    all_goals first | subst hs; rfl | (obtain ⟨_, rfl⟩ := hs; rfl)

theorem reach_maxCnt {f : Form} {ok : State τ → Label τ → Prop} (h : (system τ f).Reach ok s) :
    s.ring.maxCnt = f.maxCnt := by
  refine h.invariant (fun s => s.ring.maxCnt = f.maxCnt) (fun s hs => ?_) fun s a s' _ hI _ hs => ?_
  · rw [show s = RingThreads.initial f from hs]
    cases f <;> rfl
  · exact (step_maxCnt hs).trans hI

theorem reach_holds {f : Form} (hn : f.maxCnt ≤ 2 ^ 30) (h : (system τ f).Reach atMostMaxCnt s) :
    ∃ r, Holds s r := by
  refine h.invariant (fun s => ∃ r, Holds s r) (fun s hs => ?_) fun s a s' hreach hI _ hs => ?_
  · rw [show s = RingThreads.initial f from hs]
    exact ⟨_, .initial f⟩
  · obtain ⟨r, hr⟩ := hI
    exact hr.step (reach_counts hreach) ((reach_maxCnt hreach).trans_le hn) hs

theorem reach_isFifo {f : Form} (h0 : 0 < f.maxCnt) (hn : f.maxCnt ≤ 2 ^ 30)
    (h : (system τ f).Reach atMostMaxCnt s) : s.IsFifo := by
  have hc := reach_counts h
  have hpos : 0 < s.ring.maxCnt := (reach_maxCnt h).symm ▸ h0
  obtain ⟨r, hr⟩ := reach_holds hn h
  refine ⟨⟨_, hr.contents.symm⟩, fun hfree => ?_, fun hpc => ?_, hc.used_le, hr.index, hc.sem⟩
  · rw [hr.free hfree]
    exact hr.contents
  · have hposr : 0 < r.maxCnt := hr.maxCnt.symm ▸ hpos
    cases hm : s.mutex with
    | none =>
      rw [hr.free hm]
      exact hr.wf.start_lt hposr
    | some t =>
      rw [← hr.maxCnt]
      exact (hr.held t hm).start_lt hr.wf hposr (hpc t)

end Contents

/-! ### Windows -/

/-- A reachable state without a thread in the ring, whose values are the `u` entries from `i` on. -/
structure Window {τ : Type*} [DecidableEq τ] (f : Form) (i u : ℕ) (s : State τ) : Prop where
  reach : (system τ f).Reach atMostMaxCnt s
  idle : ∀ t, s.pc t = .idle
  start : s.ring.start = i
  used : s.ring.used = u

section Windows

variable {τ : Type*} [DecidableEq τ] {f : Form} {i u : ℕ} {s : State τ}

theorem Window.mutex (h : Window f i u s) : s.mutex = none := by
  cases hm : s.mutex with
  | none => rfl
  | some t =>
    have hin := ((reach_counts h.reach).holder t).mpr hm
    simp [h.idle t, Pc.inside] at hin

theorem Window.sem (h : Window f i u s) : s.ring.sem = u := by
  obtain ⟨w, v, hw, hv, hsem⟩ := (reach_counts h.reach).sem
  have hw0 := hw.eq_zero fun t => by rw [h.idle t]; rfl
  have hv0 := hv.eq_zero fun t => by rw [h.idle t]; rfl
  have hused := h.used
  omega

theorem Window.given (h : Window f i u s) : s.given = s.popped.length + u := by
  obtain ⟨n, hn, hgiven⟩ := (reach_counts h.reach).given
  have hn0 := hn.eq_zero fun t => by rw [h.idle t]; rfl
  have hused := h.used
  omega

theorem steps_go (t : τ) (n : ℕ) {s' : State τ}
    (h : (system τ f).exec s (List.replicate n (.go t)) = some s') :
    (system τ f).Steps atMostMaxCnt s s' := by
  refine Lts.steps_of_exec (fun s a ha => ?_) h
  rw [List.eq_of_mem_replicate ha]
  trivial

theorem exec_pop {t : τ} (hpc : s.pc t = .idle) (hm : s.mutex = none) (hsem : 0 < s.ring.sem) :
    (system τ f).exec (s.goto t .popWait) (List.replicate 6 (.go t)) = some { s with
      ring := { (ringBufferPop s.ring).2 with sem := s.ring.sem - 1 }
      popped := s.popped ++ [(ringBufferPop s.ring).1]
      indexes := s.indexes ++ [(s.ring.start : ℤ)] } := by
  simp [Lts.exec, List.replicate, system, step, statement, State.goto, hm, hsem, hpc, ringBufferPop]

theorem exec_push {t : τ} {offs : ℕ} (hpc : s.pc t = .idle) (hm : s.mutex = none) :
    (system τ f).exec { s.goto t (.pushLock offs) with given := s.given + 1 }
      (List.replicate 6 (.go t)) = some { s with
        ring := store { s.ring with used := s.ring.used + 1, sem := s.ring.sem + 1 }
          (intEntry s.ring) offs
        given := s.given + 1
        pushed := s.pushed ++ [offs]
        indexes := s.indexes ++ [intEntry s.ring] } := by
  simp [Lts.exec, List.replicate, system, step, statement, State.goto, hm, hpc, store, intEntry]

theorem Window.pop [Inhabited τ] (h : Window f i (u + 1) s) (hi : i < f.maxCnt) :
    ∃ s' : State τ, Window f ((i + 1) % f.maxCnt) u s' := by
  have hmax := reach_maxCnt h.reach
  have hcall : (system τ f).step s (.pop default) = some (s.goto default .popWait) :=
    if_pos (h.idle default)
  have hallowed : atMostMaxCnt s (.pop default) := trivial
  have hone : (system τ f).Reach atMostMaxCnt (s.goto default .popWait) :=
    .step h.reach hallowed hcall
  have hrun := exec_pop (f := f) (h.idle default) h.mutex (h.sem ▸ u.succ_pos)
  refine ⟨_, hone.steps (steps_go default 6 hrun), h.idle, ?_, ?_⟩
  · have hnext := RingBuffer.next_start (r := s.ring) (by rw [h.start, hmax]; exact hi)
    simp only [ringBufferPop]
    rw [hnext, h.start, hmax]
  · simp only [ringBufferPop, h.used, Nat.add_sub_cancel]

theorem Window.pops [Inhabited τ] {k : ℕ} (h : Window f i (u + k) s) (hi : i < f.maxCnt) :
    ∃ s' : State τ, Window f ((i + k) % f.maxCnt) u s' := by
  induction k generalizing i s with
  | zero => exact ⟨s, (Nat.mod_eq_of_lt hi).symm ▸ h⟩
  | succ k ih =>
    obtain ⟨s', hs'⟩ := h.pop hi
    obtain ⟨t, ht⟩ := ih hs' (Nat.mod_lt _ (Nat.zero_lt_of_lt hi))
    rw [Nat.mod_add_mod, Nat.add_assoc, Nat.add_comm 1 k] at ht
    exact ⟨t, ht⟩

theorem Window.push_reach [Inhabited τ] (h : Window f i u s) (hu : u < f.maxCnt) (offs : ℕ) :
    (system τ f).Reach atMostMaxCnt { s with
      ring := store { s.ring with used := s.ring.used + 1, sem := s.ring.sem + 1 }
        (intEntry s.ring) offs
      given := s.given + 1
      pushed := s.pushed ++ [offs]
      indexes := s.indexes ++ [intEntry s.ring] } := by
  have hcall : (system τ f).step s (.push default offs)
      = some { s.goto default (.pushLock offs) with given := s.given + 1 } :=
    if_pos (h.idle default)
  have hallowed : atMostMaxCnt s (.push default offs) := by
    have hgiven := h.given
    have hmax := reach_maxCnt h.reach
    simp only [atMostMaxCnt]
    omega
  have hone : (system τ f).Reach atMostMaxCnt
      { s.goto default (.pushLock offs) with given := s.given + 1 } := .step h.reach hallowed hcall
  exact hone.steps (steps_go default 6 (exec_push (h.idle default) h.mutex))

theorem Window.push [Inhabited τ] (h : Window f i u s) (hu : u < f.maxCnt) :
    ∃ s' : State τ, Window f i (u + 1) s' := by
  refine ⟨_, h.push_reach hu 0, h.idle, h.start, ?_⟩
  simp only [store, h.used]

theorem Window.pushes [Inhabited τ] {k : ℕ} (h : Window f i u s) (hk : u + k ≤ f.maxCnt) :
    ∃ s' : State τ, Window f i (u + k) s' := by
  induction k with
  | zero => exact ⟨s, h⟩
  | succ k ih =>
    obtain ⟨s', hs'⟩ := ih (by omega)
    exact hs'.push (by omega)

variable (τ) in
theorem exists_drained [Inhabited τ] (h0 : 0 < f.maxCnt) : ∃ s : State τ, Window f 0 0 s := by
  cases f with
  | empty n => exact ⟨initial _, .init rfl, fun _ => rfl, rfl, rfl⟩
  | full xs =>
    have hfull : Window (.full xs) 0 (0 + xs.length) (initial (τ := τ) (.full xs)) :=
      ⟨.init rfl, fun _ => rfl, rfl, (Nat.zero_add _).symm⟩
    obtain ⟨s, hs⟩ := hfull.pops h0
    rw [Nat.zero_add, Form.maxCnt, Nat.mod_self] at hs
    exact ⟨s, hs⟩

variable (τ) in
/-- The ring gets to every position of its window. -/
theorem exists_window [Inhabited τ] (hi : i < f.maxCnt) (hu : u ≤ f.maxCnt) :
    ∃ s : State τ, Window f i u s := by
  have hpos := Nat.zero_lt_of_lt hi
  have hstart : ∃ s : State τ, Window f i 0 s := by
    induction i with
    | zero => exact exists_drained τ hpos
    | succ k ih =>
      have hk := Nat.lt_of_succ_lt hi
      obtain ⟨s, hs⟩ := ih hk
      obtain ⟨s', hs'⟩ := hs.push hpos
      obtain ⟨t, ht⟩ := hs'.pop hk
      rw [Nat.mod_eq_of_lt hi] at ht
      exact ⟨t, ht⟩
  obtain ⟨s, hs⟩ := hstart
  obtain ⟨t, ht⟩ := hs.pushes (k := u) (by omega)
  rw [Nat.zero_add] at ht
  exact ⟨t, ht⟩

omit [DecidableEq τ] in
theorem intPos_overflow {r : RingBuffer} (hs : r.start = 2 ^ 30) (hu : r.used = 2 ^ 30) :
    intPos r = -2 ^ 31 := by
  unfold intPos
  simp only [hs, hu]
  decide

/-- A push into a ring of more than `2^30` entries can write before the first of them. -/
theorem exists_index_neg [Inhabited τ] (hn : 2 ^ 30 < f.maxCnt) :
    ∃ s : State τ, (system τ f).Reach atMostMaxCnt s ∧ ∃ pos ∈ s.indexes, pos < 0 := by
  obtain ⟨s, hs⟩ := exists_window τ (i := 2 ^ 30) (u := 2 ^ 30) hn hn.le
  have hentry : intEntry s.ring = -2 ^ 31 := by
    have hpos := intPos_overflow hs.start hs.used
    unfold intEntry
    rw [if_neg (by omega)]
    exact hpos
  refine ⟨_, hs.push_reach hn 0, _, List.mem_append_right _ List.mem_cons_self, ?_⟩
  rw [hentry]
  decide

end Windows

/-- The ring is a FIFO in every run exactly when it has from 1 to `2^30` entries. -/
theorem isFifo_iff (τ : Type*) [DecidableEq τ] [Inhabited τ] (f : Form) :
    (∀ s : State τ, (system τ f).Reach atMostMaxCnt s → s.IsFifo) ↔
      0 < f.maxCnt ∧ f.maxCnt ≤ 2 ^ 30 := by
  constructor
  · intro h
    constructor
    · have hinit := (h (initial f) (.init rfl)).start_lt fun t offs => by simp [initial]
      have hstart : (initial (τ := τ) f).ring.start = 0 := by cases f <;> rfl
      rw [hstart] at hinit
      have hfirst : (system τ f).Reach atMostMaxCnt (initial f) := .init rfl
      rwa [← reach_maxCnt hfirst]
    · by_contra hn
      obtain ⟨s, hs, pos, hpos, hneg⟩ := exists_index_neg (τ := τ) (Nat.lt_of_not_le hn)
      have hindex := (h s hs).index pos hpos
      omega
  · intro ⟨h0, hn⟩ s hs
    exact reach_isFifo h0 hn hs

/-- In an empty ring of `2^30 + 1` entries the position overflows. -/
theorem not_isFifo_overflow :
    ¬ ∀ s : State ℕ, (system ℕ (.empty (2 ^ 30 + 1))).Reach atMostMaxCnt s → s.IsFifo := by
  intro h
  obtain ⟨s, hs, pos, hpos, hneg⟩ :=
    exists_index_neg (τ := ℕ) (f := .empty (2 ^ 30 + 1)) (Nat.lt_succ_self _)
  have hindex := (h s hs).index pos hpos
  omega

end TmkDcl.RingThreads
