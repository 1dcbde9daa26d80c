import Mathlib.Data.Nat.ModEq
import Mathlib.Data.List.Basic
import Mathlib.Algebra.Order.Ring.Int

/-!
# The ring buffer (misc/src/ring_buffer.c)

`ring_buffer_pop` and `ring_buffer_push` wrap an index section, which runs
under the mutex, in a semaphore operation: the wait comes before the section
of a pop and the post after the section of a push. The two sections are
modelled as functions; the semaphore operations are steps of the caller.

`pos = start + used` is an addition of two ints. From `max_cnt = 2^30 + 1` on the
sum can leave the ints, and the wrap test that follows does not see it.
-/

namespace TmkDcl

/-- `struct ring_buffer` (`ring_buffer.h:11-18`) without its mutex. -/
structure RingBuffer where
  sem : ℕ
  maxCnt : ℕ
  used : ℕ
  start : ℕ
  buffer : List ℕ

/-- `ring_buffer_create` (`ring_buffer.c:7-32`); the entries are zeroed. -/
def ringBufferCreate (maxCnt : ℕ) (empty : Bool) : RingBuffer where
  sem := if empty then 0 else maxCnt
  maxCnt := maxCnt
  used := if empty then 0 else maxCnt
  start := 0
  buffer := List.replicate maxCnt 0

/-- The section of `ring_buffer_pop` under the mutex (`ring_buffer.c:45-47`). -/
def ringBufferPop (r : RingBuffer) : ℕ × RingBuffer :=
  let offs := r.buffer.getD r.start 0
  let start := r.start + 1
  (offs, { r with start := if start ≥ r.maxCnt then 0 else start, used := r.used - 1 })

namespace RingBuffer

/-- The sum of two ints as an `int`. -/
def intAdd (a b : ℕ) : ℤ := (a + b : ℤ).bmod (2 ^ 32)

/-- `start + used`. -/
def intPos (r : RingBuffer) : ℤ := intAdd r.start r.used

/-- The entry that the wrap test of line 57 makes of it. -/
def intEntry (r : RingBuffer) : ℤ :=
  if intPos r ≥ r.maxCnt then intPos r - r.maxCnt else intPos r

/-- `ring->buffer[pos] = shmem_offs`; a write out of range leaves the entries alone, and what else
it does is not defined. -/
def store (r : RingBuffer) (pos : ℤ) (offs : ℕ) : RingBuffer :=
  { r with buffer := if 0 ≤ pos then r.buffer.set pos.toNat offs else r.buffer }

/-- A push writes an entry of the ring. -/
def PushInside (r : RingBuffer) : Prop := 0 ≤ intEntry r ∧ intEntry r < r.maxCnt

instance (r : RingBuffer) : Decidable r.PushInside := inferInstanceAs (Decidable (_ ∧ _))

end RingBuffer

/-- The section of `ring_buffer_push` under the mutex (`ring_buffer.c:56-58`). -/
def ringBufferPush (r : RingBuffer) (shmemOffs : ℕ) : RingBuffer :=
  RingBuffer.store { r with used := r.used + 1 } (RingBuffer.intEntry r) shmemOffs

namespace RingBuffer

/-- The stored values, oldest first. -/
def contents (r : RingBuffer) : List ℕ :=
  (List.range r.used).map fun i => r.buffer.getD ((r.start + i) % r.maxCnt) 0

/-- The index invariant of the ring. -/
structure Wf (r : RingBuffer) : Prop where
  length : r.buffer.length = r.maxCnt
  start_lt : 0 < r.maxCnt → r.start < r.maxCnt
  used_le : r.used ≤ r.maxCnt

theorem contents_length (r : RingBuffer) : r.contents.length = r.used := by
  simp [contents]

@[simp] theorem contents_sem (r : RingBuffer) (n : ℕ) :
    ({ r with sem := n } : RingBuffer).contents = r.contents := rfl

theorem Wf.sem {r : RingBuffer} (h : r.Wf) (n : ℕ) : ({ r with sem := n } : RingBuffer).Wf :=
  ⟨h.length, h.start_lt, h.used_le⟩

theorem next_start {r : RingBuffer} (h : r.start < r.maxCnt) :
    (if r.start + 1 ≥ r.maxCnt then 0 else r.start + 1) = (r.start + 1) % r.maxCnt := by
  split
  · have he : r.start + 1 = r.maxCnt := by omega
    rw [he, Nat.mod_self]
  · exact (Nat.mod_eq_of_lt (by omega)).symm

@[simp] theorem push_used (r : RingBuffer) (x : ℕ) : (ringBufferPush r x).used = r.used + 1 := rfl

@[simp] theorem push_maxCnt (r : RingBuffer) (x : ℕ) : (ringBufferPush r x).maxCnt = r.maxCnt := rfl

@[simp] theorem push_start (r : RingBuffer) (x : ℕ) : (ringBufferPush r x).start = r.start := rfl

@[simp] theorem push_sem (r : RingBuffer) (x : ℕ) : (ringBufferPush r x).sem = r.sem := rfl

theorem push_setSem (r : RingBuffer) (n x : ℕ) :
    ringBufferPush { r with sem := n } x = { ringBufferPush r x with sem := n } := by
  have hentry : intEntry { r with sem := n } = intEntry r := rfl
  simp only [ringBufferPush, hentry, store]

theorem intAdd_eq {a b : ℕ} (h : a + b < 2 ^ 31) : intAdd a b = (a + b : ℕ) := by
  unfold intAdd
  rw [Int.bmod_def]
  omega

/-- A sum of two ints that is no int comes out negative. -/
theorem intAdd_neg {a b n : ℕ} (ha : a < n) (hb : b < n) (hn : n < 2 ^ 31) (h : 2 ^ 31 ≤ a + b) :
    intAdd a b < 0 := by
  unfold intAdd
  rw [Int.bmod_def]
  omega

theorem wrap_eq {n : ℕ} (m : ℕ) :
    (if (n : ℤ) ≥ m then (n : ℤ) - m else n) = ((if n ≥ m then n - m else n : ℕ) : ℤ) := by
  split <;> split <;> omega

theorem push_pos {r : RingBuffer} (h : r.start < r.maxCnt) (hu : r.used < r.maxCnt) :
    (if r.start + r.used ≥ r.maxCnt then r.start + r.used - r.maxCnt else r.start + r.used)
      = (r.start + r.used) % r.maxCnt := by
  split
  · rw [Nat.mod_eq_sub_mod (by omega), Nat.mod_eq_of_lt (by omega)]
  · exact (Nat.mod_eq_of_lt (by omega)).symm

theorem intPos_eq {r : RingBuffer} (h : r.start + r.used < 2 ^ 31) :
    intPos r = (r.start + r.used : ℕ) := intAdd_eq h

theorem intEntry_eq {r : RingBuffer} (h : r.start < r.maxCnt) (hu : r.used < r.maxCnt)
    (hsum : r.start + r.used < 2 ^ 31) : intEntry r = ((r.start + r.used) % r.maxCnt : ℕ) := by
  rw [intEntry, intPos_eq hsum, wrap_eq, push_pos h hu]

/-- Up to `2^30` entries the sum of two indexes is an int. -/
theorem Wf.pushInside {r : RingBuffer} (h : r.Wf) (hu : r.used < r.maxCnt)
    (hn : r.maxCnt ≤ 2 ^ 30) : r.PushInside := by
  have hs := h.start_lt (Nat.zero_lt_of_lt hu)
  rw [PushInside, intEntry_eq hs hu (by omega)]
  exact ⟨Int.natCast_nonneg _, Int.ofNat_lt.mpr (Nat.mod_lt _ (Nat.zero_lt_of_lt hu))⟩

theorem pop_spec {r : RingBuffer} (h : r.Wf) (hu : 0 < r.used) :
    (ringBufferPop r).2.Wf ∧ r.contents = (ringBufferPop r).1 :: (ringBufferPop r).2.contents := by
  have hm : 0 < r.maxCnt := lt_of_lt_of_le hu h.used_le
  have hs := h.start_lt hm
  refine ⟨⟨h.length, fun _ => ?_, (Nat.sub_le _ _).trans h.used_le⟩, ?_⟩
  · simp only [ringBufferPop]
    rw [next_start hs]
    exact Nat.mod_lt _ hm
  · obtain ⟨n, hn⟩ : ∃ n, r.used = n + 1 := ⟨r.used - 1, by omega⟩
    simp only [contents, ringBufferPop]
    rw [hn, next_start hs, List.range_succ_eq_map, List.map_cons, List.map_map]
    have hhead : (r.start + 0) % r.maxCnt = r.start := Nat.mod_eq_of_lt hs
    rw [hhead]
    congr 1
    refine List.map_congr_left fun i _ => ?_
    simp only [Function.comp, Nat.mod_add_mod]
    rw [Nat.succ_eq_add_one, Nat.add_assoc r.start 1 i, Nat.add_comm 1 i]

theorem index_ne {a i n m : ℕ} (hi : i < n) (hn : n < m) : (a + i) % m ≠ (a + n) % m := by
  intro he
  have hmod : i % m = n % m := Nat.ModEq.add_left_cancel' a he
  rw [Nat.mod_eq_of_lt (hi.trans hn), Nat.mod_eq_of_lt hn] at hmod
  omega

/-- With an `int` for `max_cnt` the position is right as soon as it is in the ring. -/
theorem intEntry_of_inside {r : RingBuffer} (h : r.start < r.maxCnt) (hu : r.used < r.maxCnt)
    (hint : r.maxCnt < 2 ^ 31) (hin : r.PushInside) :
    intEntry r = ((r.start + r.used) % r.maxCnt : ℕ) := by
  have hsum : r.start + r.used < 2 ^ 31 := by
    by_contra hge
    have hpos : intPos r < 0 := intAdd_neg h hu hint (Nat.le_of_not_lt hge)
    have hneg : intEntry r < 0 := by
      rw [intEntry, if_neg (by omega)]
      exact hpos
    exact absurd hin.1 (not_le.mpr hneg)
  exact intEntry_eq h hu hsum

theorem push_spec {r : RingBuffer} (h : r.Wf) (hu : r.used < r.maxCnt) (hint : r.maxCnt < 2 ^ 31)
    (hin : r.PushInside) (x : ℕ) :
    (ringBufferPush r x).Wf ∧ (ringBufferPush r x).contents = r.contents ++ [x] := by
  have hs := h.start_lt (Nat.zero_lt_of_lt hu)
  have hpos : (r.start + r.used) % r.maxCnt < r.buffer.length := by
    rw [h.length]
    exact Nat.mod_lt _ (by omega)
  have hpush : ringBufferPush r x = { r with
      used := r.used + 1, buffer := r.buffer.set ((r.start + r.used) % r.maxCnt) x } := by
    rw [ringBufferPush, intEntry_of_inside hs hu hint hin, store, if_pos (Int.natCast_nonneg _),
      Int.toNat_natCast]
  rw [hpush]
  refine ⟨⟨?_, h.start_lt, hu⟩, ?_⟩
  · simp only [List.length_set]
    exact h.length
  · simp only [contents]
    rw [List.range_succ, List.map_append]
    congr 1
    · refine List.map_congr_left fun i hi => ?_
      have hne := index_ne (a := r.start) (List.mem_range.mp hi) hu
      simp only [List.getD_eq_getElem?_getD, List.getElem?_set_ne hne.symm]
    · simp [hpos]

theorem create_wf (n : ℕ) (empty : Bool) : (ringBufferCreate n empty).Wf := by
  refine ⟨by simp [ringBufferCreate], fun h => h, ?_⟩
  cases empty <;> simp [ringBufferCreate]

/-- A full ring whose entries the caller has filled in holds these entries in
index order (`pipeline_server.c:28-30`). -/
theorem contents_filled (xs : List ℕ) :
    ({ ringBufferCreate xs.length false with buffer := xs } : RingBuffer).contents = xs := by
  refine List.ext_getElem (by simp [contents, ringBufferCreate]) fun i _ hi => ?_
  simp [contents, ringBufferCreate, Nat.mod_eq_of_lt hi, hi]

end RingBuffer

end TmkDcl
