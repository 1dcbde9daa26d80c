import Mathlib.Data.List.Basic
import TmkDcl.Lts
import TmkDcl.RingBuffer

/-!
# The command queue (tcp/src/command_server.c)

`command_server_init` makes the ring with `ring_buffer_create(COMMAND_QUEUE_SIZE, 0)`, which
is the full form: `used` and the semaphore of the ring start at 20 with NULL in every entry.
`push_new_command` so writes one round behind `start`, and `used` counts the 20 NULLs for
ever. The position wraps once (`ring_buffer.c:56-58`), so a push behind the last entry of the
ring writes outside `buffer`.
-/

namespace TmkDcl.Tcp.CommandServer

/-- `COMMAND_QUEUE_SIZE` (`command_server.h:4`). -/
def commandQueueSize : ℕ := 20

/-- The index that `ring_buffer_push` writes (`ring_buffer.c:56-57`). -/
def pushPos (r : RingBuffer) : ℕ :=
  if r.start + r.used ≥ r.maxCnt then r.start + r.used - r.maxCnt else r.start + r.used

/-- The network thread in `push_new_command` (`command_server.c:75-76`). -/
inductive Pusher where
  | idle
  | ringPost
  | readyPost
  deriving DecidableEq

/-- `command_thread` in `pop_next_command` (`command_server.c:80-83`). -/
inductive Popper where
  | idle
  | ringWait
  | section
  deriving DecidableEq

/-- The queue: `cmd_ring`, `command_ready`, the two threads, the commands stored and
returned so far, as pointers, and the indexes used into `ring->buffer`. -/
structure Queue where
  cmdRing : RingBuffer
  commandReady : ℕ
  pusher : Pusher
  popper : Popper
  pushed : List ℕ
  popped : List ℕ
  indices : List ℕ

/-- The statements of the two functions on the ring and the semaphores. -/
inductive Label where
  | push (cmd : ℕ)
  | postRing
  | postReady
  | waitReady
  | waitRing
  | pop
  deriving DecidableEq

def step (s : Queue) : Label → Option Queue
  | .push cmd =>
    if s.pusher = .idle ∧ cmd ≠ 0 then
      some { s with
        cmdRing := ringBufferPush s.cmdRing cmd
        pusher := .ringPost
        pushed := s.pushed ++ [cmd]
        indices := s.indices ++ [pushPos s.cmdRing] }
    else none
  | .postRing =>
    if s.pusher = .ringPost then
      some { s with
        cmdRing := { s.cmdRing with sem := s.cmdRing.sem + 1 }
        pusher := .readyPost }
    else none
  | .postReady =>
    if s.pusher = .readyPost then
      some { s with commandReady := s.commandReady + 1, pusher := .idle }
    else none
  | .waitReady =>
    if s.popper = .idle ∧ 0 < s.commandReady then
      some { s with commandReady := s.commandReady - 1, popper := .ringWait }
    else none
  | .waitRing =>
    if s.popper = .ringWait ∧ 0 < s.cmdRing.sem then
      some { s with
        cmdRing := { s.cmdRing with sem := s.cmdRing.sem - 1 }
        popper := .section }
    else none
  | .pop =>
    if s.popper = .section then
      some { s with
        cmdRing := (ringBufferPop s.cmdRing).2
        popper := .idle
        popped := s.popped ++ [(ringBufferPop s.cmdRing).1]
        indices := s.indices ++ [s.cmdRing.start] }
    else none

/-- `command_server_init` (`command_server.c:116-130`). -/
def commandServerInit : Queue where
  cmdRing := ringBufferCreate commandQueueSize false
  commandReady := 0
  pusher := .idle
  popper := .idle
  pushed := []
  popped := []
  indices := []

def queue : Lts Queue Label where
  init s := s = commandServerInit
  step := step

/-- The number of pending commands. -/
def Queue.pending (s : Queue) : ℕ := s.pushed.length - s.popped.length

/-- The pops returned the first of the pushed commands in push order, none of them NULL, and
every index is inside the ring. -/
structure Fifo (s : Queue) : Prop where
  order : s.popped <+: s.pushed
  notNull : ∀ cmd ∈ s.popped, cmd ≠ 0
  inside : ∀ i ∈ s.indices, i < commandQueueSize

/-- At most `COMMAND_QUEUE_SIZE` commands are pending. -/
def bounded (s : Queue) : Label → Prop
  | .push _ => s.pending < commandQueueSize
  | _ => True

/-- The commands that were returned so far, modulo the size of the ring, and the pending ones
leave an entry free before the end of the ring. -/
def beforeEnd (s : Queue) : Label → Prop
  | .push _ => s.popped.length % commandQueueSize + s.pending < commandQueueSize
  | _ => True

instance (s : Queue) : ∀ a, Decidable (bounded s a)
  | .push _ => inferInstanceAs (Decidable (_ < _))
  | .postRing | .postReady | .waitReady | .waitRing | .pop => isTrue trivial

instance (s : Queue) : ∀ a, Decidable (beforeEnd s a)
  | .push _ => inferInstanceAs (Decidable (_ < _))
  | .postRing | .postReady | .waitReady | .waitRing | .pop => isTrue trivial

/-! ### The ring behind its NULLs -/

/-- The commands in the ring, which stand one round behind `start`. -/
def commands (r : RingBuffer) : List ℕ :=
  (List.range (r.used - r.maxCnt)).map fun i => r.buffer.getD (r.start + i) 0

/-- The ring holds its `maxCnt` initial entries and the commands up to its last entry. -/
structure Behind (r : RingBuffer) : Prop where
  size : r.maxCnt = commandQueueSize
  length : r.buffer.length = commandQueueSize
  start_lt : r.start < commandQueueSize
  used_ge : commandQueueSize ≤ r.used
  before : r.start + (r.used - r.maxCnt) ≤ commandQueueSize

section Ring

variable {r : RingBuffer}

theorem behind_create : Behind (ringBufferCreate commandQueueSize false) := by
  constructor <;> decide

/-- The position is far from the end of the ints. -/
theorem push_buffer (h : Behind r) (hend : r.start + (r.used - r.maxCnt) < commandQueueSize)
    (cmd : ℕ) : (ringBufferPush r cmd).buffer = r.buffer.set (pushPos r) cmd := by
  have hs := h.size
  have hu := h.used_ge
  have hsize : commandQueueSize = 20 := rfl
  have hsum : r.start + r.used < 2 ^ 31 := by omega
  have hentry : RingBuffer.intEntry r = pushPos r := by
    rw [RingBuffer.intEntry, RingBuffer.intPos_eq hsum, RingBuffer.wrap_eq, pushPos]
  simp only [ringBufferPush, RingBuffer.store, hentry, Int.natCast_nonneg, if_true,
    Int.toNat_natCast]

theorem behind_push (h : Behind r) (cmd : ℕ)
    (hend : r.start + (r.used - r.maxCnt) < commandQueueSize) :
    Behind (ringBufferPush r cmd) ∧ commands (ringBufferPush r cmd) = commands r ++ [cmd] ∧
    pushPos r < commandQueueSize := by
  have hs := h.size
  have hu := h.used_ge
  have hpos : pushPos r = r.start + (r.used - r.maxCnt) := by
    rw [pushPos, if_pos (by omega)]
    omega
  have hbuf : (ringBufferPush r cmd).buffer = r.buffer.set (pushPos r) cmd := push_buffer h hend cmd
  have hused : (ringBufferPush r cmd).used = r.used + 1 := rfl
  have hmax : (ringBufferPush r cmd).maxCnt = r.maxCnt := rfl
  have hstart : (ringBufferPush r cmd).start = r.start := rfl
  have hcnt : r.used + 1 - r.maxCnt = r.used - r.maxCnt + 1 := by omega
  refine ⟨⟨hs, ?_, h.start_lt, by omega, by omega⟩, ?_, by omega⟩
  · rw [hbuf, List.length_set, h.length]
  · rw [commands, commands, hbuf, hused, hmax, hstart, hcnt, List.range_succ, List.map_append]
    refine congrArg₂ List.append ?_ ?_
    · refine List.map_congr_left fun i hi => ?_
      have hi' := List.mem_range.mp hi
      rw [List.getD_eq_getElem?_getD, List.getD_eq_getElem?_getD,
        List.getElem?_set_ne (by omega)]
    · have hlt : pushPos r < r.buffer.length := by
        rw [h.length]
        omega
      simp [← hpos, hlt]

theorem behind_pop (h : Behind r) (hu : r.maxCnt < r.used) :
    Behind (ringBufferPop r).2 ∧ commands r = (ringBufferPop r).1 :: commands (ringBufferPop r).2 ∧
    (ringBufferPop r).2.start = (r.start + 1) % commandQueueSize := by
  have hs := h.size
  have hb := h.before
  have hlt := h.start_lt
  have hstart : (ringBufferPop r).2.start = (r.start + 1) % commandQueueSize := by
    rw [← hs]
    exact RingBuffer.next_start (hs ▸ hlt)
  have hmod : (r.start + 1) % commandQueueSize =
      if r.start + 1 = commandQueueSize then 0 else r.start + 1 := by
    split
    · rename_i he
      rw [he, Nat.mod_self]
    · exact Nat.mod_eq_of_lt (by omega)
  have hused : (ringBufferPop r).2.used = r.used - 1 := rfl
  have hmax : (ringBufferPop r).2.maxCnt = r.maxCnt := rfl
  have hbuf : (ringBufferPop r).2.buffer = r.buffer := rfl
  refine ⟨⟨hs, h.length, ?_, ?_, ?_⟩, ?_, hstart⟩
  · rw [hstart]
    exact Nat.mod_lt _ (by decide)
  · omega
  · rw [hstart, hmod, hused, hmax]
    split <;> omega
  · obtain ⟨n, hn⟩ : ∃ n, r.used - r.maxCnt = n + 1 := ⟨r.used - r.maxCnt - 1, by omega⟩
    have hn' : r.used - 1 - r.maxCnt = n := by omega
    rw [commands, commands, hused, hmax, hbuf, hstart, hn, hn', List.range_succ_eq_map,
      List.map_cons, List.map_map]
    congr 1
    refine List.map_congr_left fun i hi => ?_
    have hi' := List.mem_range.mp hi
    rw [hmod, if_neg (by omega), Function.comp, Nat.succ_eq_add_one]
    congr 1
    omega

end Ring

/-! ### Runs -/

/-- The commands that are in the ring but not yet in `command_ready`. -/
def Pusher.commands : Pusher → ℕ
  | .idle => 0
  | .ringPost | .readyPost => 1

/-- The commands that are taken from `command_ready` but still in the ring. -/
def Popper.commands : Popper → ℕ
  | .idle => 0
  | .ringWait | .section => 1

/-- What holds of a queue whose pushes stay before the end of the ring. -/
structure Inv (s : Queue) : Prop where
  behind : Behind s.cmdRing
  split : s.pushed = s.popped ++ commands s.cmdRing
  start : s.cmdRing.start = s.popped.length % commandQueueSize
  ready : s.cmdRing.used - s.cmdRing.maxCnt =
    s.commandReady + s.pusher.commands + s.popper.commands
  notNull : ∀ cmd ∈ s.pushed, cmd ≠ 0
  inside : ∀ i ∈ s.indices, i < commandQueueSize

section Runs

variable {s s' : Queue} {a : Label}

theorem commands_length (r : RingBuffer) : (commands r).length = r.used - r.maxCnt := by
  simp [commands]

theorem Inv.pending_eq (h : Inv s) : s.pending = s.cmdRing.used - s.cmdRing.maxCnt := by
  have hlen := congrArg List.length h.split
  rw [List.length_append, commands_length] at hlen
  rw [Queue.pending]
  omega

theorem inv_init : Inv commandServerInit where
  behind := behind_create
  split := rfl
  start := rfl
  ready := rfl
  notNull cmd hm := by cases hm
  inside i hm := by cases hm

theorem Behind.sem {r : RingBuffer} (h : Behind r) (n : ℕ) : Behind { r with sem := n } :=
  ⟨h.size, h.length, h.start_lt, h.used_ge, h.before⟩

theorem inv_step (h : Inv s) (hok : beforeEnd s a) (hs : step s a = some s') : Inv s' := by
  have hready := h.ready
  cases a with
  | push cmd =>
    simp only [step, Option.ite_none_right_eq_some, Option.some.injEq] at hs
    obtain ⟨⟨hidle, hcmd⟩, rfl⟩ := hs
    have hend : s.cmdRing.start + (s.cmdRing.used - s.cmdRing.maxCnt) < commandQueueSize := by
      rw [h.start, ← h.pending_eq]
      exact hok
    obtain ⟨hb, hc, hp⟩ := behind_push h.behind cmd hend
    have hu := h.behind.used_ge
    have hm := h.behind.size
    refine ⟨hb, ?_, h.start, ?_, ?_, ?_⟩
    · simp only [hc, h.split, List.append_assoc]
    · simp only [hidle, Pusher.commands] at hready
      simp only [RingBuffer.push_used, RingBuffer.push_maxCnt, Pusher.commands]
      omega
    · intro x hx
      rcases List.mem_append.mp hx with hx | hx
      · exact h.notNull x hx
      · exact List.mem_singleton.mp hx ▸ hcmd
    · intro i hi
      rcases List.mem_append.mp hi with hi | hi
      · exact h.inside i hi
      · exact List.mem_singleton.mp hi ▸ hp
  | postRing =>
    simp only [step, Option.ite_none_right_eq_some, Option.some.injEq] at hs
    obtain ⟨hpc, rfl⟩ := hs
    rw [hpc] at hready
    exact ⟨h.behind.sem _, h.split, h.start, hready, h.notNull, h.inside⟩
  | postReady =>
    simp only [step, Option.ite_none_right_eq_some, Option.some.injEq] at hs
    obtain ⟨hpc, rfl⟩ := hs
    refine ⟨h.behind, h.split, h.start, ?_, h.notNull, h.inside⟩
    simp only [hpc, Pusher.commands] at hready ⊢
    omega
  | waitReady =>
    simp only [step, Option.ite_none_right_eq_some, Option.some.injEq] at hs
    obtain ⟨⟨hpc, hpos⟩, rfl⟩ := hs
    refine ⟨h.behind, h.split, h.start, ?_, h.notNull, h.inside⟩
    simp only [hpc, Popper.commands] at hready ⊢
    omega
  | waitRing =>
    simp only [step, Option.ite_none_right_eq_some, Option.some.injEq] at hs
    obtain ⟨⟨hpc, -⟩, rfl⟩ := hs
    rw [hpc] at hready
    exact ⟨h.behind.sem _, h.split, h.start, hready, h.notNull, h.inside⟩
  | pop =>
    simp only [step, Option.ite_none_right_eq_some, Option.some.injEq] at hs
    obtain ⟨hpc, rfl⟩ := hs
    simp only [hpc, Popper.commands] at hready
    obtain ⟨hb, hc, hst⟩ := behind_pop h.behind (by omega)
    refine ⟨hb, ?_, ?_, ?_, h.notNull, ?_⟩
    · rw [h.split, hc]
      simp
    · simp only [hst, h.start, List.length_append, List.length_singleton, Nat.mod_add_mod]
    · simp only [ringBufferPop, Popper.commands]
      omega
    · intro i hi
      rcases List.mem_append.mp hi with hi | hi
      · exact h.inside i hi
      · exact List.mem_singleton.mp hi ▸ h.behind.start_lt

theorem inv_reach (h : queue.Reach beforeEnd s) : Inv s := by
  refine h.invariant Inv (fun s h0 => ?_) fun _ _ _ _ hi hok hs => inv_step hi hok hs
  cases (h0 : s = commandServerInit)
  exact inv_init

/-- As long as no push goes beyond the end of the ring, the pops return the pushed commands in
order, and every index is inside the ring. -/
theorem command_queue (h : queue.Reach beforeEnd s) : Fifo s := by
  have hinv := inv_reach h
  have hpre : s.popped <+: s.pushed := hinv.split ▸ List.prefix_append ..
  exact ⟨hpre, fun cmd hm => hinv.notNull cmd (hpre.subset hm), hinv.inside⟩

/-- A push that leaves no entry free before the end of the ring writes outside of it. -/
theorem push_outside {cmd : ℕ} (h : queue.Reach beforeEnd s) (hend : ¬ beforeEnd s (.push cmd))
    (hs : step s (.push cmd) = some s') : ¬ Fifo s' := by
  have hinv : Inv s := inv_reach h
  simp only [step, Option.ite_none_right_eq_some, Option.some.injEq] at hs
  obtain ⟨-, rfl⟩ := hs
  intro hf
  have hin := hf.inside (pushPos s.cmdRing) (by simp)
  have hu := hinv.behind.used_ge
  have hm := hinv.behind.size
  rw [beforeEnd, hinv.pending_eq, ← hinv.start] at hend
  rw [pushPos, if_pos (by omega)] at hin
  omega

/-- A command is pushed and returned. -/
def round (cmd : ℕ) : List Label :=
  [.push cmd, .postRing, .postReady, .waitReady, .waitRing, .pop]

theorem command_queue_round : ∃ s, queue.Reach beforeEnd s ∧ s.popped = [64, 128] ∧ Fifo s := by
  have hreach := Lts.reach_of_guard (Lts.reach_exec (queue.guard beforeEnd) Lts.anyStep
    (round 64 ++ round 128) rfl (by decide +kernel) fun _ _ _ => trivial)
  exact ⟨_, hreach, by decide +kernel, command_queue hreach⟩

/-- One command is returned, and with 19 pending the next push writes behind the ring. -/
theorem command_queue_overrun : ¬ ∀ s, queue.Reach bounded s → Fifo s := by
  intro hall
  have hreach := Lts.reach_of_guard (Lts.reach_exec (queue.guard bounded) Lts.anyStep
    (round 64 ++ (List.replicate 19 [.push 64, .postRing, .postReady]).flatten ++ [.push 64])
    rfl (by decide +kernel) fun _ _ _ => trivial)
  exact absurd ((hall _ hreach).inside 20 (by decide +kernel)) (by decide)

end Runs

end TmkDcl.Tcp.CommandServer
