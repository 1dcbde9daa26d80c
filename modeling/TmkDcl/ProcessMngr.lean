import TmkDcl.Lts
import Mathlib.Data.Int.Notation
import Mathlib.Logic.Function.Basic

/-!
# The process table (process_mngr.c)

`process_start` hands out the value of the file-static counter `process_cnt` and
steps it before it tests the binary and forks (`process_mngr.c:77-127`).
`process_subsystem_init` and `process_subsystem_destroy` set `process_cnt_max` and
leave the counter alone, so it counts the starts of all rounds since the program
began, the failed ones included.
-/

namespace TmkDcl.ProcessMngr

/-- The file-static variables; `pid` is the field of the entries of `process_info`. -/
structure ProcessTable where
  processCnt : ℕ
  processCntMax : ℤ
  pid : ℕ → Option ℕ

/-- A call of `process_start`: whether `argv` is `NULL`, whether `access` on the
binary gives 0, and the pid that `fork` gives to the parent (`none` for -1). -/
structure StartCall where
  internal : Bool
  access : Bool
  fork : Option ℕ
  deriving DecidableEq, Repr

/-- The call fails on `access` or on `fork`. -/
def StartCall.fails (c : StartCall) : Prop :=
  c.internal = false ∧ (c.access = false ∨ c.fork = none)

instance (c : StartCall) : Decidable c.fails := inferInstanceAs (Decidable (_ ∧ _))

/-- The values before the first call. -/
def loaded : ProcessTable := ⟨0, 0, fun _ => none⟩

/-- `process_subsystem_init` (`process_mngr.c:42-59`). -/
def processSubsystemInit (t : ProcessTable) (cnt : ℤ) : ProcessTable :=
  { t with processCntMax := cnt, pid := fun _ => none }

/-- `process_subsystem_destroy` (`process_mngr.c:61-71`). -/
def processSubsystemDestroy (t : ProcessTable) : ProcessTable :=
  { t with processCntMax := 0, pid := fun _ => none }

/-- `process_start` in the parent (`process_mngr.c:73-150`). -/
def processStart (t : ProcessTable) (c : StartCall) : ProcessTable × ℤ :=
  if t.processCntMax ≤ t.processCnt then (t, -1)
  else
    let id := t.processCnt
    let t := { t with processCnt := t.processCnt + 1 }
    if c.internal then (t, id)
    else if c.access = false then (t, -1)
    else match c.fork with
      | none => (t, -1)
      | some pid => ({ t with pid := Function.update t.pid id (some pid) }, id)

section Start

variable {t : ProcessTable} {c : StartCall}

theorem processStart_cases (t : ProcessTable) (c : StartCall) :
    (t.processCntMax ≤ t.processCnt ∧ processStart t c = (t, -1)) ∨
    (t.processCnt < t.processCntMax ∧ c.fails ∧ (processStart t c).2 = -1 ∧
      (processStart t c).1.processCnt = t.processCnt + 1) ∨
    (t.processCnt < t.processCntMax ∧ ¬ c.fails ∧ (processStart t c).2 = t.processCnt ∧
      (processStart t c).1.processCnt = t.processCnt + 1) := by
  by_cases hfull : t.processCntMax ≤ t.processCnt
  · exact Or.inl ⟨hfull, by simp [processStart, hfull]⟩
  · have hlt : (t.processCnt : ℤ) < t.processCntMax := by omega
    refine Or.inr ?_
    cases hi : c.internal with
    | true => simp [processStart, hfull, hi, hlt, StartCall.fails]
    | false =>
      cases ha : c.access with
      | false => simp [processStart, hfull, hi, ha, hlt, StartCall.fails]
      | true => cases hf : c.fork <;> simp [processStart, hfull, hi, ha, hf, hlt, StartCall.fails]

theorem processStart_max (t : ProcessTable) (c : StartCall) :
    (processStart t c).1.processCntMax = t.processCntMax := by
  unfold processStart
  split
  · rfl
  · split
    · rfl
    · split
      · rfl
      · split <;> rfl

/-- A child is entered under the value of the counter before the call. -/
theorem processStart_pid_lt (h : ∀ i, (t.pid i).isSome = true → i < t.processCnt) (i : ℕ)
    (hi : ((processStart t c).1.pid i).isSome = true) : i < (processStart t c).1.processCnt := by
  have hnext : (t.pid i).isSome = true → i < t.processCnt + 1 := fun hp => (h i hp).trans_le
    (Nat.le_succ _)
  unfold processStart at hi ⊢
  split at hi
  · rw [if_pos (by assumption)]
    exact h i hi
  · rw [if_neg (by assumption)]
    cases hin : c.internal with
    | true => simpa [hin] using hnext (by simpa [hin] using hi)
    | false =>
      cases ha : c.access with
      | false => simpa [hin, ha] using hnext (by simpa [hin, ha] using hi)
      | true =>
        cases hf : c.fork with
        | none => simpa [hin, ha, hf] using hnext (by simpa [hin, ha, hf] using hi)
        | some pid =>
          simp only [hin, ha, hf, Bool.false_eq_true, if_false, reduceCtorEq] at hi ⊢
          by_cases he : i = t.processCnt
          · omega
          · rw [Function.update_of_ne he] at hi
            exact hnext hi

end Start

/-! ### The life of the server -/

/-- The table, and of the round that is open its `cnt` and the ids handed out in it. -/
structure Server where
  table : ProcessTable
  round : Option (ℤ × List ℤ)

inductive Call where
  | init (cnt : ℤ)
  | start (c : StartCall)
  | destroy

def Server.step (s : Server) : Call → Option Server
  | .init cnt =>
    match s.round with
    | none => some ⟨processSubsystemInit s.table cnt, some (cnt, [])⟩
    | some _ => none
  | .start c =>
    s.round.map fun (cnt, ids) =>
      let r := processStart s.table c
      ⟨r.1, some (cnt, if r.2 = -1 then ids else ids ++ [r.2])⟩
  | .destroy => s.round.map fun _ => ⟨processSubsystemDestroy s.table, none⟩

/-- Rounds of init, starts and destroy, one after the other. -/
def server : Lts Server Call where
  init s := s = ⟨loaded, none⟩
  step := Server.step

/-- The ids of the open round are below the counter and in the table. -/
structure RoundInv (t : ProcessTable) (cnt : ℤ) (ids : List ℤ) : Prop where
  max : t.processCntMax = cnt
  id : ∀ id ∈ ids, 0 ≤ id ∧ id < t.processCnt ∧ id < cnt
  nodup : ids.Nodup

section Round

variable {s s' : Server} {t : ProcessTable} {cnt : ℤ} {ids : List ℤ} {c : StartCall}

theorem RoundInv.start (h : RoundInv t cnt ids) (c : StartCall) :
    RoundInv (processStart t c).1 cnt
      (if (processStart t c).2 = -1 then ids else ids ++ [(processStart t c).2]) := by
  have hmax := (processStart_max t c).trans h.max
  rcases processStart_cases t c with ⟨-, he⟩ | ⟨-, -, hr, hcnt⟩ | ⟨hlt, -, hr, hcnt⟩
  · rw [he]
    exact h
  · rw [if_pos hr]
    refine ⟨hmax, fun id hid => ?_, h.nodup⟩
    have := h.id id hid
    omega
  · rw [if_neg (by omega), hr]
    refine ⟨hmax, fun id hid => ?_, ?_⟩
    · have hm := h.max
      rcases List.mem_append.mp hid with hid | hid
      · have := h.id id hid
        omega
      · obtain rfl := List.mem_singleton.mp hid
        omega
    · refine List.nodup_append.mpr ⟨h.nodup, by simp, fun id hid id' hid' => ?_⟩
      have hlt' := (h.id id hid).2.1
      rw [List.mem_singleton.mp hid']
      omega

theorem round_inv {ok : Server → Call → Prop} (h : server.Reach ok s) :
    ∀ cnt ids, s.round = some (cnt, ids) → RoundInv s.table cnt ids := by
  refine h.invariant (fun s => ∀ cnt ids, s.round = some (cnt, ids) → RoundInv s.table cnt ids) ?_
    fun s a s' _ hi _ hs cnt ids hr => ?_
  · rintro s rfl cnt ids hr
    cases hr
  · cases a with
    | init c =>
      cases hround : s.round with
      | some _ => simp [server, Server.step, hround] at hs
      | none =>
        simp only [server, Server.step, hround, Option.some.injEq] at hs
        subst hs
        cases hr
        exact ⟨rfl, by simp, List.nodup_nil⟩
    | start c =>
      obtain ⟨⟨cnt', ids'⟩, hround, rfl⟩ := Option.map_eq_some_iff.mp hs
      cases hr
      exact (hi _ _ hround).start c
    | destroy =>
      obtain ⟨-, -, rfl⟩ := Option.map_eq_some_iff.mp hs
      cases hr

/-- The promise of a call: it gives a new id of the table when it does not fail
and the round has handed out fewer than `cnt`, and a failed call leaves the
counter alone. -/
structure StartRight (t : ProcessTable) (cnt : ℤ) (ids : List ℤ) (c : StartCall) : Prop where
  succeeds : ¬ c.fails → (ids.length : ℤ) < cnt → 0 ≤ (processStart t c).2 ∧
    (processStart t c).2 < cnt ∧ (processStart t c).2 ∉ ids
  failure : (processStart t c).2 = -1 → (processStart t c).1.processCnt = t.processCnt

/-- A call is right exactly when the counter is in the table for a start that
does not fail and not above what the round asks for, and beyond it for one that does. -/
theorem process_table (h : server.Reach Lts.anyStep s) (hr : s.round = some (cnt, ids))
    (c : StartCall) : StartRight s.table cnt ids c ↔
      if c.fails then cnt ≤ s.table.processCnt
      else (ids.length : ℤ) < cnt → s.table.processCnt < cnt := by
  have hi := round_inv h cnt ids hr
  have hmax := hi.max
  by_cases hf : c.fails
  · rw [if_pos hf]
    rcases processStart_cases s.table c with ⟨hfull, he⟩ | ⟨hlt, -, he, hcnt⟩ | ⟨-, hno, -⟩
    · exact ⟨fun _ => hmax ▸ hfull, fun _ => ⟨fun hno => absurd hf hno, fun _ => by rw [he]⟩⟩
    · refine ⟨fun hright => ?_, fun hle => by omega⟩
      have := hright.failure he
      omega
    · exact absurd hf hno
  · rw [if_neg hf]
    rcases processStart_cases s.table c with ⟨hfull, he⟩ | ⟨-, hyes, -⟩ | ⟨hlt, -, he, hcnt⟩
    · refine ⟨fun hright hlen => ?_, fun hcond => ⟨fun _ hlen => ?_, fun _ => by rw [he]⟩⟩
      · have := (hright.succeeds hf hlen).1
        rw [he] at this
        omega
      · have := hcond hlen
        omega
    · exact absurd hyes hf
    · refine ⟨fun _ _ => hmax ▸ hlt, fun _ => ⟨fun _ _ => ?_, fun hr => by omega⟩⟩
      rw [he]
      refine ⟨Int.natCast_nonneg _, hmax ▸ hlt, fun hid => ?_⟩
      have := (hi.id _ hid).2.1
      omega

/-- A child that starts: its binary is there, and `fork` gives it the pid. -/
def startChild (pid : ℕ) : StartCall := ⟨false, true, some pid⟩

/-- The second child of a first round gets its id. -/
theorem process_table_second :
    ∃ s, server.Reach Lts.anyStep s ∧ s.round = some (2, [0]) ∧
      StartRight s.table 2 [0] (startChild 12) := by
  have hreach := Lts.reach_exec server Lts.anyStep [.init 2, .start (startChild 11)] rfl (by decide)
    fun _ _ _ => trivial
  have hright := (process_table hreach (show _ = some (2, [0]) from rfl) (startChild 12)).mpr
  exact ⟨_, hreach, rfl, hright (by decide)⟩

/-- A second round with a table of one entry hands out no id. -/
theorem process_table_round :
    ¬ ∀ s, server.Reach Lts.anyStep s → ∀ cnt ids, s.round = some (cnt, ids) →
      ∀ c, StartRight s.table cnt ids c := by
  intro hall
  have hreach := Lts.reach_exec server Lts.anyStep
    [.init 1, .start (startChild 11), .destroy, .init 1] rfl (by decide) fun _ _ _ => trivial
  have hright := hall _ hreach 1 [] rfl (startChild 12)
  exact absurd (hright.succeeds (by decide) (by decide)).1 (by decide)

end Round

end TmkDcl.ProcessMngr
