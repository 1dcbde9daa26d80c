import TmkDcl.Lts
import TmkDcl.Pipeline.PipelineServer

/-!
# The commands of the command server (tcp/src/command_server.c)

`executeAPICommand` runs the commands one after another in `command_thread`. INIT does nothing, and
STOP destroys the pipeline. CONFIG gives `&pl` to `pipeline_init`, which takes a pipeline that is
there over again: its thread and its mapping stay, and `modules_cnt` goes on from the old count.
-/

namespace TmkDcl.Tcp.ApiCommand

open Pipeline.PipelineServer

/-- The branches of `executeAPICommand`. -/
inductive Command where
  | stop
  | init
  | config (fileName : Bytes)
  | unknown
  deriving DecidableEq

/-- `strcasecmp(cmd, s) == 0` with or without the newline. -/
def isLine (cmd : Bytes) (s : String) : Bool :=
  strcaseEq (cString cmd) (literal s ++ [10]) || strcaseEq (cString cmd) (literal s)

/-- The command in the buffer `full_command`; the name of the file starts at the offset of
`strlen("CONFIG:")`, wherever the word is. -/
def commandOf (cmd : Bytes) : Command :=
  if isLine cmd "STOP" || isLine cmd "S" then .stop
  else if isLine cmd "INIT" || isLine cmd "I" then .init
  else if strcaseStr (cString cmd) (literal "CONFIG") then
    .config (cString (cmd.drop (literal "CONFIG:").length))
  else .unknown

/-- `executeAPICommand` (`command_server.c:21-63`). It does not return where the reader of the
configuration throws or `pthread_join` fails. -/
def executeApiCommand (files : Files) (os : Os) (cmd : Bytes) (s : ServerState) : Option (ℤ × ServerState) :=
  match commandOf cmd with
  | .stop =>
    match s.pl with
    | none => some (0, { s with exitFlag := true })
    | some pl =>
      (pipelineDestroy os pl { s with exitFlag := true }).map fun s => (0, { s with pl := none })
  | .init => some (0, s)
  | .config fileName =>
    match readPipelineConfiguration files fileName with
    | .ok pdesc => (pipelineInit os (some pdesc) s).map fun r => (0, r.2)
    | .error .rejected => (pipelineInit os none s).map fun r => (0, r.2)
    | .error _ => none
  | .unknown => some (-1, s)

/-- A command that returns, or the end of a pipeline thread. -/
inductive Label where
  | command (files : Files) (os : Os) (cmd : Bytes)
  | threadEnds (t : PipelineThread)

def step (s : ServerState) : Label → Option ServerState
  | .command files os cmd => (executeApiCommand files os cmd s).map Prod.snd
  | .threadEnds t => threadEnds t s

/-- The server before its first command. -/
def serverInit : ServerState where
  pl := none
  exitFlag := false
  threads := []
  mappings := []
  calls := 0
  accepted := none

def apiLts : Lts ServerState Label where
  init s := s = serverInit
  step := step

/-- The pipeline that is there is that of the description accepted last: as many modules as it
counts, which are those of the description in their order, and no module, thread or mapping of
another call of `pipeline_init`. -/
def Consistent (s : ServerState) : Prop :=
  ∀ pl, s.pl = some pl → pl.modulesCnt = pl.modulesList.length ∧
    ∃ call pdesc, s.accepted = some (call, pdesc) ∧
      pl.modulesList.map PipelineModule.mdesc = pdesc.mdescs ∧
      (∀ m ∈ pl.modulesList, m.call = call) ∧ (∀ t ∈ s.threads, t.call = call) ∧
      ∀ m ∈ s.mappings, m = call

/-- The command is a CONFIG, and its file has a description. -/
def describes (files : Files) (cmd : Bytes) : Bool :=
  match commandOf cmd with
  | .config fileName => (readPipelineConfiguration files fileName).isOk
  | _ => false

/-- No CONFIG whose file has a description finds a pipeline. -/
def StoppedBeforeConfig (s : ServerState) : Label → Prop
  | .command files _ cmd => describes files cmd = true → s.pl = none
  | .threadEnds _ => True

instance (s : ServerState) : (a : Label) → Decidable (StoppedBeforeConfig s a)
  | .command files _ cmd => inferInstanceAs (Decidable (describes files cmd = true → s.pl = none))
  | .threadEnds _ => inferInstanceAs (Decidable True)

/-! ### One pipeline at a time -/

/-- The pipeline of one call, which has the only thread and the only mapping. -/
structure Serves (s : ServerState) (pl : PipelineStruct) (call : ℕ) : Prop where
  count : pl.modulesCnt = pl.modulesList.length
  shmem : pl.shmem = some call
  lt_calls : call < s.calls
  modules : ∃ pdesc, s.accepted = some (call, pdesc) ∧
    pl.modulesList.map PipelineModule.mdesc = pdesc.mdescs
  owned : ∀ m ∈ pl.modulesList, m.call = call
  threads : ∀ t ∈ s.threads, t.call = call ∧ pl.threadId = some call
  mappings : s.mappings = [call]

/-- Without a pipeline there is nothing left of earlier ones. -/
def Inv (s : ServerState) : Prop :=
  (s.pl = none ∧ s.threads = [] ∧ s.mappings = []) ∨ ∃ pl call, s.pl = some pl ∧ Serves s pl call

section Steps

variable {s s' : ServerState} {pl : PipelineStruct} {call : ℕ} {pdesc : PipelineDescription} {os : Os}

theorem Inv.consistent (h : Inv s) : Consistent s := by
  intro pl hpl
  cases h with
  | inl hnone =>
    rw [hnone.1] at hpl
    cases hpl
  | inr hsome =>
    obtain ⟨pl', call, hpl', hserves⟩ := hsome
    rw [hpl'] at hpl
    cases hpl
    obtain ⟨pdesc, haccepted, hmdescs⟩ := hserves.modules
    refine ⟨hserves.count, call, pdesc, haccepted, hmdescs, hserves.owned, ?_, ?_⟩
    · intro t ht
      exact (hserves.threads t ht).1
    · intro m hm
      rw [hserves.mappings] at hm
      exact List.mem_singleton.mp hm

theorem pipelineDestroy_some (h : pipelineDestroy os pl s = some s') : s' = { s with
    threads := s.threads.filter fun t => some t.call ≠ pl.threadId
    mappings := s.mappings.filter fun m => some m ≠ pl.shmem } := by
  rw [pipelineDestroy] at h
  split at h
  · cases h
  · exact (Option.some.inj h).symm

theorem Serves.destroyed (h : Serves s pl call) (hd : pipelineDestroy os pl s = some s') :
    s'.threads = [] ∧ s'.mappings = [] := by
  rw [pipelineDestroy_some hd]
  constructor
  · apply List.filter_eq_nil_iff.mpr
    intro t ht
    obtain ⟨hcall, hthread⟩ := h.threads t ht
    simp [hcall, hthread]
  · show s.mappings.filter _ = []
    rw [h.mappings, h.shmem]
    simp

theorem inv_pipelineInit (hpl : s.pl = none) (hthreads : s.threads = []) (hmappings : s.mappings = [])
    {rc : ℤ} (h : pipelineInit os (some pdesc) s = some (rc, s')) : Inv s' := by
  simp only [pipelineInit, hpl, Option.getD_none] at h
  split at h
  · cases h
    exact .inl ⟨rfl, hthreads, hmappings⟩
  · split at h
    · obtain ⟨s₁, hdestroy, heq⟩ := Option.map_eq_some_iff.mp h
      cases heq
      left
      rw [pipelineDestroy_some hdestroy]
      refine ⟨rfl, ?_, ?_⟩
      · show s.threads.filter _ = []
        rw [hthreads]
        rfl
      · show (s.mappings ++ [s.calls]).filter _ = []
        rw [hmappings, addModules_eq]
        simp
    · cases h
      right
      rw [addModules_eq]
      refine ⟨_, s.calls, rfl, ?_⟩
      constructor
      · simp [configure, zeroed, linkModules]
      · rfl
      · exact Nat.lt_succ_self _
      · exact ⟨pdesc, rfl, by simp [linkModules, Function.comp_def]⟩
      · intro m hm
        simp only [linkModules, List.map_map, List.mem_map] at hm
        obtain ⟨mdesc, -, rfl⟩ := hm
        rfl
      · intro t ht
        simp only [startThread, hthreads] at ht
        cases hos : os.thread with
        | false => simp [hos] at ht
        | true =>
          simp only [hos, if_true, List.nil_append, List.mem_singleton] at ht
          rw [ht]
          exact ⟨rfl, rfl⟩
      · show s.mappings ++ [s.calls] = [s.calls]
        rw [hmappings, List.nil_append]

theorem Inv.command {files : Files} {cmd : Bytes} {rc : ℤ} (h : Inv s)
    (hok : StoppedBeforeConfig s (.command files os cmd))
    (hs : executeApiCommand files os cmd s = some (rc, s')) : Inv s' := by
  rw [executeApiCommand] at hs
  cases hcmd : commandOf cmd with
  | stop =>
    rw [hcmd] at hs
    cases h with
    | inl hnone =>
      simp only [hnone.1] at hs
      cases hs
      exact .inl ⟨rfl, hnone.2⟩
    | inr hsome =>
      obtain ⟨pl, call, hpl, hserves⟩ := hsome
      simp only [hpl] at hs
      obtain ⟨s₁, hdestroy, heq⟩ := Option.map_eq_some_iff.mp hs
      have hexit : Serves { s with pl := some pl, exitFlag := true } pl call :=
        ⟨hserves.count, hserves.shmem, hserves.lt_calls, hserves.modules, hserves.owned,
          hserves.threads, hserves.mappings⟩
      have hleft := hexit.destroyed hdestroy
      cases heq
      exact .inl ⟨rfl, hleft⟩
  | init =>
    rw [hcmd] at hs
    cases hs
    exact h
  | unknown =>
    rw [hcmd] at hs
    cases hs
    exact h
  | config fileName =>
    rw [hcmd] at hs
    cases hread : readPipelineConfiguration files fileName with
    | error e =>
      simp only [hread] at hs
      cases e with
      | rejected =>
        cases hs
        exact h
      | jsonException => cases hs
      | outOfBounds => cases hs
    | ok pdesc =>
      simp only [hread] at hs
      obtain ⟨r, hinit, heq⟩ := Option.map_eq_some_iff.mp hs
      cases heq
      have hpl : s.pl = none := by
        apply hok
        rw [describes, hcmd]
        show (readPipelineConfiguration files fileName).isOk = true
        rw [hread]
        rfl
      cases h with
      | inl hnone => exact inv_pipelineInit hnone.1 hnone.2.1 hnone.2.2 hinit
      | inr hsome =>
        obtain ⟨pl, call, hsome, -⟩ := hsome
        rw [hpl] at hsome
        cases hsome

theorem Inv.threadEnds {t : PipelineThread} (h : Inv s)
    (hs : Pipeline.PipelineServer.threadEnds t s = some s') : Inv s' := by
  rw [Pipeline.PipelineServer.threadEnds] at hs
  split at hs
  · rename_i ht
    cases hs
    cases h with
    | inl hnone =>
      rw [hnone.2.1] at ht
      cases ht
    | inr hsome =>
      obtain ⟨pl, call, hpl, hserves⟩ := hsome
      right
      refine ⟨t.destroyModules pl, call, by rw [hpl]; rfl, ?_⟩
      obtain ⟨pdesc, haccepted, hmdescs⟩ := hserves.modules
      constructor
      · rw [destroyModules_modulesList]
        split
        · rw [List.length_map, destroyModules_modulesCnt, hserves.count]
        · rw [destroyModules_modulesCnt, hserves.count]
      · rw [destroyModules_shmem, hserves.shmem]
      · exact hserves.lt_calls
      · refine ⟨pdesc, haccepted, ?_⟩
        rw [← hmdescs, destroyModules_modulesList]
        split
        · rw [List.map_map]
          rfl
        · rfl
      · intro m hm
        rw [destroyModules_modulesList] at hm
        split at hm
        · obtain ⟨m', hm', rfl⟩ := List.mem_map.mp hm
          exact hserves.owned m' hm'
        · exact hserves.owned m hm
      · intro t' ht'
        rw [destroyModules_threadId]
        exact hserves.threads t' (List.mem_filter.mp ht').1
      · exact hserves.mappings
  · cases hs

theorem reach_inv (h : apiLts.Reach StoppedBeforeConfig s) : Inv s := by
  apply h.invariant Inv
  · intro s hs
    rw [hs]
    exact .inl ⟨rfl, rfl, rfl⟩
  · intro s a s' _ hinv hok hs
    cases a with
    | command files os cmd =>
      obtain ⟨r, hr, rfl⟩ := Option.map_eq_some_iff.mp hs
      exact hinv.command hok hr
    | threadEnds t => exact hinv.threadEnds hs

/-- A description that is accepted while there is a pipeline leaves the mapping of the old one. -/
theorem not_consistent_of_accepted (h : Inv s) (hpl : s.pl = some pl)
    (hinit : pipelineInit os (some pdesc) s = some (0, s')) : ¬ Consistent s' := by
  intro hconsistent
  cases h with
  | inl hnone =>
    rw [hnone.1] at hpl
    cases hpl
  | inr hsome =>
    obtain ⟨pl', call, -, hserves⟩ := hsome
    simp only [pipelineInit] at hinit
    split at hinit
    · cases hinit
    · split at hinit
      · obtain ⟨s₁, -, heq⟩ := Option.map_eq_some_iff.mp hinit
        cases heq
      · cases hinit
        obtain ⟨-, call', pdesc', haccepted, -, -, -, hmappings⟩ := hconsistent _ rfl
        cases haccepted
        have hold : call ∈ s.mappings ++ [s.calls] := by
          rw [hserves.mappings]
          exact List.mem_append_left _ (List.mem_singleton_self call)
        have heq : call = s.calls := hmappings call hold
        exact absurd hserves.lt_calls (heq ▸ lt_irrefl _)

end Steps

/-- As long as the server is stopped before every other configuration, its pipeline is that of the
last one. -/
theorem reach_consistent {s : ServerState} (h : apiLts.Reach StoppedBeforeConfig s) : Consistent s :=
  (reach_inv h).consistent

/-- Every file has two modules. -/
def twoModuleFiles : Files := fun _ => .ok (Pipeline.twoModules 1 7)

def workingOs : Os := ⟨true, true, false⟩

def config : Label := .command twoModuleFiles workingOs (literal "CONFIG:a.json")

/-- The first pipeline ends and is stopped before the second configuration. -/
def configureTwice : List Label :=
  [config, .threadEnds ⟨0, 0⟩, .command twoModuleFiles workingOs (literal "STOP"), config]

theorem reach_consistent_configureTwice : ∃ s, apiLts.exec serverInit configureTwice = some s ∧
    s.pl ≠ none ∧ Consistent s := by
  have hreach := (apiLts.guard StoppedBeforeConfig).reach_exec Lts.anyStep configureTwice rfl
    (s := serverInit) (by decide +kernel) fun _ _ _ => trivial
  refine ⟨_, ?_, ?_, reach_consistent (Lts.reach_of_guard hreach)⟩
  · rfl
  · decide +kernel

/-- The second of two configurations finds the pipeline of the first. -/
theorem not_consistent_configure :
    ∃ s, apiLts.Reach Lts.anyStep s ∧ ¬ Consistent s := by
  have hreach := apiLts.reach_exec Lts.anyStep [config, config] rfl (s := serverInit)
    (by decide +kernel) fun _ _ _ => trivial
  refine ⟨_, hreach, ?_⟩
  intro h
  have hpl : ∃ pl, ((apiLts.exec serverInit [config, config]).get (by decide +kernel)).pl = some pl ∧
      pl.modulesCnt = 4 ∧ pl.modulesList.length = 2 := by
    refine ⟨_, rfl, by decide +kernel, by decide +kernel⟩
  obtain ⟨pl, hpl, hcnt, hlen⟩ := hpl
  have hcount := (h pl hpl).1
  rw [hcnt, hlen] at hcount
  exact absurd hcount (by decide)

end TmkDcl.Tcp.ApiCommand
