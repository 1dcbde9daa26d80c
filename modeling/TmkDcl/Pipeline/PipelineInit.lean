import TmkDcl.Lts
import TmkDcl.Pipeline.PipelineServer

/-!
# What a failed start leaves behind (pipeline_server.c)

Beside the server's own state an account of the modules that are allocated and of the calls of
`pthread_create` and `pthread_join`. `pipeline_init` cleans up through `pipeline_destroy`, which
takes it that the pipeline has a thread and is the only one that the structure ever was.
-/

namespace TmkDcl.Pipeline.PipelineServer

/-- The server with the modules in memory, each named by its call and its place in the list of the
call, the calls whose thread was created, and the thread ids given to `pthread_join`. -/
structure Account where
  server : ServerState
  modules : List (ℕ × ℕ)
  created : List ℕ
  joined : List (Option ℕ)

/-- The modules in the list of a pipeline. -/
def PipelineStruct.moduleNames (pl : PipelineStruct) : List (ℕ × ℕ) :=
  pl.modulesList.zipIdx.map fun (m, i) => (m.call, i)

/-- `pipeline_destroy` (`pipeline_server.c:194-221`). -/
def Account.destroy (os : Os) (pl : PipelineStruct) (w : Account) : Option Account :=
  (pipelineDestroy os pl w.server).map fun server =>
    { w with
      server
      modules := w.modules.filter (· ∉ pl.moduleNames)
      joined := w.joined ++ [pl.threadId] }

/-- `pipeline_init(&pl, pdesc)` (`pipeline_server.c:106-178`). -/
def Account.init (os : Os) (pdesc : Option PipelineDescription) (w : Account) :
    Option (ℤ × Account) :=
  match pdesc with
  | none => some (-1, w)
  | some pdesc =>
    let call := w.server.calls
    let pl := configure pdesc (w.server.pl.getD (zeroed call))
    let server := { w.server with calls := call + 1 }
    if os.shmem = false then some (-1, { w with server := { server with pl := none } })
    else
      let pl := addModules call pdesc pl
      let w := { w with
        server := { server with mappings := server.mappings ++ [call] }
        modules := w.modules ++ pl.moduleNames }
      if pipelineModulesUpdate (pl.modulesList.map (·.mdesc)) ≠ 0 then
        (w.destroy os pl).map fun w => (-1, { w with server := { w.server with pl := none } })
      else
        some (0, { w with
          server := startThread os call pdesc pl w.server
          created := if os.thread then w.created ++ [call] else w.created })

/-- The account says nothing that the server does not do. -/
theorem init_server (os : Os) (pdesc : Option PipelineDescription) (w : Account) :
    (w.init os pdesc).map (fun r => (r.1, r.2.server)) = pipelineInit os pdesc w.server := by
  cases pdesc with
  | none => rfl
  | some pdesc =>
    simp only [Account.init, pipelineInit]
    split
    · rfl
    · split
      · simp only [Account.destroy, Option.map_map]
        rfl
      · rfl

/-! ### Calls of the server -/

/-- What the process does with its pipeline: it calls `pipeline_init`, or `pipeline_destroy` and
then forgets the pipeline, and a pipeline thread ends. -/
inductive AccountLabel where
  | init (os : Os) (pdesc : Option PipelineDescription)
  | destroy (os : Os)
  | threadEnds (t : PipelineThread)

def Account.step (w : Account) : AccountLabel → Option Account
  | .init os pdesc => (w.init os pdesc).map Prod.snd
  | .destroy os => w.server.pl.bind fun pl => (w.destroy os pl).map fun w =>
      { w with server := { w.server with pl := none } }
  | .threadEnds t => (threadEnds t w.server).map fun server => { w with server }

def accounts : Lts Account AccountLabel where
  init w := w.server.pl = none
  step := Account.step

/-- The pipeline that is there has a mapping of a call before. -/
def Account.Mapped (w : Account) : Prop :=
  ∀ pl ∈ w.server.pl, ∃ m ∈ pl.shmem, m ∈ w.server.mappings ∧ m < w.server.calls

section Calls

variable {os : Os} {pdesc : PipelineDescription} {w w' : Account} {a : AccountLabel} {rc : ℤ}

/-- The structure that the modules are added to. -/
def filled (pdesc : PipelineDescription) (w : Account) : PipelineStruct :=
  addModules w.server.calls pdesc (configure pdesc (w.server.pl.getD (zeroed w.server.calls)))

theorem filled_shmem : (filled pdesc w).shmem = some w.server.calls := by
  rw [filled, addModules_eq]

theorem filled_threadId : (filled pdesc w).threadId = w.server.pl.bind (·.threadId) := by
  rw [filled, addModules_eq]
  cases w.server.pl <;> rfl

theorem filled_mdescs : (filled pdesc w).modulesList.map (·.mdesc) = pdesc.mdescs := by
  rw [filled, addModules_eq, List.map_map]
  exact List.map_id _

/-- The shared memory is there, and the modules are added. -/
def Account.fill (pdesc : PipelineDescription) (w : Account) : Account :=
  { w with
    server := { w.server with
      calls := w.server.calls + 1
      mappings := w.server.mappings ++ [w.server.calls] }
    modules := w.modules ++ (filled pdesc w).moduleNames }

theorem init_cases (os : Os) (pdesc : PipelineDescription) (w : Account) :
    (os.shmem = false ∧ w.init os (some pdesc) =
      some (-1, { w with server := { w.server with calls := w.server.calls + 1, pl := none } })) ∨
    (os.shmem = true ∧ pipelineModulesUpdate pdesc.mdescs ≠ 0 ∧ w.init os (some pdesc) =
      ((w.fill pdesc).destroy os (filled pdesc w)).map fun w =>
        (-1, { w with server := { w.server with pl := none } })) ∨
    (os.shmem = true ∧ pipelineModulesUpdate pdesc.mdescs = 0 ∧ w.init os (some pdesc) =
      some (0, { w.fill pdesc with
        server := startThread os w.server.calls pdesc (filled pdesc w) (w.fill pdesc).server
        created := if os.thread then w.created ++ [w.server.calls] else w.created })) := by
  have hupdate : pipelineModulesUpdate ((addModules w.server.calls pdesc
      (configure pdesc (w.server.pl.getD (zeroed w.server.calls)))).modulesList.map (·.mdesc)) =
      pipelineModulesUpdate pdesc.mdescs := congrArg _ filled_mdescs
  simp only [Account.init, hupdate]
  cases os.shmem with
  | false => exact .inl ⟨rfl, rfl⟩
  | true =>
    by_cases hu : pipelineModulesUpdate pdesc.mdescs = 0
    · refine .inr (.inr ⟨rfl, hu, ?_⟩)
      rw [if_neg (by simp), if_neg (not_not_intro hu)]
      rfl
    · refine .inr (.inl ⟨rfl, hu, ?_⟩)
      rw [if_neg (by simp), if_pos hu]
      rfl

theorem Account.Mapped.init (h : w.Mapped) (pdesc : Option PipelineDescription)
    (hs : w.init os pdesc = some (rc, w')) : w'.Mapped := by
  cases pdesc with
  | none =>
    cases hs
    exact h
  | some pdesc =>
    rcases init_cases os pdesc w with ⟨-, he⟩ | ⟨-, -, he⟩ | ⟨-, -, he⟩ <;> rw [he] at hs
    · cases hs
      exact fun pl hpl => nomatch hpl
    · obtain ⟨w'', -, hw⟩ := Option.map_eq_some_iff.mp hs
      cases hw
      exact fun pl hpl => nomatch hpl
    · cases hs
      intro pl hpl
      cases hpl
      refine ⟨w.server.calls, filled_shmem, ?_, ?_⟩
      · exact List.mem_append_right _ List.mem_cons_self
      · exact Nat.lt_succ_self _

theorem Account.Mapped.step (h : w.Mapped) (hs : w.step a = some w') : w'.Mapped := by
  cases a with
  | init os pdesc =>
    obtain ⟨⟨rc, w''⟩, hw, rfl⟩ := Option.map_eq_some_iff.mp hs
    exact h.init pdesc hw
  | destroy os =>
    obtain ⟨pl, -, hs⟩ := Option.bind_eq_some_iff.mp hs
    obtain ⟨w'', -, rfl⟩ := Option.map_eq_some_iff.mp hs
    exact fun pl hpl => nomatch hpl
  | threadEnds t =>
    obtain ⟨server, hserver, rfl⟩ := Option.map_eq_some_iff.mp hs
    rw [threadEnds] at hserver
    split at hserver
    · cases hserver
      intro pl hpl
      obtain ⟨pl', hpl', rfl⟩ := Option.map_eq_some_iff.mp hpl
      rw [destroyModules_shmem]
      exact h pl' hpl'
    · cases hserver

theorem reach_mapped {ok : Account → AccountLabel → Prop} (h : accounts.Reach ok w) : w.Mapped := by
  refine h.invariant Account.Mapped ?_ fun _ _ _ _ hm _ hs => hm.step hs
  intro w h0 pl hpl
  rw [show w.server.pl = none from h0] at hpl
  cases hpl

end Calls

/-! ### All or nothing -/

/-- Nothing of the pipeline is left: neither its mapping nor a module nor its thread. -/
structure Account.Destroyed (w : Account) (pl : PipelineStruct) : Prop where
  mapping : ∀ m ∈ pl.shmem, m ∉ w.server.mappings
  modules : ∀ m ∈ pl.moduleNames, m ∉ w.modules
  thread : ∀ t ∈ w.server.threads, some t.call ≠ pl.threadId

/-- The pipeline is there, with the thread that the call created. -/
def All (w w' : Account) : Prop :=
  ∃ pl ∈ w'.server.pl, pl.threadId = some w.server.calls ∧ w.server.calls ∈ w'.created

/-- The call leaves nothing behind, joins nothing that is not a thread, and keeps the pipeline that
was there or destroys it. -/
structure Nothing (w w' : Account) : Prop where
  mappings : ∀ m ∈ w'.server.mappings, m ∈ w.server.mappings
  modules : ∀ m ∈ w'.modules, m ∈ w.modules
  joined : ∃ ids, w'.joined = w.joined ++ ids ∧ ∀ id ∈ ids, ∃ t ∈ w'.created, id = some t
  previous : ∀ pl ∈ w.server.pl, w'.server.pl = some pl ∨ w'.Destroyed pl

/-- `pipeline_init` returns 0 with all done, or -1 with nothing done. -/
def AllOrNothing (os : Os) (pdesc : Option PipelineDescription) (w : Account) : Prop :=
  ∃ rc w', w.init os pdesc = some (rc, w') ∧ (rc = 0 ∧ All w w' ∨ rc = -1 ∧ Nothing w w')

section Outcome

variable {os : Os} {pdesc : PipelineDescription} {w w' : Account}

theorem Nothing.refl : Nothing w w where
  mappings := fun _ hm => hm
  modules := fun _ hm => hm
  joined := ⟨[], (List.append_nil _).symm, fun _ hid => (List.not_mem_nil hid).elim⟩
  previous := fun _ hpl => .inl hpl

/-- Without shared memory the pipeline that was there is dropped as it is. -/
theorem allOrNothing_noMemory (hm : w.Mapped) (hos : os.shmem = false) :
    AllOrNothing os (some pdesc) w ↔ w.server.pl = none := by
  obtain ⟨-, he⟩ | ⟨hos', -, -⟩ | ⟨hos', -, -⟩ := init_cases os pdesc w
  · constructor
    · intro ⟨rc, w', hs, hw⟩
      rw [he] at hs
      cases hs
      obtain ⟨h0, -⟩ | ⟨-, hnothing⟩ := hw
      · exact absurd h0 (by decide)
      · by_contra hpl
        obtain ⟨pl, hpl⟩ := Option.ne_none_iff_exists'.mp hpl
        obtain ⟨m, hm, hlive, -⟩ := hm pl hpl
        rcases hnothing.previous pl hpl with hkept | hdestroyed
        · cases hkept
        · exact hdestroyed.mapping m hm hlive
    · intro hpl
      refine ⟨-1, _, he, .inr ⟨rfl, ?_, ?_, ?_, ?_⟩⟩
      · exact fun _ hm => hm
      · exact fun _ hm => hm
      · exact ⟨[], (List.append_nil _).symm, fun _ hid => (List.not_mem_nil hid).elim⟩
      · intro pl hpl'
        rw [hpl] at hpl'
        cases hpl'
  · exact absurd (hos.symm.trans hos') (by decide)
  · exact absurd (hos.symm.trans hos') (by decide)

/-- The cleanup after a bad list of modules joins a thread that there is not, or leaves the mapping
of the pipeline before. -/
theorem not_allOrNothing_update (hm : w.Mapped) (hos : os.shmem = true)
    (hu : pipelineModulesUpdate pdesc.mdescs ≠ 0) : ¬ AllOrNothing os (some pdesc) w := by
  intro ⟨rc, w', hs, hw⟩
  obtain ⟨hos', -⟩ | ⟨-, -, he⟩ | ⟨-, hu', -⟩ := init_cases os pdesc w
  · exact absurd (hos'.symm.trans hos) (by decide)
  · rw [he] at hs
    obtain ⟨w'', hdestroy, hw'⟩ := Option.map_eq_some_iff.mp hs
    cases hw'
    obtain ⟨h0, -⟩ | ⟨-, hnothing⟩ := hw
    · exact absurd h0 (by decide)
    · obtain ⟨server, hserver, rfl⟩ := Option.map_eq_some_iff.mp hdestroy
      cases hpl : w.server.pl with
      | none =>
        obtain ⟨ids, hids, hcreated⟩ := hnothing.joined
        have hid := List.append_cancel_left hids
        obtain ⟨t, -, ht⟩ := hcreated (filled pdesc w).threadId (by rw [← hid]; exact List.mem_cons_self)
        rw [filled_threadId, hpl] at ht
        cases ht
      | some pl =>
        obtain ⟨m, hm, hlive, hlt⟩ := hm pl hpl
        rcases hnothing.previous pl hpl with hkept | hdestroyed
        · cases hkept
        · refine hdestroyed.mapping m hm ?_
          rw [pipelineDestroy] at hserver
          split at hserver
          · cases hserver
          · cases hserver
            refine List.mem_filter.mpr ⟨List.mem_append_left _ hlive, ?_⟩
            rw [filled_shmem]
            simpa using Nat.ne_of_lt hlt
  · exact hu hu'

theorem allOrNothing_thread (hos : os.shmem = true) (hu : pipelineModulesUpdate pdesc.mdescs = 0) :
    AllOrNothing os (some pdesc) w ↔ os.thread = true := by
  obtain ⟨hos', -⟩ | ⟨-, hu', -⟩ | ⟨-, -, he⟩ := init_cases os pdesc w
  · exact absurd (hos'.symm.trans hos) (by decide)
  · exact absurd hu hu'
  · constructor
    · intro ⟨rc, w', hs, hw⟩
      rw [he] at hs
      cases hs
      obtain ⟨-, pl, hpl, hid, -⟩ | ⟨h1, -⟩ := hw
      · cases hpl
        by_contra hthread
        simp only [if_neg hthread] at hid
        cases hid
      · exact absurd h1 (by decide)
    · intro hthread
      refine ⟨0, _, he, .inl ⟨rfl, _, rfl, ?_, ?_⟩⟩
      · exact if_pos hthread
      · rw [if_pos hthread]
        exact List.mem_append_right _ List.mem_cons_self

end Outcome

/-- `pipeline_init` is all or nothing exactly without a description, when the shared memory fails
and there was no pipeline, and when every step succeeds. -/
theorem allOrNothing_iff {ok : Account → AccountLabel → Prop} {w : Account}
    (h : accounts.Reach ok w) (os : Os) (pdesc : Option PipelineDescription) :
    AllOrNothing os pdesc w ↔ ∀ d ∈ pdesc,
      if os.shmem then pipelineModulesUpdate d.mdescs = 0 ∧ os.thread = true
      else w.server.pl = none := by
  cases pdesc with
  | none => exact iff_of_true ⟨-1, w, rfl, .inr ⟨rfl, .refl⟩⟩ fun d hd => nomatch hd
  | some d =>
    have hm := reach_mapped h
    have hall : (∀ d' ∈ some d, if os.shmem then pipelineModulesUpdate d'.mdescs = 0 ∧
        os.thread = true else w.server.pl = none) ↔ if os.shmem then
          pipelineModulesUpdate d.mdescs = 0 ∧ os.thread = true else w.server.pl = none := by
      constructor
      · exact fun hd => hd d rfl
      · intro hd d' hd'
        cases hd'
        exact hd
    rw [hall]
    cases hos : os.shmem with
    | false => exact allOrNothing_noMemory hm hos
    | true =>
      rw [if_pos rfl]
      by_cases hu : pipelineModulesUpdate d.mdescs = 0
      · rw [allOrNothing_thread hos hu]
        exact (and_iff_right hu).symm
      · exact iff_of_false (not_allOrNothing_update hm hos hu) fun hd => hu hd.1

/-- A source and a finalization module whose next ids are given. -/
def twoModules (next next' : ℤ) : PipelineDescription :=
  pipelineDescriptionInit 3 "/procsegment" 512 256
    [⟨1, .first, .external, next⟩, ⟨2, .last, .internal, next'⟩]

/-- No pipeline, and nothing in memory. -/
def noPipeline : Account where
  server := ⟨none, false, [], [], 0, none⟩
  modules := []
  created := []
  joined := []

theorem reach_noPipeline : accounts.Reach Lts.anyStep noPipeline :=
  .init (show noPipeline.server.pl = none from rfl)

theorem allOrNothing_started :
    AllOrNothing ⟨true, true, true⟩ (some (twoModules 2 (-1))) noPipeline := by
  refine (allOrNothing_iff reach_noPipeline _ _).mpr fun d hd => ?_
  cases hd
  decide

/-- The second start of a pipeline finds no shared memory. -/
theorem not_allOrNothing_secondStart :
    ¬ ∀ w, accounts.Reach Lts.anyStep w → ∀ os pdesc, AllOrNothing os pdesc w := by
  intro h
  obtain ⟨w, hw, hpl⟩ : ∃ w, accounts.Reach Lts.anyStep w ∧ w.server.pl ≠ none := by
    have hs : accounts.step noPipeline (.init ⟨true, true, true⟩ (some (twoModules 2 (-1)))) =
        some _ := rfl
    exact ⟨_, .step reach_noPipeline trivial hs, by simp [startThread]⟩
  have hall := h w hw ⟨false, true, true⟩ (some (twoModules 2 (-1)))
  exact hpl ((allOrNothing_noMemory (reach_mapped hw) rfl).mp hall)

end TmkDcl.Pipeline.PipelineServer
