import TmkDcl.Bytes
import TmkDcl.Pipeline.ModulesConfiguration

/-!
# The configuration file (pipeline/config/src/config.cpp)

The handlers of `read_modules_configuration` catch `std::logic_error`, which the exceptions of the
JSON library are not: those of its parser, conversions, fields and iterator keys all get out.
-/

namespace TmkDcl.Pipeline

/-- How a call ends: it returns, with `*target` where it was set, an exception leaves it, or it has
read outside of `params`. -/
inductive ReadOutcome where
  | returned (rc : ℤ) (target : Option (List ModuleT))
  | thrown
  | undefined

/-- From `jsonFile >> jsonObj` on (`config.cpp:65-149`); `parse` is the parser of the library. -/
def readContent (parse : Bytes → Option Json) (content : Bytes) : ReadOutcome :=
  match parse content with
  | none => .thrown
  | some document =>
    match readModulesConfiguration document with
    | .ok modules => .returned document.items.length (some modules)
    | .error .rejected => .returned (-1) none
    | .error .jsonException => .thrown
    | .error .outOfBounds => .undefined

/-- `read_modules_configuration(fileName, target)`; `files` gives the content of the files that can
be opened. -/
def readModulesFile (parse : Bytes → Option Json) (files : Bytes → Option Bytes)
    (fileName : Option Bytes) : ReadOutcome :=
  match fileName with
  | none => .returned (-1) none
  | some fileName =>
    if fileName = [] then .returned (-1) none
    else
      match files fileName with
      | none => .returned (-1) none
      | some content => readContent parse content

/-- The call gives the modules, or -1 and leaves `*target` alone. -/
def Reported : ReadOutcome → Prop
  | .returned rc (some modules) => rc = modules.length ∧ 0 < modules.length
  | .returned rc none => rc = -1
  | .thrown | .undefined => False

/-! ### What can be read of an entry -/

namespace Json

/-- A field of an object, `null` where it is missing. -/
def member (key : String) : Json → Json
  | .object fields => (fields.lookup key).getD .null
  | _ => .null

/-- `get<int>` gives a value. -/
def isInt : Json → Bool
  | .bool _ | .number _ => true
  | _ => false

def isText : Json → Bool
  | .string _ => true
  | _ => false

/-- `get<std::vector<std::string>>` gives a value. -/
def isTexts : Json → Bool
  | .array items => items.all isText
  | _ => false

def isEmptyArray : Json → Bool
  | .array [] => true
  | _ => false

/-- The link and the type do not fit, or it is a second `FIRST`. -/
def wrongType (it : Json) (firstSeen : Bool) : Bool :=
  ((it.member "next_id").isNull != (it.member "type").isString "LAST") ||
    ((it.member "type").isString "FIRST" && firstSeen)

/-- The code throws its own exception for the entry, and gives -1. -/
def refused (it : Json) (nullSeen firstSeen : Bool) : Bool :=
  ((it.member "name").isNull && nullSeen) || it.wrongType firstSeen

/-- The name and the link can be read; a wrong type can be reported for the key of an object and
the text of a type only. -/
def complete (it document : Json) (firstSeen : Bool) : Bool :=
  (if (it.member "name").isNull then (it.member "parameters").isEmptyArray
    else (it.member "name").isText) &&
  ((it.member "next_id").isNull || (it.member "next_id").isInt) &&
  (!it.wrongType firstSeen || document.isObject && (it.member "type").isText)

/-- Nothing goes wrong in the library on the way to the entry's module or its refusal. -/
def readable (it document : Json) (nullSeen firstSeen : Bool) : Bool :=
  it.isObject && (it.member "id").isInt && (it.member "parameters").isTexts &&
    ((it.member "name").isNull && nullSeen || it.complete document firstSeen)

end Json

def nullSeen (before : List Json) : Bool := before.any fun it => (it.member "name").isNull

def firstSeen (before : List Json) : Bool := before.any fun it => (it.member "type").isString "FIRST"

/-- The code refuses none of the entries. -/
def NoneRefused (entries : List Json) : Prop :=
  ∀ before it, before ++ [it] <+: entries → it.refused (nullSeen before) (firstSeen before) = false

/-- Each of the next entries can be read, as far as none before it is refused. -/
def ReadableFrom (document : Json) (before rest : List Json) : Prop :=
  ∀ mid it, mid ++ [it] <+: rest → NoneRefused (before ++ mid) →
    it.readable document (nullSeen (before ++ mid)) (firstSeen (before ++ mid)) = true

section Entry

variable {json it document type nextId : Json} {key : String} {st : ReadState}

theorem field_object (h : it.isObject = true) (key : String) : it.field key = .ok (it.member key) := by
  cases it <;> first | rfl | cases h

theorem getInt_cases (json : Json) : (json.isInt = true ∧ ∃ n, json.getInt = .ok n) ∨
    (json.isInt = false ∧ json.getInt = .error .jsonException) := by
  cases json <;> simp [Json.isInt, Json.getInt]

theorem getString_cases (json : Json) : (json.isText = true ∧ ∃ s, json.getString = .ok s) ∨
    (json.isText = false ∧ json.getString = .error .jsonException) := by
  cases json <;> simp [Json.isText, Json.getString]

theorem mapM_getString (items : List Json) :
    (items.all Json.isText = true ∧ ∃ params, items.mapM Json.getString = .ok params ∧
      params.length = items.length) ∨
    (items.all Json.isText = false ∧ items.mapM Json.getString = .error .jsonException) := by
  induction items with
  | nil => exact .inl ⟨rfl, [], rfl, rfl⟩
  | cons json items ih =>
    rw [List.all_cons, List.mapM_cons]
    rcases getString_cases json with ⟨htext, s, hs⟩ | ⟨htext, hs⟩ <;> rw [htext, hs]
    · rcases ih with ⟨hall, params, hparams, hlen⟩ | ⟨hall, hparams⟩ <;> rw [hall, hparams]
      · exact .inl ⟨rfl, s :: params, rfl, congrArg (· + 1) hlen⟩
      · exact .inr ⟨rfl, rfl⟩
    · exact .inr ⟨rfl, rfl⟩

theorem getStrings_cases (json : Json) :
    (json.isTexts = true ∧ ∃ params, json.getStrings = .ok params ∧
      (params = [] ↔ json.isEmptyArray = true)) ∨
    (json.isTexts = false ∧ json.getStrings = .error .jsonException) := by
  cases json with
  | array items =>
    rcases mapM_getString items with ⟨hall, params, hparams, hlen⟩ | ⟨hall, hparams⟩
    · refine .inl ⟨hall, params, hparams, ?_⟩
      rw [← List.length_eq_zero_iff, hlen, List.length_eq_zero_iff]
      cases items <;> simp [Json.isEmptyArray]
    · exact .inr ⟨hall, hparams⟩
  | _ => exact .inr ⟨rfl, rfl⟩

theorem readNext_cases (document it : Json) :
    ((it.member "next_id").isNull = false ∧ (it.member "next_id").isInt = false ∧
      readNext document (it.member "type") (it.member "next_id") = .error .jsonException) ∨
    (((it.member "next_id").isNull || (it.member "next_id").isInt) = true ∧
      ((it.member "next_id").isNull != (it.member "type").isString "LAST") = true ∧
      readNext document (it.member "type") (it.member "next_id") =
        .error (throwWrongTypeError document (it.member "type"))) ∨
    (((it.member "next_id").isNull || (it.member "next_id").isInt) = true ∧
      ((it.member "next_id").isNull != (it.member "type").isString "LAST") = false ∧
      ∃ next mtype, readNext document (it.member "type") (it.member "next_id") = .ok (next, mtype)) := by
  rw [readNext]
  cases hnull : (it.member "next_id").isNull with
  | true =>
    cases hlast : (it.member "type").isString "LAST" with
    | true => exact .inr (.inr ⟨rfl, rfl, _, _, rfl⟩)
    | false => exact .inr (.inl ⟨rfl, rfl, rfl⟩)
  | false =>
    rcases getInt_cases (it.member "next_id") with ⟨hint, n, hn⟩ | ⟨hint, hn⟩
    · rw [hn, hint]
      cases hlast : (it.member "type").isString "LAST" with
      | true => exact .inr (.inl ⟨rfl, rfl, rfl⟩)
      | false => exact .inr (.inr ⟨rfl, rfl, _, _, rfl⟩)
    · rw [hn, hint]
      exact .inl ⟨rfl, rfl, rfl⟩

theorem throwWrongTypeError_cases (document type : Json) :
    ((document.isObject && type.isText) = true ∧ throwWrongTypeError document type = .rejected) ∨
    ((document.isObject && type.isText) = false ∧
      throwWrongTypeError document type = .jsonException) := by
  cases document <;> cases type <;> simp [throwWrongTypeError, Json.isObject, Json.isText]

/-- What a round of the loop gives for an entry: a module, the code's own exception, or another end. -/
structure Round (document : Json) (nulls firsts : Bool) (st : ReadState) (it : Json)
    (result : Except Failure ReadState) : Prop where
  module : it.readable document nulls firsts = true → it.refused nulls firsts = false →
    ∃ st', result = .ok st' ∧ st'.nullNameExist = ((it.member "name").isNull || nulls) ∧
      st'.first.isSome = ((it.member "type").isString "FIRST" || firsts) ∧
      st'.modules.length = st.modules.length + 1
  refuses : it.readable document nulls firsts = true → it.refused nulls firsts = true →
    result = .error .rejected
  fails : it.readable document nulls firsts = false →
    result = .error .jsonException ∨ result = .error .outOfBounds

variable {nulls firsts : Bool} {result : Except Failure ReadState} {st' : ReadState}

theorem Round.of_fails (hr : it.readable document nulls firsts = false)
    (h : result = .error .jsonException ∨ result = .error .outOfBounds) :
    Round document nulls firsts st it result where
  module := fun hr' => absurd (hr.symm.trans hr') (by decide)
  refuses := fun hr' => absurd (hr.symm.trans hr') (by decide)
  fails := fun _ => h

theorem Round.of_refuses (hr : it.readable document nulls firsts = true)
    (href : it.refused nulls firsts = true) (h : result = .error .rejected) :
    Round document nulls firsts st it result where
  module := fun _ href' => absurd (href.symm.trans href') (by decide)
  refuses := fun _ _ => h
  fails := fun hr' => absurd (hr.symm.trans hr') (by decide)

/-- With everything else in place, only a wrong type that cannot be reported is left. -/
theorem readable_eq (hobject : it.isObject = true) (hid : (it.member "id").isInt = true)
    (hparams : (it.member "parameters").isTexts = true)
    (hnulls : ((it.member "name").isNull && nulls) = false)
    (hname : (if (it.member "name").isNull then (it.member "parameters").isEmptyArray
      else (it.member "name").isText) = true)
    (hnext : ((it.member "next_id").isNull || (it.member "next_id").isInt) = true) :
    it.readable document nulls firsts =
      (!it.wrongType firsts || document.isObject && (it.member "type").isText) := by
  simp only [Json.readable, Json.complete, hobject, hid, hparams, hnulls, hname, hnext,
    Bool.true_and, Bool.false_or]

theorem Round.of_wrongType
    (hread : it.readable document nulls firsts =
      (!it.wrongType firsts || document.isObject && (it.member "type").isText))
    (hwrong : it.wrongType firsts = true)
    (h : result = .error (throwWrongTypeError document (it.member "type"))) :
    Round document nulls firsts st it result := by
  rw [hwrong, Bool.not_true, Bool.false_or] at hread
  rcases throwWrongTypeError_cases document (it.member "type") with ⟨hkey, hthrow⟩ | ⟨hkey, hthrow⟩
  · refine .of_refuses (hread.trans hkey) ?_ (h.trans (congrArg _ hthrow))
    rw [Json.refused, hwrong, Bool.or_true]
  · exact .of_fails (hread.trans hkey) (.inl (h.trans (congrArg _ hthrow)))

theorem Round.of_module
    (hread : it.readable document nulls firsts =
      (!it.wrongType firsts || document.isObject && (it.member "type").isText))
    (hwrong : it.wrongType firsts = false) (hnulls : ((it.member "name").isNull && nulls) = false)
    (h : result = .ok st') (hnull : st'.nullNameExist = ((it.member "name").isNull || nulls))
    (hfirst : st'.first.isSome = ((it.member "type").isString "FIRST" || firsts))
    (hlen : st'.modules.length = st.modules.length + 1) :
    Round document nulls firsts st it result := by
  have hr : it.readable document nulls firsts = true := by
    rw [hread, hwrong, Bool.not_false, Bool.true_or]
  have href : it.refused nulls firsts = false := by
    rw [Json.refused, hnulls, hwrong, Bool.or_self]
  exact ⟨fun _ _ => ⟨st', h, hnull, hfirst, hlen⟩,
    fun _ href' => absurd (href.symm.trans href') (by decide),
    fun hr' => absurd (hr'.symm.trans hr) (by decide)⟩

theorem readArgv_cases (name : Json) {params : List String} {empty : Bool}
    (hempty : params = [] ↔ empty = true) :
    ((if name.isNull then empty else name.isText) = true ∧
      ∃ argv, readArgv name params = .ok argv) ∨
    ((if name.isNull then empty else name.isText) = false ∧
      (readArgv name params = .error .jsonException ∨
        readArgv name params = .error .outOfBounds)) := by
  rw [readArgv]
  cases name.isNull with
  | true =>
    cases empty with
    | true => exact .inl ⟨rfl, [], by rw [if_pos rfl, if_pos (hempty.mpr rfl)]⟩
    | false =>
      have hparams : params ≠ [] := fun h => Bool.false_ne_true (hempty.mp h)
      exact .inr ⟨rfl, .inr (by rw [if_pos rfl, if_neg hparams])⟩
  | false =>
    rcases getString_cases name with ⟨htext, s, hs⟩ | ⟨htext, hs⟩
    · exact .inl ⟨htext, s :: params, by rw [hs]; rfl⟩
    · exact .inr ⟨htext, .inl (by rw [hs]; rfl)⟩

/-- What is left of a round once the vector of the module is built. -/
theorem round_of_argv (document : Json) (id : ℤ) (argv : List String) (hobject : it.isObject = true)
    (hid : (it.member "id").isInt = true) (hparams : (it.member "parameters").isTexts = true)
    (hnulls : ((it.member "name").isNull && st.nullNameExist) = false)
    (hname : (if (it.member "name").isNull then (it.member "parameters").isEmptyArray
      else (it.member "name").isText) = true) :
    Round document st.nullNameExist st.first.isSome st it (do
      let (next, mtype) ← readNext document (it.member "type") (it.member "next_id")
      let nullNameExist := (it.member "name").isNull || st.nullNameExist
      if (it.member "type").isString "FIRST" then
        if st.first.isSome then .error (throwWrongTypeError document (it.member "type"))
        else .ok ⟨st.modules ++ [⟨id, .first, next, argv⟩], some st.modules.length, nullNameExist⟩
      else .ok ⟨st.modules ++ [⟨id, mtype, next, argv⟩], st.first, nullNameExist⟩) := by
  rcases readNext_cases document it with
    ⟨hnull, hint, hnext⟩ | ⟨hok, hlast, hnext⟩ | ⟨hok, hlast, next, mtype, hnext⟩
  · refine .of_fails ?_ (.inl ?_)
    · simp only [Json.readable, Json.complete, hnulls, hnull, hint, Bool.or_self, Bool.and_false,
        Bool.false_and]
    · rw [hnext]
      rfl
  · refine .of_wrongType (readable_eq hobject hid hparams hnulls hname hok) ?_ ?_
    · simp only [Json.wrongType, hlast, Bool.true_or]
    · rw [hnext]
      rfl
  · have hread : it.readable document st.nullNameExist st.first.isSome =
        (!it.wrongType st.first.isSome || document.isObject && (it.member "type").isText) :=
      readable_eq hobject hid hparams hnulls hname hok
    simp only [hnext, bind, Except.bind]
    cases htype : (it.member "type").isString "FIRST" with
    | false =>
      refine .of_module hread ?_ hnulls rfl rfl ?_ List.length_append
      · simp only [Json.wrongType, hlast, htype, Bool.false_and, Bool.or_self]
      · simp only [htype, Bool.false_or]
    | true =>
      cases hfirst : st.first.isSome with
      | true =>
        rw [hfirst] at hread
        refine .of_wrongType hread ?_ rfl
        simp only [Json.wrongType, htype, Bool.and_self, Bool.or_true]
      | false =>
        rw [hfirst] at hread
        refine .of_module hread ?_ hnulls rfl rfl ?_ List.length_append
        · simp only [Json.wrongType, hlast, Bool.and_false, Bool.or_self]
        · simp only [htype, Bool.true_or, Option.isSome_some]

theorem readModule_round (document it : Json) (st : ReadState) :
    Round document st.nullNameExist st.first.isSome st it (readModule document st it) := by
  cases hobject : it.isObject with
  | false =>
    refine .of_fails ?_ (.inl ?_)
    · simp only [Json.readable, hobject, Bool.false_and]
    · cases it <;> first | rfl | cases hobject
  | true =>
  simp only [readModule, field_object hobject]
  rcases getInt_cases (it.member "id") with ⟨hid, id, hid'⟩ | ⟨hid, hid'⟩
  case inr =>
    refine .of_fails ?_ (.inl ?_)
    · simp only [Json.readable, hid, Bool.and_false, Bool.false_and]
    · simp only [bind, Except.bind, hid']
  rcases getStrings_cases (it.member "parameters") with
    ⟨hparams, params, hparams', hempty⟩ | ⟨hparams, hparams'⟩
  case inr =>
    refine .of_fails ?_ (.inl ?_)
    · simp only [Json.readable, hparams, Bool.and_false, Bool.false_and]
    · simp only [bind, Except.bind, hid', hparams']
  cases hnulls : (it.member "name").isNull && st.nullNameExist with
  | true =>
    refine .of_refuses ?_ ?_ ?_
    · simp only [Json.readable, hobject, hid, hparams, hnulls, Bool.and_self, Bool.true_or]
    · simp only [Json.refused, hnulls, Bool.true_or]
    · simp only [bind, Except.bind, hid', hparams', hnulls, if_true]
  | false =>
  -- the first name that is null, or a name
  rcases readArgv_cases (it.member "name") hempty with ⟨hname, argv, hargv⟩ | ⟨hname, hargv⟩
  case inr =>
    refine .of_fails ?_ ?_
    · simp only [Json.readable, Json.complete, hnulls, hname, Bool.false_and, Bool.and_false,
        Bool.or_self]
    · simp only [bind, Except.bind, hid', hparams', hnulls]
      rcases hargv with hargv | hargv <;> simp [hargv]
  have hround := round_of_argv document id argv hobject hid hparams hnulls hname
  simp only [bind, Except.bind, hid', hparams', hnulls, hargv] at hround ⊢
  exact hround

end Entry

/-! ### The loop over the document -/

section Loop

variable {document it : Json} {before rest : List Json} {st : ReadState}

theorem noneRefused_nil : NoneRefused [] := by
  intro before it h
  simp at h

theorem noneRefused_concat : NoneRefused (before ++ [it]) ↔
    NoneRefused before ∧ it.refused (nullSeen before) (firstSeen before) = false := by
  constructor
  · intro h
    exact ⟨fun b e hb => h b e (hb.trans (List.prefix_append ..)), h before it (List.prefix_refl _)⟩
  · intro ⟨hbefore, hit⟩ b e hb
    rcases List.prefix_concat_iff.mp hb with heq | hb
    · obtain ⟨rfl, he⟩ := List.append_inj' heq rfl
      rw [List.singleton_inj.mp he]
      exact hit
    · exact hbefore b e hb

theorem readableFrom_nil : ReadableFrom document before [] := by
  intro mid it h
  simp at h

theorem readableFrom_cons (hn : NoneRefused before) : ReadableFrom document before (it :: rest) ↔
    it.readable document (nullSeen before) (firstSeen before) = true ∧
      (it.refused (nullSeen before) (firstSeen before) = false →
        ReadableFrom document (before ++ [it]) rest) := by
  constructor
  · intro h
    constructor
    · have hit := h [] it (List.prefix_append [it] rest)
      rw [List.append_nil] at hit
      exact hit hn
    · intro _ mid e hmid hnone
      have he := h (it :: mid) e (List.cons_prefix_cons.mpr ⟨rfl, hmid⟩)
      rw [List.append_cons] at he
      exact he hnone
  · intro ⟨hit, hrest⟩ mid e hmid hnone
    cases mid with
    | nil =>
      rw [List.append_nil, (List.cons_prefix_cons.mp hmid).1]
      exact hit
    | cons x mid =>
      obtain ⟨rfl, hcons⟩ := List.cons_prefix_cons.mp hmid
      rw [List.append_cons] at hnone ⊢
      -- the entry is not refused, as it stands before another
      have hx : NoneRefused (before ++ [x]) := fun b i hb => hnone b i (hb.trans (List.prefix_append ..))
      exact hrest (noneRefused_concat.mp hx).2 mid e hcons hnone

/-- The locals of the loop are those of the entries read. -/
structure Tracks (before : List Json) (st : ReadState) : Prop where
  nulls : st.nullNameExist = nullSeen before
  firsts : st.first.isSome = firstSeen before
  length : st.modules.length = before.length

/-- How the rest of the loop ends. -/
def LoopEnds (document : Json) (before rest : List Json) (result : Except Failure ReadState) : Prop :=
  match result with
  | .ok st => ReadableFrom document before rest ∧ Tracks (before ++ rest) st
  | .error .rejected => ReadableFrom document before rest
  | .error _ => ¬ ReadableFrom document before rest

theorem Tracks.concat {st' : ReadState} (ht : Tracks before st)
    (hnulls : st'.nullNameExist = ((it.member "name").isNull || nullSeen before))
    (hfirsts : st'.first.isSome = ((it.member "type").isString "FIRST" || firstSeen before))
    (hlen : st'.modules.length = st.modules.length + 1) : Tracks (before ++ [it]) st' where
  nulls := by
    rw [hnulls, nullSeen, nullSeen, List.any_append, Bool.or_comm, List.any_cons, List.any_nil,
      Bool.or_false]
  firsts := by
    rw [hfirsts, firstSeen, firstSeen, List.any_append, Bool.or_comm, List.any_cons, List.any_nil,
      Bool.or_false]
  length := by rw [hlen, ht.length, List.length_append, List.length_singleton]

theorem LoopEnds.cons {result : Except Failure ReadState}
    (hiff : ReadableFrom document before (it :: rest) ↔ ReadableFrom document (before ++ [it]) rest)
    (h : LoopEnds document (before ++ [it]) rest result) :
    LoopEnds document before (it :: rest) result := by
  cases result with
  | ok st =>
    rw [LoopEnds, List.append_cons]
    exact ⟨hiff.mpr h.1, h.2⟩
  | error e =>
    cases e with
    | rejected => exact hiff.mpr h
    | jsonException => exact mt hiff.mp h
    | outOfBounds => exact mt hiff.mp h

theorem loop_ends (ht : Tracks before st) (hn : NoneRefused before) :
    LoopEnds document before rest (rest.foldlM (readModule document) st) := by
  induction rest generalizing before st with
  | nil =>
    refine ⟨readableFrom_nil, ?_⟩
    rw [List.append_nil]
    exact ht
  | cons it rest ih =>
    have hround := readModule_round document it st
    rw [ht.nulls, ht.firsts] at hround
    rw [List.foldlM_cons, bind, Monad.toBind, Except.instMonad]
    cases hread : it.readable document (nullSeen before) (firstSeen before) with
    | false =>
      have hnot : ¬ ReadableFrom document before (it :: rest) := fun h =>
        absurd (hread.symm.trans ((readableFrom_cons hn).mp h).1) (by decide)
      rcases hround.fails hread with hfail | hfail <;> rw [hfail]
      · exact hnot
      · exact hnot
    | true =>
      cases href : it.refused (nullSeen before) (firstSeen before) with
      | true =>
        rw [hround.refuses hread href]
        exact (readableFrom_cons hn).mpr ⟨hread, fun h => absurd (href.symm.trans h) (by decide)⟩
      | false =>
        obtain ⟨st', hst', hnulls, hfirsts, hlen⟩ := hround.module hread href
        have ht' : Tracks (before ++ [it]) st' := ht.concat hnulls hfirsts hlen
        have hiff : ReadableFrom document before (it :: rest) ↔
            ReadableFrom document (before ++ [it]) rest := by
          rw [readableFrom_cons hn]
          exact ⟨fun h => h.2 href, fun h => ⟨hread, fun _ => h⟩⟩
        rw [hst']
        exact (ih ht' (noneRefused_concat.mpr ⟨hn, href⟩)).cons hiff

theorem firstSeen_ne_nil {entries : List Json} (h : firstSeen entries = true) : 0 < entries.length := by
  cases entries with
  | nil => cases h
  | cons it entries => exact Nat.succ_pos _

/-- After the loop, the code gives the modules or -1. -/
theorem readModulesConfiguration_ok
    (h : document.items.foldlM (readModule document) ⟨[], none, false⟩ = .ok st) :
    (readModulesConfiguration document = .ok st.modules ∧ st.first.isSome = true) ∨
      readModulesConfiguration document = .error .rejected := by
  rw [readModulesConfiguration, h]
  obtain ⟨modules, first, nullNameExist⟩ := st
  cases first with
  | none => exact .inr rfl
  | some first =>
    by_cases hdfs : dfsCheck modules (modules.length + 1) (List.replicate modules.length false) first =
        some 0
    · exact .inl ⟨if_pos hdfs, rfl⟩
    · exact .inr (if_neg hdfs)

theorem reported_document {parse : Bytes → Option Json} {content : Bytes}
    (hparse : parse content = some document) :
    Reported (readContent parse content) ↔ ReadableFrom document [] document.items := by
  have hends : LoopEnds document [] document.items
      (document.items.foldlM (readModule document) ⟨[], none, false⟩) :=
    loop_ends ⟨rfl, rfl, rfl⟩ noneRefused_nil
  rw [readContent, hparse]
  cases hrun : document.items.foldlM (readModule document) ⟨[], none, false⟩ with
  | error e =>
    rw [hrun] at hends
    have hrc : readModulesConfiguration document = .error e := by
      rw [readModulesConfiguration, hrun]
      rfl
    simp only [hrc]
    cases e with
    | rejected => exact iff_of_true rfl hends
    | jsonException => exact iff_of_false id hends
    | outOfBounds => exact iff_of_false id hends
  | ok st =>
    rw [hrun] at hends
    obtain ⟨hread, htracks⟩ := hends
    rcases readModulesConfiguration_ok hrun with ⟨hrc, hfirst⟩ | hrc <;> simp only [hrc]
    · have hlen : st.modules.length = document.items.length := htracks.length
      have hpos : 0 < document.items.length := firstSeen_ne_nil (htracks.firsts.symm.trans hfirst)
      exact iff_of_true ⟨congrArg _ hlen.symm, hlen ▸ hpos⟩ hread
    · exact iff_of_true rfl hread

theorem reported_content {parse : Bytes → Option Json} {content : Bytes} :
    Reported (readContent parse content) ↔
      ∃ document, parse content = some document ∧ ReadableFrom document [] document.items := by
  cases hparse : parse content with
  | none =>
    rw [readContent, hparse]
    exact iff_of_false id nofun
  | some document =>
    rw [reported_document hparse]
    constructor
    · intro h
      exact ⟨document, rfl, h⟩
    · intro ⟨_, heq, h⟩
      cases heq
      exact h

end Loop

/-- `read_modules_configuration` gives the modules or -1 exactly if the file, if it can be opened,
is JSON, and every entry up to the first refused one can be read. -/
theorem reported_iff (parse : Bytes → Option Json) (files : Bytes → Option Bytes)
    (fileName : Option Bytes) :
    Reported (readModulesFile parse files fileName) ↔
      ∀ name content, fileName = some name → name ≠ [] → files name = some content →
        ∃ document, parse content = some document ∧ ReadableFrom document [] document.items := by
  cases fileName with
  | none => exact iff_of_true rfl (fun _ _ h => absurd h nofun)
  | some fileName =>
    by_cases hempty : fileName = []
    · rw [hempty]
      exact iff_of_true rfl (fun _ _ h hne => absurd (Option.some.inj h).symm hne)
    · rw [readModulesFile, if_neg hempty]
      cases hfile : files fileName with
      | none =>
        refine iff_of_true rfl ?_
        intro name content hname _ hcontent
        cases hname
        rw [hfile] at hcontent
        cases hcontent
      | some content =>
        refine reported_content.trans ?_
        constructor
        · intro h name content' hname _ hcontent
          cases hname
          cases hfile.symm.trans hcontent
          exact h
        · intro h
          exact h fileName content rfl hempty hfile

/-- A parser that is the library's on the empty text and on `1`. -/
def parseOne (content : Bytes) : Option Json := if content = [0x31] then some (.number 1) else none

/-- An empty file, and one that holds `1`. -/
theorem not_reported_empty :
    ¬ Reported (readModulesFile parseOne (fun _ => some []) (some [0x63])) ∧
      ¬ Reported (readModulesFile parseOne (fun _ => some [0x31]) (some [0x63])) := by
  constructor
  · intro h
    exact h
  · intro h
    exact h

end TmkDcl.Pipeline
