import TmkDcl.Bytes
import TmkDcl.Truncation

/-!
# Settings of the save block (savemiddle.cpp)

A file that is no JSON raises an exception that is no `std::logic_error`; everything else that can
be wrong with it ends in the default settings.
-/

namespace TmkDcl.SaveMiddle

open TmkDcl.Truncation

/-- `SaveVariables`. -/
structure Settings where
  config : Bool
  sourceN : Int32
  saveFormat : Bytes
  pathToSave : Bytes
  saveExtension : Bytes
  deriving DecidableEq

def defaultSaveFormat : Bytes := literal "\x7b\x7d_\x7b\x7d"
def defaultPathToSave : Bytes := literal "../data/savemiddle/"
def defaultSaveExtension : Bytes := literal "tiff"
def defaultSourceN : Int32 := 1

def saveMiddleConfigDefault (s : Settings) : Settings :=
  { s with
    saveFormat := defaultSaveFormat
    pathToSave := defaultPathToSave
    saveExtension := defaultSaveExtension
    sourceN := defaultSourceN
    config := true }

/-! ### The file -/

/-- A value of `nlohmann::json`; `nested` is an array or an object. -/
inductive Value where
  | null
  | bool (b : Bool)
  | integer (n : ℤ)
  | float (q : ℚ)
  | string (s : Bytes)
  | nested
  deriving DecidableEq

inductive Document where
  | null
  | object (fields : String → Option Value)
  | other

/-- `operator[]`. It adds a missing field as `null`, and raises an exception for what is neither
`null` nor an object. -/
def Document.member : Document → String → Option Value
  | .null, _ => some .null
  | .object fields, key => some ((fields key).getD .null)
  | .other, _ => none

/-- What `get` ends in. The conversion of a floating value that an `int` does not hold is not
defined. -/
inductive Read (α : Type) where
  | value (a : α)
  | exception
  | undefined

/-- `get<int>`. -/
def Value.getInt : Value → Read Int32
  | .integer n => .value (Int32.ofInt n)
  | .bool b => .value (if b then 1 else 0)
  | .float q => if FitsInt (truncate q) then .value (Int32.ofInt (truncate q)) else .undefined
  | _ => .exception

/-- `get<std::string>`. -/
def Value.getString : Value → Read Bytes
  | .string s => .value s
  | _ => .exception

def Document.get {α : Type} (document : Document) (key : String) (get : Value → Read α) : Read α :=
  match document.member key with
  | some v => get v
  | none => .exception

inductive Ending where
  | done
  | exception
  | undefined

/-- One assignment of the `try` block. -/
def assign {α : Type} (read : Read α) (set : Settings → α → Settings) :
    Settings × Ending → Settings × Ending
  | (s, .done) =>
    match read with
    | .value a => (set s a, .done)
    | .exception => (s, .exception)
    | .undefined => (s, .undefined)
  | stopped => stopped

/-- The assignments of the texts in the second `try` block. -/
def readTexts (document : Document) (r : Settings × Ending) : Settings × Ending :=
  let r := assign (document.get "saveFormat" Value.getString)
    (fun s text => { s with saveFormat := text }) r
  let r := assign (document.get "pathToSave" Value.getString)
    (fun s text => { s with pathToSave := text }) r
  assign (document.get "saveExtension" Value.getString)
    (fun s text => { s with saveExtension := text }) r

/-- The second `try` block. -/
def readSettings (document : Document) (s : Settings) : Settings × Ending :=
  readTexts document
    (assign (document.get "sourceN" Value.getInt) (fun s n => { s with sourceN := n }) (s, .done))

/-- How a call ends: it returns, or an exception leaves it. -/
inductive Outcome where
  | returned (s : Settings)
  | thrown (s : Settings)
  | undefined
  deriving DecidableEq

/-- `saveMiddleConfig`; `files` gives the content of the files that can be opened, and `parse` is the
parser of the library. -/
def saveMiddleConfig (parse : Bytes → Option Document) (files : Bytes → Option Bytes)
    (fileName : Bytes) (s : Settings) : Outcome :=
  if fileName = [] ∨ fileName.head? = some 0 then .returned (saveMiddleConfigDefault s)
  else
    match files fileName with
    | none => .returned (saveMiddleConfigDefault s)
    | some content =>
      match parse content with
      | none => .thrown s
      | some document =>
        match readSettings document s with
        | (s, .done) => .returned { s with config := true }
        | (s, .exception) => .returned (saveMiddleConfigDefault s)
        | (_, .undefined) => .undefined

/-! ### What is asked of it -/

/-- The value is a number, and this one. -/
def Value.Stands : Value → ℤ → Prop
  | .integer n, k => n = k
  | .float q, k => q = k
  | _, _ => False

/-- The four settings are those of the document. -/
structure GivenBy (document : Document) (s : Settings) : Prop where
  sourceN : ∃ v, document.member "sourceN" = some v ∧ v.Stands s.sourceN.toInt
  saveFormat : document.member "saveFormat" = some (.string s.saveFormat)
  pathToSave : document.member "pathToSave" = some (.string s.pathToSave)
  saveExtension : document.member "saveExtension" = some (.string s.saveExtension)

structure AtDefaults (s : Settings) : Prop where
  sourceN : s.sourceN = defaultSourceN
  saveFormat : s.saveFormat = defaultSaveFormat
  pathToSave : s.pathToSave = defaultPathToSave
  saveExtension : s.saveExtension = defaultSaveExtension

/-- The file that is read. -/
def fileContent (files : Bytes → Option Bytes) (fileName : Bytes) : Option Bytes :=
  if fileName = [] ∨ fileName.head? = some 0 then none else files fileName

/-- No exception, and all settings of the file or all defaults. -/
def AllOrDefault (parse : Bytes → Option Document) (files : Bytes → Option Bytes)
    (fileName : Bytes) (outcome : Outcome) : Prop :=
  ∃ s, outcome = .returned s ∧ s.config = true ∧
    (AtDefaults s ∨ ∃ content document, fileContent files fileName = some content ∧
      parse content = some document ∧ GivenBy document s)

/-! ### When it is so -/

/-- A number that is no value of an `int`, even without its fraction. -/
def Value.OutOfRange : Value → Prop
  | .float q => ¬FitsInt (truncate q)
  | _ => False

def Value.Convertible : Value → Prop
  | .integer _ | .bool _ | .float _ => True
  | _ => False

/-- A number that is a value of an `int`. -/
def Value.Whole : Value → Prop
  | .integer n => FitsInt n
  | .float q => FitsInt (truncate q) ∧ fraction q = 0
  | _ => False

/-- The conversion makes 1 of it. -/
def Value.BecomesDefault : Value → Prop
  | .integer n => n % 2 ^ 32 = 1
  | .float q => truncate q = 1
  | .bool b => b = true
  | _ => False

/-- The three texts of a document. -/
structure Texts (document : Document) (format path extension : Bytes) : Prop where
  saveFormat : document.member "saveFormat" = some (.string format)
  pathToSave : document.member "pathToSave" = some (.string path)
  saveExtension : document.member "saveExtension" = some (.string extension)

/-- No conversion is undefined; where all four settings can be read, the number is one of an `int`
or the conversion comes to the defaults by chance. -/
def Consistent (document : Document) : Prop :=
  ∀ v, document.member "sourceN" = some v → ¬v.OutOfRange ∧
    ∀ format path extension, Texts document format path extension → v.Convertible →
      v.Whole ∨ v.BecomesDefault ∧ format = defaultSaveFormat ∧ path = defaultPathToSave ∧
        extension = defaultSaveExtension

section Values

variable {v : Value} {n : ℤ}

theorem ofInt_eq_one_iff (n : ℤ) : Int32.ofInt n = 1 ↔ n % 2 ^ 32 = 1 := by
  have hone : (1 : Int32).toInt = 1 := rfl
  rw [← Int32.toInt_inj, Int32.toInt_ofInt, hone, Int32.size, Int.bmod]
  split
  · omega
  · omega

/-- What `get<int>` makes of a number. -/
theorem getInt_convertible (hrange : ¬v.OutOfRange) (h : v.Convertible) :
    ∃ n, v.getInt = .value n ∧ (v.Stands n.toInt ↔ v.Whole) ∧ (n = 1 ↔ v.BecomesDefault) := by
  cases v with
  | integer n =>
    refine ⟨_, rfl, ?_, ofInt_eq_one_iff n⟩
    constructor
    · intro heq
      have hfits := fitsInt_toInt (Int32.ofInt n)
      rwa [← show n = (Int32.ofInt n).toInt from heq] at hfits
    · intro hfits
      exact (toInt_ofInt hfits).symm
  | float q =>
    have hfits : FitsInt (truncate q) := not_not.mp hrange
    refine ⟨Int32.ofInt (truncate q), if_pos hfits, ?_, ?_⟩
    · rw [toInt_ofInt hfits]
      exact Iff.trans sub_eq_zero.symm (and_iff_right hfits).symm
    · have hlow := hfits.1
      have hhigh := hfits.2
      rw [ofInt_eq_one_iff]
      show truncate q % 2 ^ 32 = 1 ↔ truncate q = 1
      omega
  | bool b =>
    cases b with
    | false => exact ⟨0, rfl, Iff.rfl, iff_of_false (by decide) Bool.false_ne_true⟩
    | true => exact ⟨1, rfl, Iff.rfl, iff_of_true rfl rfl⟩
  | null | string | nested => exact h.elim

theorem getInt_not_convertible (h : ¬v.Convertible) : v.getInt = .exception := by
  cases v with
  | integer | float | bool => exact absurd trivial h
  | null | string | nested => rfl

theorem getInt_outOfRange (h : v.OutOfRange) : v.getInt = .undefined := by
  cases v with
  | float q => exact if_neg h
  | null | bool | integer | string | nested => exact h.elim

end Values

section Documents

variable {document : Document} {s : Settings} {key : String}

theorem get_string_cases (document : Document) (key : String) :
    (∃ text, document.member key = some (.string text) ∧
        document.get key Value.getString = .value text) ∨
      (∀ text, document.member key ≠ some (.string text)) ∧
        document.get key Value.getString = .exception := by
  rw [Document.get]
  cases document.member key with
  | none => exact .inr ⟨fun _ => nofun, rfl⟩
  | some v =>
    cases v with
    | string text => exact .inl ⟨text, rfl, rfl⟩
    | null | bool | integer | float | nested => exact .inr ⟨fun _ => nofun, rfl⟩

theorem readTexts_cases (document : Document) (s : Settings) :
    (∃ format path extension, Texts document format path extension ∧
        readTexts document (s, .done) =
          (⟨s.config, s.sourceN, format, path, extension⟩, .done)) ∨
      (∀ format path extension, ¬Texts document format path extension) ∧
        (readTexts document (s, .done)).2 = .exception := by
  rw [readTexts]
  cases get_string_cases document "saveFormat" with
  | inr h => exact .inr ⟨fun format _ _ ht => h.1 format ht.saveFormat, by rw [h.2]; rfl⟩
  | inl h =>
    obtain ⟨format, hformat, hget⟩ := h
    rw [hget]
    cases get_string_cases document "pathToSave" with
    | inr h => exact .inr ⟨fun _ path _ ht => h.1 path ht.pathToSave, by rw [h.2]; rfl⟩
    | inl h =>
      obtain ⟨path, hpath, hget⟩ := h
      rw [hget]
      cases get_string_cases document "saveExtension" with
      | inr h => exact .inr ⟨fun _ _ extension ht => h.1 extension ht.saveExtension,
          by rw [h.2]; rfl⟩
      | inl h =>
        obtain ⟨extension, hextension, hget⟩ := h
        exact .inl ⟨format, path, extension, ⟨hformat, hpath, hextension⟩, by rw [hget]; rfl⟩

theorem readSettings_stopped {ending : Ending}
    (h : assign (document.get "sourceN" Value.getInt) (fun s n => { s with sourceN := n })
      (s, .done) = (s, ending)) (hending : ending ≠ .done) :
    readSettings document s = (s, ending) := by
  rw [readSettings, h]
  cases ending with
  | done => exact absurd rfl hending
  | exception | undefined => rfl

theorem get_eq {v : Value} (h : document.member key = some v) :
    document.get key Value.getInt = v.getInt := by
  rw [Document.get, h]

theorem readSettings_cases (document : Document) (s : Settings) :
    (∃ v, document.member "sourceN" = some v ∧ v.OutOfRange ∧
        (readSettings document s).2 = .undefined) ∨
      ((∀ v, document.member "sourceN" = some v → ¬v.OutOfRange ∧
          ∀ format path extension, Texts document format path extension → ¬v.Convertible) ∧
        (readSettings document s).2 = .exception) ∨
      ∃ v format path extension n, document.member "sourceN" = some v ∧ ¬v.OutOfRange ∧
        v.Convertible ∧ Texts document format path extension ∧ v.getInt = .value n ∧
        readSettings document s = (⟨s.config, n, format, path, extension⟩, .done) := by
  cases hv : document.member "sourceN" with
  | none =>
    refine .inr (.inl ⟨fun _ => nofun, ?_⟩)
    have hget : document.get "sourceN" Value.getInt = .exception := by rw [Document.get, hv]
    rw [readSettings_stopped (by rw [hget]; rfl) (by exact nofun)]
  | some v =>
    have hget := get_eq hv
    by_cases hrange : v.OutOfRange
    · refine .inl ⟨v, rfl, hrange, ?_⟩
      rw [getInt_outOfRange hrange] at hget
      rw [readSettings_stopped (by rw [hget]; rfl) (by exact nofun)]
    · refine .inr ?_
      by_cases hconv : v.Convertible
      · obtain ⟨n, hn, -⟩ := getInt_convertible hrange hconv
        rw [hn] at hget
        have hsource : readSettings document s =
            readTexts document ({ s with sourceN := n }, .done) := by
          rw [readSettings, hget]
          rfl
        rw [hsource]
        cases readTexts_cases document { s with sourceN := n } with
        | inl h =>
          obtain ⟨format, path, extension, htexts, heq⟩ := h
          exact .inr ⟨v, format, path, extension, n, rfl, hrange, hconv, htexts, hn, heq⟩
        | inr h =>
          refine .inl ⟨fun w hw => ?_, h.2⟩
          rw [← Option.some.inj hw]
          exact ⟨hrange, fun format path extension ht => (h.1 format path extension ht).elim⟩
      · refine .inl ⟨fun w hw => ?_, ?_⟩
        · rw [← Option.some.inj hw]
          exact ⟨hrange, fun _ _ _ _ => hconv⟩
        · rw [getInt_not_convertible hconv] at hget
          rw [readSettings_stopped (by rw [hget]; rfl) (by exact nofun)]

end Documents

/-! ### How a call ends -/

section Calls

variable {parse : Bytes → Option Document} {files : Bytes → Option Bytes} {fileName : Bytes}
  {s : Settings} {content : Bytes} {document : Document}

theorem atDefaults_default (s : Settings) : AtDefaults (saveMiddleConfigDefault s) :=
  ⟨rfl, rfl, rfl, rfl⟩

theorem allOrDefault_default (s : Settings) :
    AllOrDefault parse files fileName (.returned (saveMiddleConfigDefault s)) :=
  ⟨_, rfl, rfl, .inl (atDefaults_default s)⟩

theorem saveMiddleConfig_no_content (h : fileContent files fileName = none) :
    saveMiddleConfig parse files fileName s = .returned (saveMiddleConfigDefault s) := by
  rw [saveMiddleConfig]
  rw [fileContent] at h
  split
  · rfl
  · rename_i hname
    rw [if_neg hname] at h
    rw [h]

theorem saveMiddleConfig_content (h : fileContent files fileName = some content) :
    saveMiddleConfig parse files fileName s =
      match parse content with
      | none => .thrown s
      | some document =>
        match readSettings document s with
        | (s, .done) => .returned { s with config := true }
        | (s, .exception) => .returned (saveMiddleConfigDefault s)
        | (_, .undefined) => .undefined := by
  rw [saveMiddleConfig]
  rw [fileContent] at h
  split
  · rename_i hname
    rw [if_pos hname] at h
    exact nomatch h
  · rename_i hname
    rw [if_neg hname] at h
    rw [h]

theorem not_allOrDefault_thrown : ¬AllOrDefault parse files fileName (.thrown s) :=
  fun ⟨_, h, _⟩ => nomatch h

theorem not_allOrDefault_undefined : ¬AllOrDefault parse files fileName .undefined :=
  fun ⟨_, h, _⟩ => nomatch h

theorem allOrDefault_read_iff {v : Value} {n : Int32} {format path extension : Bytes}
    (hcontent : fileContent files fileName = some content)
    (hparse : parse content = some document) (hv : document.member "sourceN" = some v)
    (hrange : ¬v.OutOfRange) (hconv : v.Convertible)
    (htexts : Texts document format path extension) (hn : v.getInt = .value n) :
    AllOrDefault parse files fileName (.returned ⟨true, n, format, path, extension⟩) ↔
      v.Whole ∨ v.BecomesDefault ∧ format = defaultSaveFormat ∧ path = defaultPathToSave ∧
        extension = defaultSaveExtension := by
  obtain ⟨k, hk, hstands, hone⟩ := getInt_convertible hrange hconv
  have hnk : n = k := by
    rw [hn] at hk
    exact Read.value.inj hk
  subst hnk
  rw [← hstands, ← hone]
  constructor
  · intro h
    obtain ⟨r, hr, -, hsettings⟩ := h
    rw [← Outcome.returned.inj hr] at hsettings
    cases hsettings with
    | inl hdefaults =>
      exact .inr ⟨hdefaults.sourceN, hdefaults.saveFormat, hdefaults.pathToSave,
        hdefaults.saveExtension⟩
    | inr hgiven =>
      obtain ⟨content', document', hcontent', hparse', hgiven⟩ := hgiven
      rw [hcontent] at hcontent'
      rw [← Option.some.inj hcontent', hparse] at hparse'
      rw [← Option.some.inj hparse'] at hgiven
      obtain ⟨w, hw, hstands⟩ := hgiven.sourceN
      rw [hv] at hw
      exact .inl (Option.some.inj hw ▸ hstands)
  · intro h
    refine ⟨_, rfl, rfl, ?_⟩
    cases h with
    | inl hstands =>
      exact .inr ⟨content, document, hcontent, hparse, ⟨v, hv, hstands⟩, htexts.saveFormat,
        htexts.pathToSave, htexts.saveExtension⟩
    | inr hdefaults =>
      obtain ⟨hnumber, hformat, hpath, hextension⟩ := hdefaults
      exact .inl ⟨hnumber, hformat, hpath, hextension⟩

theorem allOrDefault_parsed_iff (hcontent : fileContent files fileName = some content)
    (hparse : parse content = some document) :
    AllOrDefault parse files fileName (saveMiddleConfig parse files fileName s) ↔
      Consistent document := by
  rw [saveMiddleConfig_content hcontent, hparse]
  dsimp only
  obtain ⟨v, hv, hrange, hending⟩ | ⟨hstopped, hending⟩ |
    ⟨v, format, path, extension, n, hv, hrange, hconv, htexts, hn, heq⟩ :=
    readSettings_cases document s
  · -- the number is out of range
    generalize readSettings document s = result at hending
    obtain ⟨r, ending⟩ := result
    subst hending
    exact iff_of_false not_allOrDefault_undefined fun h => (h v hv).1 hrange
  · -- a setting cannot be read
    generalize readSettings document s = result at hending
    obtain ⟨r, ending⟩ := result
    subst hending
    refine iff_of_true (allOrDefault_default r) fun v hv => ⟨(hstopped v hv).1, ?_⟩
    intro format path extension htexts hconv
    exact absurd hconv ((hstopped v hv).2 format path extension htexts)
  · -- all four settings are read
    rw [heq]
    refine Iff.trans (allOrDefault_read_iff hcontent hparse hv hrange hconv htexts hn) ?_
    constructor
    · intro h w hw
      rw [← Option.some.inj (hv.symm.trans hw)]
      refine ⟨hrange, fun format' path' extension' htexts' _ => ?_⟩
      have hformat := Option.some.inj (htexts.saveFormat.symm.trans htexts'.saveFormat)
      have hpath := Option.some.inj (htexts.pathToSave.symm.trans htexts'.pathToSave)
      have hextension := Option.some.inj (htexts.saveExtension.symm.trans htexts'.saveExtension)
      rw [← Value.string.inj hformat, ← Value.string.inj hpath, ← Value.string.inj hextension]
      exact h
    · intro h
      exact (h v hv).2 format path extension htexts hconv

/-- No exception leaves the call, and it keeps the settings together, if whatever file it reads is
JSON of consistent settings. -/
theorem saveMiddleConfig_allOrDefault_iff (parse : Bytes → Option Document)
    (files : Bytes → Option Bytes) (fileName : Bytes) (s : Settings) :
    AllOrDefault parse files fileName (saveMiddleConfig parse files fileName s) ↔
      ∀ content, fileContent files fileName = some content →
        ∃ document, parse content = some document ∧ Consistent document := by
  cases hcontent : fileContent files fileName with
  | none =>
    rw [saveMiddleConfig_no_content hcontent]
    exact iff_of_true (allOrDefault_default s) fun _ => nofun
  | some content =>
    cases hparse : parse content with
    | none =>
      rw [saveMiddleConfig_content hcontent, hparse]
      refine iff_of_false not_allOrDefault_thrown fun h => ?_
      obtain ⟨document, hdocument, -⟩ := h content rfl
      rw [hparse] at hdocument
      exact nomatch hdocument
    | some document =>
      rw [allOrDefault_parsed_iff hcontent hparse]
      constructor
      · intro h content' hcontent'
        rw [← Option.some.inj hcontent']
        exact ⟨document, hparse, h⟩
      · intro h
        obtain ⟨document', hdocument, hconsistent⟩ := h content rfl
        rw [hparse] at hdocument
        exact Option.some.inj hdocument ▸ hconsistent

end Calls

/-- The settings before the first call. -/
def unset : Settings := ⟨false, 0, [], [], []⟩

/-- A file with an opening brace only. -/
theorem unclosed_thrown :
    saveMiddleConfig (fun _ => none) (fun _ => some [123]) (literal "savemiddle.json") unset =
        .thrown unset ∧
      ¬AllOrDefault (fun _ => none) (fun _ => some [123]) (literal "savemiddle.json")
        (saveMiddleConfig (fun _ => none) (fun _ => some [123]) (literal "savemiddle.json")
          unset) := by
  have hthrown : saveMiddleConfig (fun _ => none) (fun _ => some [123])
      (literal "savemiddle.json") unset = .thrown unset := rfl
  rw [hthrown]
  exact ⟨rfl, not_allOrDefault_thrown⟩

end TmkDcl.SaveMiddle
