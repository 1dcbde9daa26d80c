import Mathlib.Data.List.TakeWhile
import Mathlib.Logic.Function.Basic
import TmkDcl.Libcommon.ElementJson
import TmkDcl.Lts

/-!
# The C view of `ServerSettings` (ServerSettings.cpp, server_settings_c.h)

An object holds its settings, and in its base `server_settings` a copy of the numbers and pointers
to the characters of its strings. The characters of a string are in the string itself or in a block
of the heap that no other string has; where an assignment puts them is up to the library, and an
exchange of two strings exchanges their blocks. Objects are known by their numbers.
-/

namespace TmkDcl.Libcommon.View

open TmkDcl (Json JsonError Lts)

inductive StringField where
  | address
  | shmemDataName
  | boostSegmentName
  deriving DecidableEq

inductive NumberField where
  | port
  | commandQueueSize
  | shmemDataSize
  | minimalBoostSize
  deriving DecidableEq

/-- Where the characters of a string are. -/
inductive Chars where
  | inline
  | heap (block : ℕ)
  deriving DecidableEq

inductive Pointer where
  | inline (object : ℕ) (field : StringField)
  | heap (block : ℕ)
  deriving DecidableEq

/-- `server_settings`. -/
structure CSettings where
  address : Pointer
  port : UInt32
  commandQueueSize : Int32
  shmemDataName : Pointer
  shmemDataSizeEnv : UInt64
  boostSegmentNameEnv : Pointer
  minimalBoostSize : UInt64
  deriving DecidableEq

/-- `ServerSettings`. -/
structure Object where
  fields : ServerSettings
  chars : StringField → Chars
  base : CSettings

/-- `c_str()` of a string of the object `i`. -/
def Object.cStr (i : ℕ) (o : Object) (f : StringField) : Pointer :=
  match o.chars f with
  | .inline => .inline i f
  | .heap block => .heap block

def Object.replicate (i : ℕ) (o : Object) : Object :=
  { o with
    base := ⟨o.cStr i .address, o.fields.port, o.fields.commandQueueSize, o.cStr i .shmemDataName,
      o.fields.shmemDataSize, o.cStr i .boostSegmentName, o.fields.minimalBoostSize⟩ }

/-- What a constructor starts from: empty strings, and numbers and a base that have no value yet. -/
def Object.raw (memory : Object) : Object :=
  { memory with
    fields := { memory.fields with address := "", shmemDataName := "", boostSegmentName := "" }
    chars := fun _ => .inline }

/-- What the default constructor assigns. -/
def defaultSettings : ServerSettings :=
  ⟨"127.0.0.1", 4444, 20, "SHMEM_DATA_NAME", 2000000000, "BOOST_SEGMENT_NAME", 2000000000⟩

def Object.setFields (i : ℕ) (fields : ServerSettings) (chars : StringField → Chars) (o : Object) :
    Object :=
  Object.replicate i { o with fields := fields, chars := chars }

def Object.copyFrom (i : ℕ) (chars : StringField → Chars) (o other : Object) : Object :=
  o.setFields i other.fields chars

/-- `moveFrom`, between two objects: both sides of every `swap`, and `replicate` of one of them. -/
def Object.moveFrom (i : ℕ) (o other : Object) : Object × Object :=
  (Object.replicate i { o with fields := other.fields, chars := other.chars },
    { other with fields := o.fields, chars := o.chars })

/-! ### `fromJson` -/

inductive Member where
  | text (f : StringField)
  | number (n : NumberField)
  deriving DecidableEq

def Member.key : Member → String
  | .text .address => "address"
  | .number .port => "port"
  | .number .commandQueueSize => "command_queue_size"
  | .text .shmemDataName => "shmem_data_name"
  | .number .shmemDataSize => "shmem_data_size"
  | .text .boostSegmentName => "boost_segment_name"
  | .number .minimalBoostSize => "minimal_boost_size"

/-- The members in the order in which `fromJson` assigns to them. -/
def jsonMembers : List Member :=
  [.text .address, .number .port, .number .commandQueueSize, .text .shmemDataName,
    .number .shmemDataSize, .text .boostSegmentName, .number .minimalBoostSize,
    .number .shmemDataSize]

def setText (f : StringField) (text : String) (s : ServerSettings) : ServerSettings :=
  match f with
  | .address => { s with address := text }
  | .shmemDataName => { s with shmemDataName := text }
  | .boostSegmentName => { s with boostSegmentName := text }

def setNumber (n : NumberField) (value : ℤ) (s : ServerSettings) : ServerSettings :=
  match n with
  | .port => { s with port := UInt32.ofInt value }
  | .commandQueueSize => { s with commandQueueSize := Int32.ofInt value }
  | .shmemDataSize => { s with shmemDataSize := UInt64.ofInt value }
  | .minimalBoostSize => { s with minimalBoostSize := UInt64.ofInt value }

def readText (node : Json String) (f : StringField) : Except JsonError String := do
  (← node.entry (Member.text f).key).getString

def readNumber (node : Json String) (n : NumberField) : Except JsonError ℤ := do
  let value ← node.entry (Member.number n).key
  match n with
  | .port | .commandQueueSize => value.getInt
  | .shmemDataSize | .minimalBoostSize => value.getInt64

def assign (node : Json String) (chars : StringField → Chars) (o : Object) :
    Member → Except JsonError Object
  | .text f => (readText node f).map fun text =>
    { o with fields := setText f text o.fields, chars := Function.update o.chars f (chars f) }
  | .number n => (readNumber node n).map fun value =>
    { o with fields := setNumber n value o.fields }

/-- The assignments of `fromJson` up to the first that throws, and whether none has thrown. -/
def assignAll (node : Json String) (chars : StringField → Chars) :
    List Member → Object → Object × Bool
  | [], o => (o, true)
  | m :: rest, o =>
    match assign node chars o m with
    | .ok o' => assignAll node chars rest o'
    | .error _ => (o, false)

def Object.fromJson (i : ℕ) (node : Json String) (chars : StringField → Chars) (o : Object) :
    Object × Bool :=
  match assignAll node chars jsonMembers o with
  | (o', true) => (o'.replicate i, true)
  | (o', false) => (o', false)

/-! ### Histories -/

inductive Op where
  | construct (i : ℕ) (chars : StringField → Chars) (memory : Object)
  | constructFields (i : ℕ) (fields : ServerSettings) (chars : StringField → Chars)
    (memory : Object)
  | constructJson (i : ℕ) (node : Json String) (chars : StringField → Chars) (memory : Object)
  | copyConstruct (i j : ℕ) (chars : StringField → Chars) (memory : Object)
  | moveConstruct (i j : ℕ) (memory : Object)
  | copyAssign (i j : ℕ) (chars : StringField → Chars)
  | moveAssign (i j : ℕ)
  | fromJson (i : ℕ) (node : Json String) (chars : StringField → Chars)
  | destroy (i : ℕ)

/-- The objects that live. -/
abbrev Objects := ℕ → Option Object

def Objects.put (s : Objects) (i : ℕ) (o : Object) : Objects := Function.update s i (some o)

/-- A constructor at a place where no object lives. -/
def Objects.make (s : Objects) (i : ℕ) (o : Object) : Option Objects :=
  if (s i).isNone then some (s.put i o) else none

def step (s : Objects) : Op → Option Objects
  | .construct i chars memory => s.make i (memory.raw.setFields i defaultSettings chars)
  | .constructFields i fields chars memory => s.make i (memory.raw.setFields i fields chars)
  | .constructJson i node chars memory =>
    match memory.raw.fromJson i node chars with
    | (o, true) => s.make i o
    | (_, false) => some s
  | .copyConstruct i j chars memory => do
    let other ← s j
    s.make i (memory.raw.copyFrom i chars other)
  | .moveConstruct i j memory => do
    let other ← s j
    let (o, other') := memory.raw.moveFrom i other
    Objects.make (s.put j other') i o
  | .copyAssign i j chars => do
    let o ← s i
    let other ← s j
    return s.put i (o.copyFrom i chars other)
  | .moveAssign i j => do
    let o ← s i
    let other ← s j
    if i = j then return s.put i (o.replicate i)
    else
      let (o', other') := o.moveFrom i other
      return Objects.put (s.put j other') i o'
  | .fromJson i node chars => do
    let o ← s i
    return s.put i (o.fromJson i node chars).1
  | .destroy i => do
    let _ ← s i
    return Function.update s i none

def histories : Lts Objects Op where
  init s := s = fun _ => none
  step := step

/-- The base of the object `i` has its numbers, and pointers to its own strings. -/
structure Agrees (i : ℕ) (o : Object) : Prop where
  address : o.base.address = o.cStr i .address
  port : o.base.port = o.fields.port
  commandQueueSize : o.base.commandQueueSize = o.fields.commandQueueSize
  shmemDataName : o.base.shmemDataName = o.cStr i .shmemDataName
  shmemDataSize : o.base.shmemDataSizeEnv = o.fields.shmemDataSize
  boostSegmentName : o.base.boostSegmentNameEnv = o.cStr i .boostSegmentName
  minimalBoostSize : o.base.minimalBoostSize = o.fields.minimalBoostSize

/-- The C view of every object that lives is that of its fields. -/
def AllAgree (s : Objects) : Prop := ∀ i o, s i = some o → Agrees i o

/-! ### What a step does to the agreement -/

/-- An exchange of the two changes nothing of which the base has a copy. Strings in the same place
are both in their objects. -/
structure Interchangeable (a b : Object) : Prop where
  port : a.fields.port = b.fields.port
  commandQueueSize : a.fields.commandQueueSize = b.fields.commandQueueSize
  shmemDataSize : a.fields.shmemDataSize = b.fields.shmemDataSize
  minimalBoostSize : a.fields.minimalBoostSize = b.fields.minimalBoostSize
  chars : a.chars = b.chars

/-- The document has a value for the member to which it can be assigned. -/
def readable (node : Json String) : Member → Bool
  | .text f => (readText node f).isOk
  | .number n => (readNumber node n).isOk

/-- The assignment leaves the number as it is, and the characters of the string in their place. -/
def Stays (node : Json String) (chars : StringField → Chars) (o : Object) : Member → Prop
  | .text f => chars f = o.chars f
  | .number n => ∀ value, readNumber node n = .ok value → setNumber n value o.fields = o.fields

/-- The condition on a step: a move exchanges nothing that shows in the C view, and what
`fromJson` assigns before it throws stays. -/
def Faithful (s : Objects) : Op → Prop
  | .moveConstruct _ j memory => ∀ other, s j = some other → Interchangeable memory.raw other
  | .moveAssign i j => i ≠ j → ∀ o other, s i = some o → s j = some other →
      Interchangeable o other
  | .fromJson i node chars => ∀ o, s i = some o → jsonMembers.all (readable node) = false →
      ∀ m ∈ jsonMembers.takeWhile (readable node), Stays node chars o m
  | _ => True

section Moves

variable {i : ℕ} {o other : Object}

theorem agrees_replicate (i : ℕ) (o : Object) : Agrees i (o.replicate i) :=
  ⟨rfl, rfl, rfl, rfl, rfl, rfl, rfl⟩

theorem chars_eq_of_cStr {f : StringField} (h : o.cStr i f = other.cStr i f) :
    o.chars f = other.chars f := by
  unfold Object.cStr at h
  cases ha : o.chars f with
  | inline =>
    cases hb : other.chars f with
    | inline => rfl
    | heap b =>
      rw [ha, hb] at h
      cases h
  | heap a =>
    cases hb : other.chars f with
    | inline =>
      rw [ha, hb] at h
      cases h
    | heap b =>
      rw [ha, hb] at h
      cases h
      rfl

theorem cStr_eq_of_chars (h : o.chars = other.chars) (f : StringField) :
    o.cStr i f = other.cStr i f := by
  unfold Object.cStr
  rw [h]

/-- With the base of an object that agrees, another agrees exactly if the numbers are the same and
the strings are in the same places. -/
theorem agrees_iff_interchangeable (hbase : o.base = other.base) (h : Agrees i other) :
    Agrees i o ↔ Interchangeable o other := by
  constructor
  · intro ho
    refine ⟨?_, ?_, ?_, ?_, ?_⟩
    · rw [← ho.port, hbase, h.port]
    · rw [← ho.commandQueueSize, hbase, h.commandQueueSize]
    · rw [← ho.shmemDataSize, hbase, h.shmemDataSize]
    · rw [← ho.minimalBoostSize, hbase, h.minimalBoostSize]
    · funext f
      apply chars_eq_of_cStr (i := i)
      cases f with
      | address => rw [← ho.address, hbase, h.address]
      | shmemDataName => rw [← ho.shmemDataName, hbase, h.shmemDataName]
      | boostSegmentName => rw [← ho.boostSegmentName, hbase, h.boostSegmentName]
  · intro hi
    have hcstr := fun f => cStr_eq_of_chars (i := i) hi.chars f
    refine ⟨?_, ?_, ?_, ?_, ?_, ?_, ?_⟩
    · rw [hbase, h.address, hcstr]
    · rw [hbase, h.port, hi.port]
    · rw [hbase, h.commandQueueSize, hi.commandQueueSize]
    · rw [hbase, h.shmemDataName, hcstr]
    · rw [hbase, h.shmemDataSize, hi.shmemDataSize]
    · rw [hbase, h.boostSegmentName, hcstr]
    · rw [hbase, h.minimalBoostSize, hi.minimalBoostSize]

/-- The source of a move agrees exactly if it has got back what it has given. -/
theorem agrees_moveFrom_iff (i j : ℕ) (h : Agrees j other) :
    Agrees j (o.moveFrom i other).2 ↔ Interchangeable o other := by
  rw [agrees_iff_interchangeable (by rfl) h]
  constructor
  · intro hi
    exact ⟨hi.port, hi.commandQueueSize, hi.shmemDataSize, hi.minimalBoostSize, hi.chars⟩
  · intro hi
    exact ⟨hi.port, hi.commandQueueSize, hi.shmemDataSize, hi.minimalBoostSize, hi.chars⟩

end Moves

section FromJson

variable {node : Json String} {chars : StringField → Chars} {o other : Object} {m m' : Member}

/-- The object after an assignment, also if it throws. -/
def store (node : Json String) (chars : StringField → Chars) (o : Object) (m : Member) : Object :=
  match assign node chars o m with
  | .ok o' => o'
  | .error _ => o

theorem assign_of_readable (h : readable node m = true) :
    assign node chars o m = .ok (store node chars o m) := by
  unfold store
  cases hassign : assign node chars o m with
  | ok o' => rfl
  | error e =>
    unfold readable at h
    unfold assign at hassign
    cases m with
    | text f =>
      cases hread : readText node f <;> simp_all [Except.map, Except.isOk, Except.toBool]
    | number n =>
      cases hread : readNumber node n <;> simp_all [Except.map, Except.isOk, Except.toBool]

theorem assign_of_not_readable (chars : StringField → Chars) (o : Object)
    (h : readable node m = false) : ∃ e, assign node chars o m = .error e := by
  unfold readable at h
  unfold assign
  cases m with
  | text f =>
    cases hread : readText node f <;> simp_all [Except.map, Except.isOk, Except.toBool]
  | number n =>
    cases hread : readNumber node n <;> simp_all [Except.map, Except.isOk, Except.toBool]

theorem assignAll_eq (ms : List Member) (o : Object) : assignAll node chars ms o =
    ((ms.takeWhile (readable node)).foldl (store node chars) o, ms.all (readable node)) := by
  induction ms generalizing o with
  | nil => rfl
  | cons m ms ih =>
    unfold assignAll
    cases hread : readable node m with
    | true =>
      rw [assign_of_readable hread, List.takeWhile_cons_of_pos hread, List.all_cons, hread,
        List.foldl_cons]
      exact ih _
    | false =>
      obtain ⟨e, he⟩ := assign_of_not_readable chars o hread
      rw [he, List.takeWhile_cons_of_neg (by simp [hread]), List.all_cons, hread]
      rfl

theorem store_of_not_readable (h : readable node m = false) : store node chars o m = o := by
  obtain ⟨e, he⟩ := assign_of_not_readable chars o h
  unfold store
  rw [he]

theorem exists_text {f : StringField} (h : readable node (.text f) = true) :
    ∃ text, readText node f = .ok text := by
  cases hread : readText node f with
  | error e =>
    simp only [readable, hread] at h
    cases h
  | ok text => exact ⟨text, rfl⟩

theorem exists_number {n : NumberField} (h : readable node (.number n) = true) :
    ∃ value, readNumber node n = .ok value := by
  cases hread : readNumber node n with
  | error e =>
    simp only [readable, hread] at h
    cases h
  | ok value => exact ⟨value, rfl⟩

theorem store_text {f : StringField} {text : String} (h : readText node f = .ok text) :
    store node chars o (.text f) =
      { o with fields := setText f text o.fields, chars := Function.update o.chars f (chars f) } := by
  simp only [store, assign, h, Except.map]

theorem store_number {n : NumberField} {value : ℤ} (h : readNumber node n = .ok value) :
    store node chars o (.number n) = { o with fields := setNumber n value o.fields } := by
  simp only [store, assign, h, Except.map]

theorem store_cases (node : Json String) (chars : StringField → Chars) (o : Object) (m : Member) :
    store node chars o m = o ∨
    (∃ f text, m = .text f ∧ readText node f = .ok text ∧ store node chars o m =
      { o with fields := setText f text o.fields, chars := Function.update o.chars f (chars f) }) ∨
    ∃ n value, m = .number n ∧ readNumber node n = .ok value ∧
      store node chars o m = { o with fields := setNumber n value o.fields } := by
  cases hread : readable node m with
  | false => exact .inl (store_of_not_readable hread)
  | true =>
    cases m with
    | text f =>
      obtain ⟨text, htext⟩ := exists_text hread
      exact .inr (.inl ⟨f, text, rfl, htext, store_text htext⟩)
    | number n =>
      obtain ⟨value, hvalue⟩ := exists_number hread
      exact .inr (.inr ⟨n, value, rfl, hvalue, store_number hvalue⟩)

@[simp] theorem store_base (o : Object) (m : Member) : (store node chars o m).base = o.base := by
  rcases store_cases node chars o m with h | ⟨f, text, -, -, h⟩ | ⟨n, value, -, -, h⟩
  · rw [h]
  · rw [h]
  · rw [h]

theorem setNumber_setText (n : NumberField) (value : ℤ) (f : StringField) (text : String)
    (s : ServerSettings) : setNumber n value (setText f text s) = setText f text (setNumber n value s) := by
  cases n <;> cases f <;> rfl

theorem setNumber_setNumber (n k : NumberField) (v w : ℤ) (s : ServerSettings)
    (hvw : n = k → v = w) (h : setNumber n v s = s ∨ n = k) :
    setNumber n v (setNumber k w s) = setNumber k w s := by
  by_cases hnk : n = k
  · rw [hvw hnk, hnk]
    cases k <;> rfl
  · have hs := h.resolve_right hnk
    calc setNumber n v (setNumber k w s) = setNumber k w (setNumber n v s) := by
          cases n <;> cases k <;> first | rfl | exact absurd rfl hnk
      _ = setNumber k w s := by rw [hs]

/-- What an assignment leaves is left by the others too. -/
theorem stays_store (h : Stays node chars o m) : Stays node chars (store node chars o m') m := by
  rcases store_cases node chars o m' with hstore | ⟨g, text, -, -, hstore⟩ | ⟨k, w, -, hw, hstore⟩
  · rw [hstore]
    exact h
  · rw [hstore]
    cases m with
    | text f =>
      show chars f = Function.update o.chars g (chars g) f
      by_cases hfg : f = g
      · rw [hfg, Function.update_self]
      · rw [Function.update_of_ne hfg]
        exact h
    | number n =>
      intro v hv
      show setNumber n v (setText g text o.fields) = setText g text o.fields
      rw [setNumber_setText, h v hv]
  · rw [hstore]
    cases m with
    | text f => exact h
    | number n =>
      intro v hv
      apply setNumber_setNumber
      · intro heq
        rw [heq, hw] at hv
        exact (Except.ok.inj hv).symm
      · exact .inl (h v hv)

theorem stays_store_self (h : readable node m = true) :
    Stays node chars (store node chars o m) m := by
  cases m with
  | text f =>
    obtain ⟨text, htext⟩ := exists_text h
    rw [store_text htext]
    exact (Function.update_self f (chars f) o.chars).symm
  | number n =>
    intro v hv
    rw [store_number hv]
    exact setNumber_setNumber n n v v o.fields (fun _ => rfl) (.inr rfl)

theorem Interchangeable.refl (o : Object) : Interchangeable o o := ⟨rfl, rfl, rfl, rfl, rfl⟩

theorem Interchangeable.trans {a b c : Object} (h : Interchangeable a b) (h' : Interchangeable b c) :
    Interchangeable a c :=
  ⟨h.port.trans h'.port, h.commandQueueSize.trans h'.commandQueueSize,
    h.shmemDataSize.trans h'.shmemDataSize, h.minimalBoostSize.trans h'.minimalBoostSize,
    h.chars.trans h'.chars⟩

/-- An assignment that leaves the member shows nowhere in the C view. -/
theorem interchangeable_store (h : Stays node chars o m) :
    Interchangeable (store node chars o m) o := by
  rcases store_cases node chars o m with hstore | ⟨f, text, rfl, -, hstore⟩ | ⟨n, value, rfl, hvalue, hstore⟩
  · rw [hstore]
    exact .refl o
  · have hchars : Function.update o.chars f (chars f) = o.chars := by
      rw [show chars f = o.chars f from h]
      exact Function.update_eq_self f o.chars
    rw [hstore]
    cases f <;> exact ⟨rfl, rfl, rfl, rfl, hchars⟩
  · rw [hstore, h value hvalue]
    exact .refl o

theorem stays_of_interchangeable (hi : Interchangeable other o) (h : Stays node chars other m) :
    Stays node chars o m := by
  cases m with
  | text f =>
    show chars f = o.chars f
    rw [← hi.chars]
    exact h
  | number n =>
    intro v hv
    have hs := h v hv
    cases n with
    | port =>
      have hport : UInt32.ofInt v = o.fields.port := (congrArg ServerSettings.port hs).trans hi.port
      simp [setNumber, hport]
    | commandQueueSize =>
      have hsize : Int32.ofInt v = o.fields.commandQueueSize :=
        (congrArg ServerSettings.commandQueueSize hs).trans hi.commandQueueSize
      simp [setNumber, hsize]
    | shmemDataSize =>
      have hsize : UInt64.ofInt v = o.fields.shmemDataSize :=
        (congrArg ServerSettings.shmemDataSize hs).trans hi.shmemDataSize
      simp [setNumber, hsize]
    | minimalBoostSize =>
      have hsize : UInt64.ofInt v = o.fields.minimalBoostSize :=
        (congrArg ServerSettings.minimalBoostSize hs).trans hi.minimalBoostSize
      simp [setNumber, hsize]

theorem foldl_store_base (l : List Member) (o : Object) :
    (l.foldl (store node chars) o).base = o.base := by
  induction l generalizing o with
  | nil => rfl
  | cons m l ih => rw [List.foldl_cons, ih, store_base]

theorem interchangeable_foldl {l : List Member} (h : ∀ m ∈ l, Stays node chars o m) :
    Interchangeable (l.foldl (store node chars) o) o := by
  induction l generalizing o with
  | nil => exact .refl o
  | cons m l ih =>
    rw [List.foldl_cons]
    apply (ih _).trans (interchangeable_store (h m List.mem_cons_self))
    intro m' hm'
    exact stays_store (h m' (List.mem_cons_of_mem _ hm'))

theorem stays_foldl {l : List Member} (h : ∀ m ∈ l, readable node m = true) :
    ∀ m ∈ l, Stays node chars (l.foldl (store node chars) o) m := by
  have hkeep : ∀ (l : List Member) (o : Object) (m : Member), Stays node chars o m →
      Stays node chars (l.foldl (store node chars) o) m := by
    intro l
    induction l with
    | nil => exact fun _ _ h => h
    | cons m' l ih => exact fun o m h => ih _ m (stays_store h)
  induction l generalizing o with
  | nil =>
    intro m hm
    cases hm
  | cons m' l ih =>
    intro x hx
    cases List.mem_cons.mp hx with
    | inl heq =>
      rw [heq]
      exact hkeep l _ m' (stays_store_self (h m' List.mem_cons_self))
    | inr hmem => exact ih (fun y hy => h y (List.mem_cons_of_mem _ hy)) x hmem

theorem fromJson_eq (i : ℕ) (o : Object) : o.fromJson i node chars =
    if jsonMembers.all (readable node) then
      ((jsonMembers.foldl (store node chars) o).replicate i, true)
    else ((jsonMembers.takeWhile (readable node)).foldl (store node chars) o, false) := by
  unfold Object.fromJson
  rw [assignAll_eq]
  cases hall : jsonMembers.all (readable node) with
  | true =>
    have hsame : jsonMembers.takeWhile (readable node) = jsonMembers :=
      List.takeWhile_eq_self_iff.mpr (List.all_eq_true.mp hall)
    rw [hsame]
    rfl
  | false => rfl

/-- After `fromJson` an object that has agreed agrees exactly if nothing has thrown, or what was
assigned before has stayed. -/
theorem agrees_fromJson_iff {i : ℕ} (h : Agrees i o) : Agrees i (o.fromJson i node chars).1 ↔
    (jsonMembers.all (readable node) = false →
      ∀ m ∈ jsonMembers.takeWhile (readable node), Stays node chars o m) := by
  rw [fromJson_eq]
  cases hall : jsonMembers.all (readable node) with
  | true => exact iff_of_true (agrees_replicate i _) (by simp)
  | false =>
    show Agrees i ((jsonMembers.takeWhile (readable node)).foldl (store node chars) o) ↔ _
    rw [agrees_iff_interchangeable (foldl_store_base _ o) h]
    constructor
    · intro hi _ m hm
      exact stays_of_interchangeable hi
        (stays_foldl (fun x hx => List.mem_takeWhile_imp hx) m hm)
    · intro hstay
      exact interchangeable_foldl (hstay rfl)

end FromJson

section Steps

variable {s s' : Objects} {i j : ℕ} {a b : Object} {op : Op}

theorem put_self : s.put i a i = some a := by
  unfold Objects.put
  rw [Function.update_self]

theorem put_of_ne (h : j ≠ i) : s.put i a j = s j := by
  unfold Objects.put
  rw [Function.update_of_ne h]

theorem allAgree_put_iff (hs : AllAgree s) : AllAgree (s.put i a) ↔ Agrees i a := by
  constructor
  · intro h
    exact h i a put_self
  · intro h k o hk
    by_cases hki : k = i
    · subst hki
      rw [put_self] at hk
      exact Option.some.inj hk ▸ h
    · rw [put_of_ne hki] at hk
      exact hs k o hk

theorem make_eq (h : s.make i a = some s') : s i = none ∧ s' = s.put i a := by
  unfold Objects.make at h
  split at h
  · rename_i hnone
    exact ⟨Option.isNone_iff_eq_none.mp hnone, (Option.some.inj h).symm⟩
  · cases h

theorem allAgree_put_put_iff (hs : AllAgree s) (hij : j ≠ i) (ha : Agrees i a) :
    AllAgree (Objects.put (s.put j b) i a) ↔ Agrees j b := by
  constructor
  · intro h
    apply h j b
    rw [put_of_ne hij, put_self]
  · intro hb
    exact (allAgree_put_iff ((allAgree_put_iff hs).mpr hb)).mpr ha

theorem allAgree_step_iff (hs : AllAgree s) (h : step s op = some s') :
    AllAgree s' ↔ Faithful s op := by
  cases op with
  | construct i chars memory =>
    obtain ⟨-, rfl⟩ := make_eq h
    exact iff_of_true ((allAgree_put_iff hs).mpr (agrees_replicate i _)) trivial
  | constructFields i fields chars memory =>
    obtain ⟨-, rfl⟩ := make_eq h
    exact iff_of_true ((allAgree_put_iff hs).mpr (agrees_replicate i _)) trivial
  | constructJson i node chars memory =>
    simp only [step, fromJson_eq] at h
    split at h
    · rename_i hread
      split at hread
      · obtain ⟨-, rfl⟩ := make_eq h
        cases hread
        exact iff_of_true ((allAgree_put_iff hs).mpr (agrees_replicate i _)) trivial
      · cases hread
    · cases h
      exact iff_of_true hs trivial
  | copyConstruct i j chars memory =>
    obtain ⟨other, -, hmake⟩ := Option.bind_eq_some_iff.mp h
    obtain ⟨-, rfl⟩ := make_eq hmake
    exact iff_of_true ((allAgree_put_iff hs).mpr (agrees_replicate i _)) trivial
  | moveConstruct i j memory =>
    obtain ⟨other, hother, hmake⟩ := Option.bind_eq_some_iff.mp h
    obtain ⟨hnone, rfl⟩ := make_eq hmake
    have hij : j ≠ i := by
      intro heq
      rw [← heq, put_self] at hnone
      cases hnone
    rw [allAgree_put_put_iff hs hij (agrees_replicate i _)]
    show Agrees j (memory.raw.moveFrom i other).2 ↔ _
    rw [agrees_moveFrom_iff i j (hs j other hother)]
    constructor
    · intro hi o ho
      rw [hother] at ho
      exact Option.some.inj ho ▸ hi
    · intro hf
      exact hf other hother
  | copyAssign i j chars =>
    obtain ⟨o, ho, hrest⟩ := Option.bind_eq_some_iff.mp h
    obtain ⟨other, -, hput⟩ := Option.bind_eq_some_iff.mp hrest
    cases hput
    exact iff_of_true ((allAgree_put_iff hs).mpr (agrees_replicate i _)) trivial
  | moveAssign i j =>
    obtain ⟨o, ho, hrest⟩ := Option.bind_eq_some_iff.mp h
    obtain ⟨other, hother, hput⟩ := Option.bind_eq_some_iff.mp hrest
    split at hput
    · rename_i heq
      cases hput
      exact iff_of_true ((allAgree_put_iff hs).mpr (agrees_replicate i _))
        fun hne => absurd heq hne
    · rename_i hne
      cases hput
      rw [allAgree_put_put_iff hs (Ne.symm hne) (agrees_replicate i _)]
      show Agrees j (o.moveFrom i other).2 ↔ _
      rw [agrees_moveFrom_iff i j (hs j other hother)]
      constructor
      · intro hi _ o' other' ho' hother'
        rw [ho] at ho'
        rw [hother] at hother'
        exact Option.some.inj ho' ▸ Option.some.inj hother' ▸ hi
      · intro hf
        exact hf hne o other ho hother
  | fromJson i node chars =>
    obtain ⟨o, ho, hput⟩ := Option.bind_eq_some_iff.mp h
    cases hput
    rw [allAgree_put_iff hs, agrees_fromJson_iff (hs i o ho)]
    constructor
    · intro hstay o' ho'
      rw [ho] at ho'
      exact Option.some.inj ho' ▸ hstay
    · intro hf
      exact hf o ho
  | destroy i =>
    obtain ⟨o, -, hput⟩ := Option.bind_eq_some_iff.mp h
    cases hput
    refine iff_of_true ?_ trivial
    intro k o' hk
    by_cases hki : k = i
    · rw [hki, Function.update_self] at hk
      cases hk
    · rw [Function.update_of_ne hki] at hk
      exact hs k o' hk

end Steps

/-- Along every history of faithful steps, the C view of every object is that of its fields. -/
theorem view_follows {s : Objects} (h : histories.Reach Faithful s) : AllAgree s := by
  apply h.invariant
  · intro s hinit i o ho
    rw [show s = fun _ => none from hinit] at ho
    cases ho
  · intro s op s' _ hs hop hstep
    exact (allAgree_step_iff hs hstep).mpr hop

/-- Two objects from the same memory, with short strings, and what is done with them. -/
def plainMemory : Object :=
  ⟨⟨"", 0, 0, "", 0, "", 0⟩, fun _ => .inline, ⟨.heap 0, 0, 0, .heap 0, 0, .heap 0, 0⟩⟩

def plainRun : List Op :=
  [.constructFields 0 ⟨"a", 4444, 20, "s", 1, "b", 1⟩ (fun _ => .inline) plainMemory,
    .copyConstruct 1 0 (fun _ => .inline) plainMemory,
    .fromJson 1 (.object (ServerSettings.toJson ⟨"c", 4445, 20, "s", 1, "b", 1⟩))
      (fun _ => .inline),
    .moveAssign 1 1, .copyAssign 0 1 fun _ => .inline]

theorem plainRun_view_follows : AllAgree ((histories.exec (fun _ => none) plainRun).get rfl) := by
  apply view_follows
  apply histories.reach_exec Faithful plainRun rfl
  intro s op hop
  simp only [plainRun, List.mem_cons, List.not_mem_nil, or_false] at hop
  rcases hop with rfl | rfl | rfl | rfl | rfl
  · trivial
  · trivial
  · intro o _ hall
    exact absurd hall (by decide +kernel)
  · exact fun hne => absurd rfl hne
  · trivial

/-- The source of a move is left with the other port. -/
def movedRun : List Op :=
  [.constructFields 0 ⟨"a", 4444, 20, "s", 1, "b", 1⟩ (fun _ => .inline) plainMemory,
    .constructFields 1 ⟨"a", 4445, 20, "s", 1, "b", 1⟩ (fun _ => .inline) plainMemory,
    .moveAssign 0 1]

theorem moved_source_disagrees :
    ¬ ∀ s, histories.Reach Lts.anyStep s → AllAgree s := by
  intro h
  have hreach := histories.reach_exec Lts.anyStep movedRun rfl rfl fun _ _ _ => trivial
  have hport := (h _ hreach 1 _ rfl).port
  exact absurd hport (by decide)

end TmkDcl.Libcommon.View
