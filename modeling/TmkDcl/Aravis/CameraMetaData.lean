import Mathlib.Data.List.DropRight
import TmkDcl.Bytes
import TmkDcl.QuotedWords

/-!
# Command strings of camera features (tools/aravis/src/CameraMetaData.cpp)

The features that can be written are put in one line, in the order of access. A blank follows those
with a value only. `dump` and the comparison with `false` are those of the JSON library.
-/

namespace TmkDcl.Aravis

open TmkDcl.QuotedWords

/-! ### Texts -/

def isSpace (c : UInt8) : Bool := c = 32 || (9 ≤ c && c ≤ 13)

def trim (s : Bytes) : Bytes := (s.dropWhile isSpace).rdropWhile isSpace

/-- `boost::replace_all` of one character. -/
def replaceAll (s : Bytes) (c d : UInt8) : Bytes := s.map fun x => if x = c then d else x

/-- `boost::is_any_of(",;")`. -/
def isSeparator (c : UInt8) : Bool := c = 44 || c = 59

/-- `boost::split` with `token_compress_on`, behind the beginning of a token or a separator. -/
def split : Bytes → Bool → Bytes → List Bytes
  | token, _, [] => [token]
  | token, compress, c :: cs =>
    if isSeparator c then
      if compress then split token true cs else token :: split [] true cs
    else split (token ++ [c]) false cs

/-! ### The command string -/

structure Feature (α : Type) where
  readOnly : Option α
  value : Option α

structure MetaData (α : Type) where
  accessSequence : Option Bytes
  features : Option (Bytes → Option (Feature α))

section Commands

variable {α : Type} (isFalse : α → Bool) (dump : α → Bytes)

/-- No `ReadOnly`, or `false`. -/
def Feature.isWritable (feature : Feature α) : Bool :=
  match feature.readOnly with
  | none => true
  | some v => isFalse v

/-- One turn of the loop. -/
def writeFeature (featuresList : Bytes → Option (Feature α)) (commands featureName : Bytes) :
    Bytes :=
  match featuresList featureName with
  | none => commands
  | some feature =>
    if feature.isWritable isFalse then
      let commands := commands ++ featureName
      match feature.value with
      | some v => commands ++ literal "=" ++ dump v ++ literal " "
      | none => commands
    else commands

def cameraFeaturesToCommandString (document : MetaData α) : Bytes :=
  match document.accessSequence, document.features with
  | some access, some featuresList =>
    if access = [] then []
    else
      let commands := (split [] false access).foldl (writeFeature isFalse dump featuresList) []
      trim (replaceAll commands 34 39)
  | _, _ => []

end Commands

/-! ### What is asked of it -/

/-- A feature with the text of its value, quotes as they are written. -/
structure Item where
  name : Bytes
  value : Option Bytes

def Item.text (x : Item) : Bytes :=
  match x.value with
  | some t => x.name ++ literal "=" ++ t
  | none => x.name

section Items

variable {α : Type} (isFalse : α → Bool) (dump : α → Bytes)

def item (featuresList : Bytes → Option (Feature α)) (featureName : Bytes) : Option Item :=
  (featuresList featureName).bind fun feature =>
    if feature.isWritable isFalse then
      some ⟨featureName, feature.value.map fun v => replaceAll (dump v) 34 39⟩
    else none

/-- The features of an access sequence that exist and are not read-only. -/
def items (featuresList : Bytes → Option (Feature α)) (access : Bytes) : List Item :=
  if access = [] then [] else (split [] false access).filterMap (item isFalse dump featuresList)

end Items

/-- The items with blanks between them, and they are its words. -/
structure Apart (line : Bytes) (xs : List Item) : Prop where
  line_eq : line = [32].intercalate (xs.map Item.text)
  words_eq : words isSpace 39 false [] line = xs.map Item.text

/-- All but the last item have a value, and no item is empty. In the values all blanks are quoted,
and all but the last one close their quotes. -/
structure Separable (xs : List Item) : Prop where
  valued : ∀ x ∈ xs.dropLast, x.value.isSome
  nonempty : ∀ x ∈ xs, x.text ≠ []
  unbroken : ∀ x ∈ xs, Unbroken isSpace 39 false (x.value.getD [])
  closed : ∀ x ∈ xs.dropLast, quotedAfter 39 false (x.value.getD []) = false

/-! ### The text of an item -/

/-- What the texts of names and values have in common. -/
structure Item.Clean (x : Item) : Prop where
  name : ∀ c ∈ x.name, isSpace c = false ∧ c ≠ 39
  value : ∀ t, x.value = some t → ∃ u c, t = u ++ [c] ∧ isSpace c = false

/-- What the loop writes of an item. -/
def Item.chunk (x : Item) : Bytes := x.text ++ if x.value.isSome then [32] else []

section Texts

variable {x : Item}

theorem text_none (h : x.value = none) : x.text = x.name := by
  rw [Item.text, h]

theorem text_some {t : Bytes} (h : x.value = some t) : x.text = (x.name ++ [61]) ++ t := by
  rw [Item.text, h]
  rfl

theorem text_split (hx : x.Clean) :
    ∃ lead, x.text = lead ++ x.value.getD [] ∧ ∀ c ∈ lead, isSpace c = false ∧ c ≠ 39 := by
  cases hvalue : x.value with
  | none =>
    refine ⟨x.name, ?_, hx.name⟩
    rw [text_none hvalue, Option.getD_none, List.append_nil]
  | some t =>
    refine ⟨x.name ++ [61], text_some hvalue, fun c hc => ?_⟩
    cases List.mem_append.mp hc with
    | inl hname => exact hx.name c hname
    | inr hequals => rw [List.mem_singleton.mp hequals]; decide

theorem unbroken_text_iff (hx : x.Clean) :
    Unbroken isSpace 39 false x.text ↔ Unbroken isSpace 39 false (x.value.getD []) := by
  obtain ⟨lead, htext, hlead⟩ := text_split hx
  rw [htext, unbroken_append hlead]

theorem quotedAfter_text (hx : x.Clean) :
    quotedAfter 39 false x.text = quotedAfter 39 false (x.value.getD []) := by
  obtain ⟨lead, htext, hlead⟩ := text_split hx
  rw [htext, quotedAfter_append fun h => (hlead 39 h).2 rfl]

theorem text_start (hx : x.Clean) (hne : x.text ≠ []) :
    ∃ d ds, x.text = d :: ds ∧ isSpace d = false := by
  cases hname : x.name with
  | cons d ds =>
    have hd := (hx.name d (hname ▸ List.mem_cons_self)).1
    cases hvalue : x.value with
    | none => exact ⟨d, ds, by rw [text_none hvalue, hname], hd⟩
    | some t => exact ⟨d, ds ++ [61] ++ t, by rw [text_some hvalue, hname]; rfl, hd⟩
  | nil =>
    cases hvalue : x.value with
    | none => exact absurd ((text_none hvalue).trans hname) hne
    | some t => exact ⟨61, t, by rw [text_some hvalue, hname]; rfl, rfl⟩

theorem text_end (hx : x.Clean) (hne : x.text ≠ []) :
    ∃ u c, x.text = u ++ [c] ∧ isSpace c = false := by
  cases hvalue : x.value with
  | none =>
    rw [text_none hvalue] at hne ⊢
    exact ⟨x.name.dropLast, x.name.getLast hne, (List.dropLast_append_getLast hne).symm,
      (hx.name _ (List.getLast_mem hne)).1⟩
  | some t =>
    obtain ⟨u, c, rfl, hc⟩ := hx.value t hvalue
    exact ⟨x.name ++ [61] ++ u, c, by rw [text_some hvalue, ← List.append_assoc], hc⟩

end Texts

/-! ### The line -/

section Lines

variable {xs init : List Item} {x : Item} {u w : Bytes} {c d : UInt8}

theorem trim_concat (hw : w = d :: u) (hd : isSpace d = false) (hc : isSpace c = false)
    {v : Bytes} (hend : w = v ++ [c]) : trim w = w := by
  have hdrop : w.dropWhile isSpace = w := by
    rw [hw, List.dropWhile_cons_of_neg (Bool.eq_false_iff.mp hd)]
  rw [trim, hdrop, hend, List.rdropWhile_concat_neg _ _ _ (Bool.eq_false_iff.mp hc)]

theorem trim_length_le (s : Bytes) : (trim s).length ≤ s.length := by
  have hfront := (List.dropWhile_sublist isSpace (l := s)).length_le
  have hback := (List.rdropWhile_prefix isSpace (s.dropWhile isSpace)).length_le
  exact hback.trans hfront

theorem trim_blank (hw : w = d :: u) (hd : isSpace d = false) : trim (w ++ [32]) = trim w := by
  have hdrop : ∀ rest : Bytes, (d :: rest).dropWhile isSpace = d :: rest := fun rest =>
    List.dropWhile_cons_of_neg (Bool.eq_false_iff.mp hd)
  rw [trim, trim, hw, List.cons_append, hdrop, hdrop, ← List.cons_append,
    List.rdropWhile_concat_pos _ _ _ (by decide)]

theorem chunks_start (h : ∀ x ∈ xs, x.Clean) (hne : xs.flatMap Item.chunk ≠ []) :
    ∃ d ds, xs.flatMap Item.chunk = d :: ds ∧ isSpace d = false := by
  induction xs with
  | nil => exact absurd rfl hne
  | cons x xs ih =>
    by_cases htext : x.text = []
    · have hvalue : x.value = none := by
        cases hvalue : x.value with
        | none => rfl
        | some t =>
          rw [text_some hvalue, List.append_assoc] at htext
          exact absurd (List.append_eq_nil_iff.mp htext).2 (List.cons_ne_nil 61 t)
      have hchunk : x.chunk = [] := by
        rw [Item.chunk, htext, hvalue]
        rfl
      rw [List.flatMap_cons, hchunk, List.nil_append] at hne ⊢
      exact ih (fun y hy => h y (List.mem_cons_of_mem x hy)) hne
    · obtain ⟨d, ds, heq, hd⟩ := text_start (h x List.mem_cons_self) htext
      rw [List.flatMap_cons, Item.chunk, heq]
      exact ⟨d, _, rfl, hd⟩

theorem chunks_length (xs : List Item) : (xs.flatMap Item.chunk).length =
    ((xs.map Item.text).map List.length).sum + xs.countP fun x => x.value.isSome := by
  induction xs with
  | nil => rfl
  | cons x xs ih =>
    rw [List.flatMap_cons, List.length_append, ih, Item.chunk, List.length_append, List.map_cons,
      List.map_cons, List.sum_cons, List.countP_cons]
    split
    · rw [List.length_singleton]
      omega
    · rw [List.length_nil]
      omega

theorem exists_map_cons (init : List Item) (x : Item) :
    ∃ v texts, (init ++ [x]).map Item.text = v :: texts ∧ texts.length = init.length := by
  cases init with
  | nil => exact ⟨x.text, [], rfl, rfl⟩
  | cons y init =>
    exact ⟨y.text, (init ++ [x]).map Item.text, rfl, by
      rw [List.length_map, List.length_append]; rfl⟩

/-- Values throughout put a blank between each two items. -/
theorem chunks_valued (h : ∀ y ∈ init, y.value.isSome) (x : Item) :
    (init ++ [x]).flatMap Item.chunk =
      [32].intercalate ((init ++ [x]).map Item.text) ++ if x.value.isSome then [32] else [] := by
  induction init with
  | nil =>
    rw [List.nil_append, List.map_singleton, intercalate_singleton, List.flatMap_singleton]
    rfl
  | cons y init ih =>
    obtain ⟨v, texts, htexts, -⟩ := exists_map_cons init x
    have hrest := ih fun z hz => h z (List.mem_cons_of_mem y hz)
    rw [List.cons_append, List.flatMap_cons, hrest, List.map_cons, htexts, intercalate_cons_cons,
      Item.chunk, if_pos (h y List.mem_cons_self)]
    simp only [List.append_assoc, List.nil_append, List.cons_append]

theorem trim_chunks_length_le (h : ∀ y ∈ init ++ [x], y.Clean) (hne : x.text ≠ []) :
    (trim ((init ++ [x]).flatMap Item.chunk)).length ≤
      (((init ++ [x]).map Item.text).map List.length).sum +
        init.countP fun y => y.value.isSome := by
  have hline : (init ++ [x]).flatMap Item.chunk =
      (init.flatMap Item.chunk ++ x.text) ++ if x.value.isSome then [32] else [] := by
    rw [List.flatMap_append, List.flatMap_singleton, Item.chunk, List.append_assoc]
  have hlength : (init.flatMap Item.chunk ++ x.text).length =
      (((init ++ [x]).map Item.text).map List.length).sum +
        init.countP fun y => y.value.isSome := by
    rw [List.length_append, chunks_length, List.map_append, List.map_append, List.sum_append]
    simp only [List.map_cons, List.map_nil, List.sum_singleton]
    omega
  have hwne : init.flatMap Item.chunk ++ x.text ≠ [] :=
    List.append_ne_nil_of_right_ne_nil _ hne
  have hlne : (init ++ [x]).flatMap Item.chunk ≠ [] := by
    rw [hline]
    exact List.append_ne_nil_of_left_ne_nil hwne _
  obtain ⟨d, ds, hd, hspace⟩ := chunks_start h hlne
  rw [← hlength]
  rw [hline] at hd ⊢
  split at hd
  · rename_i hvalue
    obtain ⟨e, es, he⟩ := List.exists_cons_of_ne_nil hwne
    rw [he, List.cons_append] at hd
    rw [if_pos hvalue, trim_blank he ((List.cons.inj hd).1 ▸ hspace)]
    exact trim_length_le _
  · rename_i hvalue
    rw [if_neg hvalue, List.append_nil]
    exact trim_length_le _

theorem getLast_texts (init : List Item) (x : Item) :
    ∃ lead, [32].intercalate ((init ++ [x]).map Item.text) = lead ++ x.text := by
  induction init with
  | nil => exact ⟨[], intercalate_singleton 32 x.text⟩
  | cons y init ih =>
    obtain ⟨lead, hlead⟩ := ih
    obtain ⟨v, texts, htexts, -⟩ := exists_map_cons init x
    refine ⟨y.text ++ 32 :: lead, ?_⟩
    rw [List.cons_append, List.map_cons, htexts, intercalate_cons_cons, ← htexts, hlead,
      List.append_assoc, List.cons_append]

/-- The line is what is asked for if the last item is not empty and all others have a value. -/
theorem trim_chunks_iff (h : ∀ y ∈ init ++ [x], y.Clean) (hne : x.text ≠ []) :
    trim ((init ++ [x]).flatMap Item.chunk) = [32].intercalate ((init ++ [x]).map Item.text) ↔
      ∀ y ∈ init, y.value.isSome := by
  obtain ⟨v, texts, htexts, hcount⟩ := exists_map_cons init x
  constructor
  · intro heq
    have hle := trim_chunks_length_le h hne
    rw [heq, htexts, length_intercalate, hcount] at hle
    -- the line is as long as the items and their blanks only if no blank is missing
    have hall : (init.countP fun y => y.value.isSome) = init.length :=
      Nat.le_antisymm List.countP_le_length (Nat.le_of_add_le_add_left hle)
    exact List.countP_eq_length.mp hall
  · intro hvalued
    obtain ⟨lead, hlead⟩ := getLast_texts init x
    obtain ⟨u, c, hu, hc⟩ := text_end (h x List.mem_concat_self) hne
    have hend : [32].intercalate ((init ++ [x]).map Item.text) = (lead ++ u) ++ [c] := by
      rw [hlead, hu, List.append_assoc]
    have hline := chunks_valued hvalued x
    have hjoined : [32].intercalate ((init ++ [x]).map Item.text) ≠ [] := by
      rw [hend]
      exact List.append_ne_nil_of_right_ne_nil _ (List.cons_ne_nil c [])
    obtain ⟨e, es, he⟩ := List.exists_cons_of_ne_nil hjoined
    have hlne : (init ++ [x]).flatMap Item.chunk ≠ [] := by
      rw [hline]
      exact List.append_ne_nil_of_left_ne_nil hjoined _
    obtain ⟨d, ds, hd, hspace⟩ := chunks_start h hlne
    have hstart : isSpace e = false := by
      rw [hline, he, List.cons_append] at hd
      exact (List.cons.inj hd).1 ▸ hspace
    rw [hline]
    split
    · rw [trim_blank he hstart, trim_concat he hstart hc hend]
    · rw [List.append_nil, trim_concat he hstart hc hend]

theorem recoverable_texts_iff (h : ∀ y ∈ xs, y.Clean) :
    Recoverable isSpace 39 (xs.map Item.text) ↔
      (∀ y ∈ xs, Unbroken isSpace 39 false (y.value.getD [])) ∧
        ∀ y ∈ xs.dropLast, quotedAfter 39 false (y.value.getD []) = false := by
  constructor
  · intro hr
    constructor
    · intro y hy
      exact (unbroken_text_iff (h y hy)).mp (hr.unbroken _ (List.mem_map_of_mem hy))
    · intro y hy
      rw [← quotedAfter_text (h y (List.dropLast_subset xs hy))]
      refine hr.closed _ ?_
      rw [← List.map_dropLast]
      exact List.mem_map_of_mem hy
  · intro hr
    constructor
    · intro w hw
      obtain ⟨y, hy, rfl⟩ := List.mem_map.mp hw
      exact (unbroken_text_iff (h y hy)).mpr (hr.1 y hy)
    · intro w hw
      rw [← List.map_dropLast] at hw
      obtain ⟨y, hy, rfl⟩ := List.mem_map.mp hw
      rw [quotedAfter_text (h y (List.dropLast_subset xs hy))]
      exact hr.2 y hy

theorem apart_iff (h : ∀ y ∈ xs, y.Clean) :
    Apart (trim (xs.flatMap Item.chunk)) xs ↔ Separable xs := by
  obtain rfl | ⟨init, x, rfl⟩ := List.eq_nil_or_concat xs
  · exact iff_of_true ⟨rfl, rfl⟩ ⟨fun _ => nofun, fun _ => nofun, fun _ => nofun, fun _ => nofun⟩
  · rw [List.concat_eq_append] at h ⊢
    have hstart : (∀ y ∈ init ++ [x], y.text ≠ []) → ∀ w ∈ (init ++ [x]).map Item.text,
        ∃ d ds, w = d :: ds ∧ isSpace d = false := by
      intro hne w hw
      obtain ⟨y, hy, rfl⟩ := List.mem_map.mp hw
      exact text_start (h y hy) (hne y hy)
    constructor
    · intro hapart
      have hnonempty : ∀ y ∈ init ++ [x], y.text ≠ [] := by
        intro y hy hempty
        have hmem := List.mem_map_of_mem (f := Item.text) hy
        rw [hempty, ← hapart.words_eq] at hmem
        exact nil_notMem_words hmem
      have hwords := hapart.words_eq
      rw [hapart.line_eq, words_intercalate_iff (by decide) (hstart hnonempty),
        recoverable_texts_iff h] at hwords
      refine ⟨?_, hnonempty, hwords.1, hwords.2⟩
      rw [List.dropLast_concat]
      exact (trim_chunks_iff h (hnonempty x List.mem_concat_self)).mp hapart.line_eq
    · intro hsep
      have hvalued := hsep.valued
      rw [List.dropLast_concat] at hvalued
      have hline := (trim_chunks_iff h (hsep.nonempty x List.mem_concat_self)).mpr hvalued
      refine ⟨hline, ?_⟩
      rw [hline, words_intercalate_iff (by decide) (hstart hsep.nonempty),
        recoverable_texts_iff h]
      exact ⟨hsep.unbroken, hsep.closed⟩

end Lines

/-! ### The command string -/

section Strings

variable {α : Type} {isFalse : α → Bool} {dump : α → Bytes}
  {featuresList : Bytes → Option (Feature α)}

/-- Names without blanks and quotes. -/
def PlainNames (featuresList : Bytes → Option (Feature α)) : Prop :=
  ∀ name feature, featuresList name = some feature →
    ∀ c ∈ name, isSpace c = false ∧ c ≠ 34 ∧ c ≠ 39

/-- The text of a value does not end with a blank. -/
def SolidTexts (dump : α → Bytes) : Prop := ∀ v, ∃ u c, dump v = u ++ [c] ∧ isSpace c = false

theorem replaceAll_append (a b : Bytes) (c d : UInt8) :
    replaceAll (a ++ b) c d = replaceAll a c d ++ replaceAll b c d := List.map_append

theorem replaceAll_eq_self {w : Bytes} {c d : UInt8} (h : ∀ x ∈ w, x ≠ c) :
    replaceAll w c d = w := by
  refine (List.map_congr_left fun x hx => ?_).trans (List.map_id w)
  exact if_neg (h x hx)

theorem item_clean {featureName : Bytes} {x : Item} (hnames : PlainNames featuresList)
    (hdump : SolidTexts dump) (hx : item isFalse dump featuresList featureName = some x) :
    x.Clean := by
  obtain ⟨feature, hfeature, hwrite⟩ := Option.bind_eq_some_iff.mp hx
  split at hwrite
  · rw [← Option.some.inj hwrite]
    have hplain := hnames featureName feature hfeature
    refine ⟨fun c hc => ⟨(hplain c hc).1, (hplain c hc).2.2⟩, fun t ht => ?_⟩
    obtain ⟨v, -, rfl⟩ := Option.map_eq_some_iff.mp ht
    obtain ⟨u, c, hu, hc⟩ := hdump v
    refine ⟨replaceAll u 34 39, if c = 34 then 39 else c, ?_, ?_⟩
    · rw [hu, replaceAll_append]
      rfl
    · split
      · rfl
      · exact hc
  · exact nomatch hwrite

theorem replaceAll_writeFeature (hnames : PlainNames featuresList) (commands featureName : Bytes) :
    replaceAll (writeFeature isFalse dump featuresList commands featureName) 34 39 =
      replaceAll commands 34 39 ++
        ((item isFalse dump featuresList featureName).map Item.chunk).getD [] := by
  rw [writeFeature, item]
  cases hfeature : featuresList featureName with
  | none => exact (List.append_nil _).symm
  | some feature =>
    have hname := replaceAll_eq_self (d := 39) fun c hc =>
      (hnames featureName feature hfeature c hc).2.1
    simp only [Option.bind_some]
    split
    · cases hvalue : feature.value with
      | none =>
        rw [replaceAll_append, hname]
        exact congrArg _ (List.append_nil _).symm
      | some v =>
        simp only [replaceAll_append, hname, Item.chunk, Item.text, Option.map_some,
          Option.getD_some, Option.isSome_some, if_true, List.append_assoc]
        rfl
    · exact (List.append_nil _).symm

theorem replaceAll_foldl (hnames : PlainNames featuresList) (names : List Bytes)
    (commands : Bytes) :
    replaceAll (names.foldl (writeFeature isFalse dump featuresList) commands) 34 39 =
      replaceAll commands 34 39 ++
        (names.filterMap (item isFalse dump featuresList)).flatMap Item.chunk := by
  induction names generalizing commands with
  | nil => exact (List.append_nil _).symm
  | cons name names ih =>
    rw [List.foldl_cons, ih, replaceAll_writeFeature hnames, List.append_assoc]
    cases hitem : item isFalse dump featuresList name with
    | none => rw [List.filterMap_cons_none hitem]; rfl
    | some x => rw [List.filterMap_cons_some hitem, List.flatMap_cons]; rfl

theorem cameraFeaturesToCommandString_eq (hnames : PlainNames featuresList) (access : Bytes) :
    cameraFeaturesToCommandString isFalse dump ⟨some access, some featuresList⟩ =
      trim ((items isFalse dump featuresList access).flatMap Item.chunk) := by
  by_cases hempty : access = []
  · subst hempty
    rfl
  · have hline : cameraFeaturesToCommandString isFalse dump ⟨some access, some featuresList⟩ =
        trim (replaceAll ((split [] false access).foldl
          (writeFeature isFalse dump featuresList) []) 34 39) := if_neg hempty
    rw [hline, items, if_neg hempty, replaceAll_foldl hnames]
    rfl

end Strings

/-- The command string is the list of the features, and can be taken apart, if the last feature only
is without a value and the values keep their blanks in quotes. -/
theorem commandString_apart_iff {α : Type} (isFalse : α → Bool) (dump : α → Bytes)
    (featuresList : Bytes → Option (Feature α)) (access : Bytes) (hnames : PlainNames featuresList)
    (hdump : SolidTexts dump) :
    Apart (cameraFeaturesToCommandString isFalse dump ⟨some access, some featuresList⟩)
        (items isFalse dump featuresList access) ↔
      Separable (items isFalse dump featuresList access) := by
  rw [cameraFeaturesToCommandString_eq hnames]
  refine apart_iff fun x hx => ?_
  rw [items] at hx
  split at hx
  · exact (List.not_mem_nil hx).elim
  · obtain ⟨name, -, hitem⟩ := List.mem_filterMap.mp hx
    exact item_clean hnames hdump hitem

/-! ### A command and a setting -/

def boolText : Bool → Bytes
  | true => literal "true"
  | false => literal "false"

/-- One feature without a value and one with a value. -/
def startAndGain (name : Bytes) : Option (Feature Bool) :=
  if name = literal "Start" then some ⟨none, none⟩
  else if name = literal "Gain" then some ⟨some false, some true⟩
  else none

theorem plain_of_all {name : Bytes}
    (h : (name.all fun c => !isSpace c && (c != 34 && c != 39)) = true) :
    ∀ c ∈ name, isSpace c = false ∧ c ≠ 34 ∧ c ≠ 39 := by
  intro c hc
  have hplain := List.all_eq_true.mp h c hc
  rwa [Bool.and_eq_true, Bool.and_eq_true, Bool.not_eq_true', bne_iff_ne, bne_iff_ne] at hplain

theorem startAndGain_plain : PlainNames startAndGain := by
  intro name feature h
  rw [startAndGain] at h
  split at h
  · rename_i hname
    exact plain_of_all (hname ▸ rfl)
  · split at h
    · rename_i hname
      exact plain_of_all (hname ▸ rfl)
    · exact nomatch h

theorem boolText_solid : SolidTexts boolText
  | true => ⟨literal "tru", 101, rfl, rfl⟩
  | false => ⟨literal "fals", 101, rfl, rfl⟩

/-- The feature without a value comes last. -/
theorem commandString_apart_start :
    Apart (cameraFeaturesToCommandString (!·) boolText ⟨some (literal "Gain,Start"),
        some startAndGain⟩) (items (!·) boolText startAndGain (literal "Gain,Start")) ↔
      Separable (items (!·) boolText startAndGain (literal "Gain,Start")) :=
  commandString_apart_iff (!·) boolText startAndGain (literal "Gain,Start") startAndGain_plain
    boolText_solid

/-- It comes first, and runs into the next one. -/
theorem commandString_run_together :
    cameraFeaturesToCommandString (!·) boolText ⟨some (literal "Start,Gain"), some startAndGain⟩ =
        literal "StartGain=true" ∧
      (items (!·) boolText startAndGain (literal "Start,Gain")).map Item.text =
          [literal "Start", literal "Gain=true"] ∧
        ¬Apart (cameraFeaturesToCommandString (!·) boolText
            ⟨some (literal "Start,Gain"), some startAndGain⟩)
          (items (!·) boolText startAndGain (literal "Start,Gain")) := by
  have hline : cameraFeaturesToCommandString (!·) boolText
      ⟨some (literal "Start,Gain"), some startAndGain⟩ = literal "StartGain=true" := by decide
  have hitems : (items (!·) boolText startAndGain (literal "Start,Gain")).map Item.text =
      [literal "Start", literal "Gain=true"] := by decide
  refine ⟨hline, hitems, fun h => ?_⟩
  have hjoined := h.line_eq
  rw [hline, hitems] at hjoined
  exact absurd hjoined (by decide)

end TmkDcl.Aravis
