import Mathlib.Data.Fin.VecNotation
import TmkDcl.SaveMiddle.SaveConfig
import TmkDcl.Storage.StorageInterface

/-!
# Names of saved frames (savemiddle.cpp)

The `saveFormat` of a compiler without `<format>`. The first group of braces is for the name of the
frame and the second one for the time; a third one gives the whole format up.
-/

namespace TmkDcl.SaveMiddle

open TmkDcl.Storage

/-! ### Times -/

/-- `std::tm`, as `localtime` fills it. -/
structure Tm where
  tmSec : Fin 61
  tmMin : Fin 60
  tmHour : Fin 24
  tmMday : Fin 32
  tmMon : Fin 12
  tmYear : ℤ
  tmWday : Fin 7

/-- `std::put_time(tm, "%T")`. -/
def putTime (tm : Tm) : Bytes :=
  padded 2 tm.tmHour.val ++ literal ":" ++ padded 2 tm.tmMin.val ++ literal ":" ++
    padded 2 tm.tmSec.val

def wdayName : Fin 7 → Bytes :=
  ![literal "Sun", literal "Mon", literal "Tue", literal "Wed", literal "Thu", literal "Fri",
    literal "Sat"]

def monName : Fin 12 → Bytes :=
  ![literal "Jan", literal "Feb", literal "Mar", literal "Apr", literal "May", literal "Jun",
    literal "Jul", literal "Aug", literal "Sep", literal "Oct", literal "Nov", literal "Dec"]

/-- `%3d`. -/
def spaced (n : ℕ) : Bytes := List.replicate (3 - (digits n).length) 32 ++ digits n

def asctime (tm : Tm) : Bytes :=
  wdayName tm.tmWday ++ literal " " ++ monName tm.tmMon ++ spaced tm.tmMday.val ++ literal " " ++
    putTime tm ++ literal " " ++ decimal (1900 + tm.tmYear) ++ literal "\n"

/-! ### The scan -/

def bra : UInt8 := 123
def ket : UInt8 := 125

/-- `std::string::find` from a position on, which may be `npos`. -/
def find (s : Bytes) (c : UInt8) (pos : Option ℕ) : Option ℕ :=
  pos.bind fun p => ((s.drop p).findIdx? (· = c)).map (p + ·)

/-- The position after another one; `npos` wraps to 0. -/
def after : Option ℕ → ℕ
  | some p => p + 1
  | none => 0

def substr (s : Bytes) (pos count : ℕ) : Bytes := (s.drop pos).take count

/-- The `while` loop of `saveFormat` and what follows it. -/
def scan (format name : Bytes) (tm : Tm) (braPos ketPos : Option ℕ) (lastPosition brackets : ℕ)
    (ss : Bytes) : Bytes :=
  match braPos with
  | none => ss ++ format.drop lastPosition
  | some b =>
    let ss := ss ++ substr format lastPosition (b - lastPosition)
    if brackets < 2 then
      -- the branches of the first two groups differ in what they write only
      let ss := ss ++ if brackets = 0 then name else putTime tm
      let braNext := find format bra ketPos
      scan format name tm braNext (find format ket braNext) (after ketPos) (brackets + 1) ss
    else name ++ literal "_" ++ asctime tm
  termination_by 2 - brackets

/-- `saveFormat`, where `localtime` is that of the time zone. -/
def saveFormat (format : Bytes) (localtime : ℤ → Tm) (frameID : ObjectID) (saveTime : ℤ) : Bytes :=
  let braPos := find format bra (some 0)
  scan format frameID.name (localtime saveTime) braPos (find format ket braPos) 0 0 []

/-- The name of the file that `SaveBlock` saves a frame in. -/
def fileName (s : Settings) (localtime : ℤ → Tm) (frame : Frame) : Bytes :=
  saveFormat s.saveFormat localtime frame.id (seconds frame.timeStamp) ++ literal "." ++
    s.saveExtension

/-! ### Formats -/

/-- The next brace behind each opening one closes it. -/
def WellFormed (format : Bytes) : Prop :=
  ∀ before behind, format = before ++ bra :: behind →
    ∃ inside rest, behind = inside ++ ket :: rest ∧ bra ∉ inside ∧ ket ∉ inside

/-- A group of braces and the text up to the next one. -/
structure Group where
  inside : Bytes
  text : Bytes
  inside_bra : bra ∉ inside
  inside_ket : ket ∉ inside
  text_bra : bra ∉ text

/-- A format by its parts. -/
structure Template where
  head : Bytes
  groups : List Group
  head_bra : bra ∉ head

def Group.render (g : Group) : Bytes := bra :: g.inside ++ ket :: g.text

def Template.render (t : Template) : Bytes := t.head ++ t.groups.flatMap Group.render

/-- The texts in order, the name for the first group and the time for the second one; more groups
have the default form. -/
def Template.fill (t : Template) (name : Bytes) (tm : Tm) : Bytes :=
  match t.groups with
  | [] => t.head
  | [first] => t.head ++ name ++ first.text
  | [first, second] => t.head ++ name ++ first.text ++ putTime tm ++ second.text
  | _ => name ++ literal "_" ++ asctime tm

/-! ### Texts of times -/

section Times

theorem not_mem_digits (n : ℕ) {c : UInt8} (hc : c < 48 ∨ 57 < c) : c ∉ digits n := by
  intro h
  obtain ⟨d, hd, rfl⟩ := List.mem_map.mp h
  have hdigit := Nat.isDigit_of_mem_toDigits (by decide) (by decide) hd
  rw [Char.isDigit, Bool.and_eq_true, decide_eq_true_iff, decide_eq_true_iff] at hdigit
  have hlow : 48 ≤ d.toNat := hdigit.1
  have hhigh : d.toNat ≤ 57 := hdigit.2
  rw [UInt8.lt_iff_toNat_lt, UInt8.lt_iff_toNat_lt, UInt8.toNat_ofNat_of_lt' (Nat.lt_of_le_of_lt hhigh (by decide))] at hc
  have hl : (48 : UInt8).toNat = 48 := rfl
  have hh : (57 : UInt8).toNat = 57 := rfl
  omega

theorem not_mem_padded {width : ℕ} (n : ℕ) {c : UInt8} (hc : c < 48 ∨ 57 < c) :
    c ∉ padded width n := by
  have hsign : sign n = [] := if_neg (Int.not_lt.mpr (Int.natCast_nonneg n))
  have hzero : c ≠ 48 := by
    intro heq
    rw [heq] at hc
    exact absurd hc (by decide)
  rw [padded, hsign, List.nil_append, Int.natAbs_natCast, List.mem_append, not_or]
  exact ⟨fun h => hzero (List.eq_of_mem_replicate h), not_mem_digits n hc⟩

theorem not_mem_decimal (n : ℤ) {c : UInt8} (hc : c < 48 ∨ 57 < c) (hminus : c ≠ 45) :
    c ∉ decimal n := by
  rw [decimal, List.mem_append, not_or]
  refine ⟨?_, not_mem_digits _ hc⟩
  rw [sign]
  split
  · exact fun h => hminus (List.mem_singleton.mp h)
  · exact List.not_mem_nil

theorem putTime_length (tm : Tm) : (putTime tm).length = 8 := by
  have hhour : ∀ n : Fin 24, (padded 2 n.val).length = 2 := by decide
  have hmin : ∀ n : Fin 60, (padded 2 n.val).length = 2 := by decide
  have hsec : ∀ n : Fin 61, (padded 2 n.val).length = 2 := by decide
  rw [putTime]
  simp only [List.length_append, hhour, hmin, hsec]
  rfl

theorem not_mem_asctime (tm : Tm) : 95 ∉ asctime tm := by
  have hwday : ∀ n : Fin 7, 95 ∉ wdayName n := by decide
  have hmon : ∀ n : Fin 12, 95 ∉ monName n := by decide
  have hblanks : ∀ k : ℕ, 95 ∉ List.replicate k (32 : UInt8) := fun k h =>
    absurd (List.eq_of_mem_replicate h) (by decide)
  have hdigit : (95 : UInt8) < 48 ∨ 57 < (95 : UInt8) := by decide
  have hcolon : 95 ∉ literal ":" := by decide
  have hblank : 95 ∉ literal " " := by decide
  have hend : 95 ∉ literal "\n" := by decide
  simp only [asctime, putTime, spaced, List.mem_append, not_or, hwday, hmon, hblanks, hcolon, hblank,
    hend, not_mem_digits _ hdigit, not_mem_padded _ hdigit, not_mem_decimal _ hdigit (by decide),
    not_false_eq_true, and_self]

theorem append_cons_cancel {a a' x y : Bytes} {c : UInt8} (ha : c ∉ a) (ha' : c ∉ a')
    (h : x ++ c :: a = y ++ c :: a') : x = y := by
  have hlast := congrArg (strrchr · c) h
  simp only [strrchr_append x ha, strrchr_append y ha', Option.some.injEq] at hlast
  exact List.append_inj_left h hlast

end Times

/-! ### The parts of a format -/

section Formats

variable {format : Bytes}

theorem WellFormed.behind {before behind : Bytes} (h : WellFormed (before ++ behind)) :
    WellFormed behind := by
  intro start rest heq
  refine h (before ++ start) rest ?_
  rw [heq, List.append_assoc]

theorem Template.render_cons (head : Bytes) (hhead : bra ∉ head) (g : Group) (gs : List Group) :
    Template.render ⟨head, g :: gs, hhead⟩ =
      head ++ bra :: (g.inside ++ ket :: Template.render ⟨g.text, gs, g.text_bra⟩) := by
  simp only [Template.render, Group.render, List.flatMap_cons, List.cons_append, List.append_assoc]

theorem WellFormed.exists_template (h : WellFormed format) : ∃ t : Template, t.render = format := by
  induction hlength : format.length using Nat.strong_induction_on generalizing format with
  | h n ih =>
    by_cases hbra : bra ∈ format
    · obtain ⟨head, behind, hformat, hhead⟩ := List.eq_append_cons_of_mem hbra
      obtain ⟨inside, rest, hbehind, hinsideBra, hinsideKet⟩ := h head behind hformat
      have hsplit : format = (head ++ bra :: inside ++ [ket]) ++ rest := by
        rw [hformat, hbehind]
        simp only [List.append_assoc, List.cons_append, List.nil_append]
      have hlt : rest.length < n := by
        rw [← hlength, hsplit, List.length_append, List.length_append]
        exact Nat.lt_add_of_pos_left (Nat.succ_pos _)
      obtain ⟨t, ht⟩ := ih rest.length hlt (WellFormed.behind (hsplit ▸ h)) rfl
      refine ⟨⟨head, ⟨inside, t.head, hinsideBra, hinsideKet, t.head_bra⟩ :: t.groups, hhead⟩, ?_⟩
      rw [Template.render_cons, ht, hformat, hbehind]
    · exact ⟨⟨format, [], hbra⟩, List.append_nil format⟩

theorem append_eq_append_cons {x y before behind : Bytes} {c : UInt8} (hc : c ∉ x)
    (h : x ++ y = before ++ c :: behind) : ∃ mid, before = x ++ mid ∧ y = mid ++ c :: behind := by
  cases List.append_eq_append_iff.mp h with
  | inl hlong => exact hlong
  | inr hshort =>
    obtain ⟨mid, hx, hmid⟩ := hshort
    cases mid with
    | nil => exact ⟨[], by rw [hx, List.append_nil, List.append_nil], hmid.symm⟩
    | cons d mid =>
      rw [List.cons_append, List.cons.injEq] at hmid
      rw [hx, ← hmid.1] at hc
      exact absurd (List.mem_append_right _ List.mem_cons_self) hc

theorem WellFormed.group {head inside rest : Bytes} (h : WellFormed rest) (hhead : bra ∉ head)
    (hbra : bra ∉ inside) (hket : ket ∉ inside) :
    WellFormed (head ++ bra :: (inside ++ ket :: rest)) := by
  intro before behind heq
  obtain ⟨mid, -, hmid⟩ := append_eq_append_cons hhead heq
  cases mid with
  | nil => exact ⟨inside, rest, (List.cons.inj hmid).2.symm, hbra, hket⟩
  | cons d mid =>
    have hclosed : bra ∉ inside ++ [ket] := by
      rw [List.mem_append, not_or]
      exact ⟨hbra, by decide⟩
    have hrest : (inside ++ [ket]) ++ rest = mid ++ bra :: behind := by
      rw [List.append_assoc]
      exact (List.cons.inj hmid).2
    obtain ⟨start, -, hstart⟩ := append_eq_append_cons hclosed hrest
    exact h start behind hstart

theorem Template.wellFormed (t : Template) : WellFormed t.render := by
  obtain ⟨head, groups, hhead⟩ := t
  induction groups generalizing head with
  | nil =>
    intro before behind heq
    rw [show Template.render ⟨head, [], hhead⟩ = head from List.append_nil head] at heq
    rw [heq] at hhead
    exact absurd (List.mem_append_right _ List.mem_cons_self) hhead
  | cons g gs ih =>
    rw [Template.render_cons]
    exact WellFormed.group (ih g.text g.text_bra) hhead g.inside_bra g.inside_ket

end Formats

/-! ### What the scan finds -/

section Scan

variable {format name done a b ss : Bytes} {tm : Tm} {c d : UInt8} {brackets : ℕ}

theorem find_none (h : c ∉ a) : find (done ++ a) c (some done.length) = none := by
  rw [find, Option.bind_some, List.drop_left, findIdx?_eq_none_iff.mpr h, Option.map_none]

theorem find_some (h : c ∉ a) :
    find (done ++ (a ++ c :: b)) c (some done.length) = some (done.length + a.length) := by
  rw [find, Option.bind_some, List.drop_left, List.findIdx?_append,
    findIdx?_eq_none_iff.mpr h, List.findIdx?_cons, if_pos (decide_eq_true rfl)]
  simp only [Option.map_some, Option.none_or, Nat.zero_add]

theorem find_succ (h : d ≠ c) :
    find (done ++ d :: a) c (some done.length) = find (done ++ d :: a) c (some (done.length + 1)) := by
  have hdrop : (done ++ d :: a).drop (done.length + 1) = a := by
    rw [List.drop_append, List.drop_of_length_le (Nat.le_succ _), Nat.add_sub_cancel_left]
    rfl
  rw [find, find, Option.bind_some, Option.bind_some, List.drop_left, hdrop, List.findIdx?_cons,
    if_neg (by rw [decide_eq_true_iff]; exact h), Option.map_map]
  congr 1
  funext i
  exact (Nat.add_right_comm done.length 1 i).symm

/-- The scan from a position on. -/
def scanAt (format name : Bytes) (tm : Tm) (pos brackets : ℕ) (ss : Bytes) : Bytes :=
  scan format name tm (find format bra (some pos)) (find format ket (find format bra (some pos)))
    pos brackets ss

theorem scanAt_nil {head : Bytes} (hhead : bra ∉ head) :
    scanAt (done ++ head) name tm done.length brackets ss = ss ++ head := by
  rw [scanAt, find_none hhead, scan, List.drop_left]

/-- A group is passed over, or gives the format up. -/
theorem scanAt_cons {head inside rest : Bytes} (hhead : bra ∉ head) (hket : ket ∉ inside)
    (hformat : format = done ++ (head ++ bra :: (inside ++ ket :: rest))) :
    scanAt format name tm done.length brackets ss =
      if brackets < 2 then
        scanAt format name tm (done ++ head ++ bra :: inside ++ [ket]).length (brackets + 1)
          (ss ++ head ++ if brackets = 0 then name else putTime tm)
      else name ++ literal "_" ++ asctime tm := by
  have hbraPos : find format bra (some done.length) = some (done.length + head.length) := by
    rw [hformat, find_some hhead]
  have hketPos : find format ket (some (done.length + head.length)) =
      some (done ++ head ++ bra :: inside).length := by
    have hsplit : format = (done ++ head) ++ ((bra :: inside) ++ ket :: rest) := by
      rw [hformat]
      simp only [List.append_assoc, List.cons_append]
    have hnot : ket ∉ bra :: inside := List.not_mem_cons_of_ne_of_not_mem (by decide) hket
    have hlength : (done ++ head ++ bra :: inside).length =
        (done ++ head).length + (bra :: inside).length := List.length_append
    rw [hsplit, ← List.length_append, find_some hnot, hlength]
  have hnext : find format bra (some (done ++ head ++ bra :: inside).length) =
      find format bra (some ((done ++ head ++ bra :: inside).length + 1)) := by
    have hsplit : format = (done ++ head ++ bra :: inside) ++ ket :: rest := by
      rw [hformat]
      simp only [List.append_assoc, List.cons_append]
    rw [hsplit]
    exact find_succ (by decide)
  have hsubstr : substr format done.length (done.length + head.length - done.length) = head := by
    rw [hformat, substr, List.drop_left, Nat.add_sub_cancel_left, List.take_left]
  have hlength : (done ++ head ++ bra :: inside ++ [ket]).length =
      (done ++ head ++ bra :: inside).length + 1 := List.length_append
  rw [scanAt, hbraPos, hketPos, scan]
  simp only [hsubstr, after, hnext]
  rw [hlength, scanAt]

/-- What comes of the groups after some of them. -/
def fillFrom (name : Bytes) (tm : Tm) : ℕ → Bytes → List Group → Bytes
  | _, ss, [] => ss
  | brackets, ss, g :: gs =>
    if brackets < 2 then
      fillFrom name tm (brackets + 1) (ss ++ (if brackets = 0 then name else putTime tm) ++ g.text) gs
    else name ++ literal "_" ++ asctime tm

theorem scanAt_render (done : Bytes) (gs : List Group) {head : Bytes} (hhead : bra ∉ head) :
    scanAt (done ++ Template.render ⟨head, gs, hhead⟩) name tm done.length brackets ss =
      fillFrom name tm brackets (ss ++ head) gs := by
  induction gs generalizing done head brackets ss with
  | nil =>
    have hrender : Template.render ⟨head, [], hhead⟩ = head := List.append_nil head
    rw [hrender, scanAt_nil hhead, fillFrom]
  | cons g gs ih =>
    have hformat := congrArg (done ++ ·) (Template.render_cons head hhead g gs)
    have hrest : done ++ Template.render ⟨head, g :: gs, hhead⟩ =
        (done ++ head ++ bra :: g.inside ++ [ket]) ++ Template.render ⟨g.text, gs, g.text_bra⟩ := by
      rw [Template.render_cons]
      simp only [List.append_assoc, List.cons_append, List.nil_append]
    rw [scanAt_cons hhead g.inside_ket hformat, fillFrom]
    split
    · -- the scan goes on behind the closing brace
      rw [hrest, ih]
    · rfl

theorem saveFormat_render (t : Template) (localtime : ℤ → Tm) (frameID : ObjectID)
    (saveTime : ℤ) :
    saveFormat t.render localtime frameID saveTime =
      t.fill frameID.name (localtime saveTime) := by
  obtain ⟨head, groups, hhead⟩ := t
  refine (scanAt_render [] groups hhead).trans ?_
  cases groups with
  | nil => rfl
  | cons first groups =>
    cases groups with
    | nil => rfl
    | cons second groups =>
      cases groups with
      | nil => rfl
      | cons third groups => rfl

end Scan

/-! ### Different names -/

theorem Template.fill_injective (t : Template) (hgroups : t.groups ≠ []) {name name' : Bytes}
    {tm tm' : Tm} (h : t.fill name tm = t.fill name' tm') : name = name' := by
  obtain ⟨head, groups, hhead⟩ := t
  cases groups with
  | nil => exact absurd rfl hgroups
  | cons first groups =>
    cases groups with
    | nil => exact List.append_cancel_left (List.append_cancel_right h)
    | cons second groups =>
      cases groups with
      | nil =>
        have htimes := List.append_cancel_right h
        have hlength : (putTime tm).length = (putTime tm').length := by
          rw [putTime_length, putTime_length]
        have hnames := List.append_inj_left' htimes hlength
        exact List.append_cancel_left (List.append_cancel_right hnames)
      | cons third groups =>
        refine append_cons_cancel (not_mem_asctime tm) (not_mem_asctime tm') ?_
        have hdefault : name ++ literal "_" ++ asctime tm = name' ++ literal "_" ++ asctime tm' := h
        rwa [List.append_assoc, List.append_assoc] at hdefault

/-- Every format has one reading, and one with a group keeps the names of the frames apart. -/
theorem saveFormat_spec (format : Bytes) (localtime : ℤ → Tm) (hformat : WellFormed format) :
    ∃ t : Template, t.render = format ∧
      (∀ frameID saveTime, saveFormat format localtime frameID saveTime =
        t.fill frameID.name (localtime saveTime)) ∧
      (t.groups ≠ [] → ∀ (s : Settings) (frame frame' : Frame), s.saveFormat = format →
        fileName s localtime frame = fileName s localtime frame' →
          frame.id.name = frame'.id.name) := by
  obtain ⟨t, ht⟩ := hformat.exists_template
  have hfill : ∀ frameID saveTime, saveFormat format localtime frameID saveTime =
      t.fill frameID.name (localtime saveTime) := by
    intro frameID saveTime
    rw [← ht, saveFormat_render]
  refine ⟨t, ht, hfill, ?_⟩
  intro hgroups s frame frame' hs hname
  rw [fileName, fileName, hs, hfill, hfill] at hname
  exact t.fill_injective hgroups (List.append_cancel_right (List.append_cancel_right hname))

/-- A clock that stands still. -/
def midnight : Tm := ⟨0, 0, 0, 1, 0, 70, 4⟩

theorem default_wellFormed : WellFormed defaultSaveFormat :=
  Template.wellFormed ⟨[], [⟨[], [95], by decide, by decide, by decide⟩,
    ⟨[], [], by decide, by decide, by decide⟩], by decide⟩

/-- The format of the default settings. -/
theorem saveFormat_spec_default :
    ∃ t : Template, t.render = defaultSaveFormat ∧
      (∀ frameID saveTime, saveFormat defaultSaveFormat (fun _ => midnight) frameID saveTime =
        t.fill frameID.name midnight) ∧
      (t.groups ≠ [] → ∀ (s : Settings) (frame frame' : Frame), s.saveFormat = defaultSaveFormat →
        fileName s (fun _ => midnight) frame = fileName s (fun _ => midnight) frame' →
          frame.id.name = frame'.id.name) :=
  saveFormat_spec defaultSaveFormat (fun _ => midnight) default_wellFormed

end TmkDcl.SaveMiddle
