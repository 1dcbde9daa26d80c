import Mathlib.Algebra.Group.Nat.Defs
import Mathlib.Data.List.Infix
import Mathlib.Data.List.TakeWhile
import Mathlib.Data.Nat.Notation

/-!
# Bytes

Numbers of a fixed width in little-endian and in network order, stores of some bytes into a
buffer at an offset, and the functions of `string.h` that the program calls on its buffers.
-/

namespace TmkDcl

abbrev Bytes := List UInt8

/-- The `n` low bytes of a number, the lowest first. -/
def leBytes : ℕ → ℕ → Bytes
  | 0, _ => []
  | n + 1, v => UInt8.ofNat v :: leBytes n (v / 256)

/-- The number that the bytes stand for, the lowest first. -/
def leNat : Bytes → ℕ
  | [] => 0
  | b :: bs => b.toNat + 256 * leNat bs

/-- The `n` low bytes of a number in network order. -/
def beBytes (n v : ℕ) : Bytes := (leBytes n v).reverse

/-- The number that the bytes stand for in network order. -/
def beNat (bs : Bytes) : ℕ := leNat bs.reverse

@[simp] theorem leBytes_length (n v : ℕ) : (leBytes n v).length = n := by
  induction n generalizing v with
  | zero => rfl
  | succ n ih => simp [leBytes, ih]

theorem leNat_leBytes (n v : ℕ) : leNat (leBytes n v) = v % 256 ^ n := by
  induction n generalizing v with
  | zero => simp [leBytes, leNat, Nat.mod_one]
  | succ n ih =>
    simp only [leBytes, leNat, ih]
    have hb : (UInt8.ofNat v).toNat = v % 256 := by simp
    rw [hb, Nat.pow_succ, Nat.mul_comm (256 ^ n) 256, Nat.mod_mul]

@[simp] theorem beBytes_length (n v : ℕ) : (beBytes n v).length = n := by
  rw [beBytes, List.length_reverse, leBytes_length]

theorem beNat_beBytes (n v : ℕ) : beNat (beBytes n v) = v % 256 ^ n := by
  rw [beNat, beBytes, List.reverse_reverse, leNat_leBytes]

/-- The buffer after a store of `xs` at the offset `pos`. -/
def storeAt {α : Type*} (buf : List α) (pos : ℕ) (xs : List α) : List α :=
  buf.take pos ++ xs ++ buf.drop (pos + xs.length)

section Store

variable {α : Type*} {buf xs ys : List α} {pos : ℕ}

theorem storeAt_length (h : pos + xs.length ≤ buf.length) :
    (storeAt buf pos xs).length = buf.length := by
  simp only [storeAt, List.length_append, List.length_take, List.length_drop]
  omega

theorem take_storeAt (h : buf.take pos = ys) (hpos : pos ≤ buf.length) :
    (storeAt buf pos xs).take (pos + xs.length) = ys ++ xs := by
  subst h
  rw [storeAt]
  refine List.take_left' ?_
  simp only [List.length_append, List.length_take]
  omega

theorem storeAt_set {x : α} (h : pos < buf.length) :
    storeAt (buf.set pos x) (pos + 1) xs = storeAt buf pos (x :: xs) := by
  have hset : pos < (buf.set pos x).length := by rwa [List.length_set]
  have htake : (buf.set pos x).take (pos + 1) = buf.take pos ++ [x] := by
    rw [← List.take_append_getElem hset, List.getElem_set_self, List.take_set_of_le (Nat.le_refl _)]
  have hdrop : (buf.set pos x).drop (pos + 1 + xs.length) = buf.drop (pos + (x :: xs).length) := by
    rw [List.drop_set_of_lt (by omega), List.length_cons]
    congr 1
    omega
  rw [storeAt, storeAt, htake, hdrop, List.append_assoc (buf.take pos)]
  rfl

end Store

/-! ### string.h -/

/-- `memchr`: the first of `n` entries that is `c`. -/
def memchr {α : Type*} [DecidableEq α] (buf : List α) (c : α) (n : ℕ) : Option ℕ :=
  (buf.take n).findIdx? (· = c)

/-- `memmove` of what follows the offset `k` to the start of its buffer. -/
def memmoveDown {α : Type*} (buf : List α) (k : ℕ) : List α :=
  buf.drop k ++ buf.drop (buf.length - k)

/-- The string that starts at a buffer: the bytes before the first NUL. -/
def cString (buf : Bytes) : Bytes := buf.takeWhile (· ≠ 0)

/-- The bytes of a string literal. -/
def literal (s : String) : Bytes := s.toList.map fun c => UInt8.ofNat c.toNat

/-- `tolower` in the C locale. -/
def toLower (b : UInt8) : UInt8 := if 65 ≤ b ∧ b ≤ 90 then b + 32 else b

/-- `strcasecmp(a, b) == 0`. -/
def strcaseEq (a b : Bytes) : Bool := a.map toLower == b.map toLower

/-- `strcasestr(haystack, needle) != 0`. -/
def strcaseStr (haystack needle : Bytes) : Bool :=
  decide (needle.map toLower <:+: haystack.map toLower)

/-- `strrchr`: the offset of the last `c` of a string. -/
def strrchr (s : Bytes) (c : UInt8) : Option ℕ :=
  (s.reverse.findIdx? (· = c)).map fun i => s.length - 1 - i

section String

variable {α : Type*} {buf : List α} {c : α} {n i k : ℕ}

theorem memmoveDown_length (h : k ≤ buf.length) : (memmoveDown buf k).length = buf.length := by
  simp only [memmoveDown, List.length_append, List.length_drop]
  omega

theorem take_memmoveDown (h : k + n ≤ buf.length) :
    (memmoveDown buf k).take n = (buf.drop k).take n := by
  rw [memmoveDown, List.take_append_of_le_length]
  rw [List.length_drop]
  omega

variable [DecidableEq α]

theorem findIdx?_eq_none_iff : buf.findIdx? (· = c) = none ↔ c ∉ buf := by
  rw [List.findIdx?_eq_none_iff]
  constructor
  · intro h hm
    simpa using h c hm
  · intro h b hb
    exact decide_eq_false fun he => h (he ▸ hb)

theorem memchr_eq_none : memchr buf c n = none ↔ c ∉ buf.take n := findIdx?_eq_none_iff

theorem memchr_eq_some (h : memchr buf c n = some i) :
    i < n ∧ i < buf.length ∧ c ∉ buf.take i ∧
    buf.take n = buf.take i ++ c :: (buf.drop (i + 1)).take (n - (i + 1)) := by
  obtain ⟨hi, hc, hlt⟩ := List.findIdx?_eq_some_iff_getElem.mp h
  have hin : i < n ∧ i < buf.length := by
    rw [List.length_take] at hi
    omega
  have hget : buf[i] = c := by simpa using hc
  refine ⟨hin.1, hin.2, ?_, ?_⟩
  · intro hm
    obtain ⟨j, hj, he⟩ := List.getElem_of_mem hm
    rw [List.length_take] at hj
    have hne := hlt j (by omega)
    simp only [List.getElem_take, decide_eq_true_eq] at he hne
    exact hne he
  · have hsplit : buf.take n = (buf.take n).take i ++ (buf.take n).drop i :=
      (List.take_append_drop i _).symm
    rw [hsplit, List.take_take, Nat.min_eq_left (Nat.le_of_lt hin.1), List.drop_take]
    congr 1
    obtain ⟨m, hm⟩ : ∃ m, n - i = m + 1 := ⟨n - (i + 1), by omega⟩
    rw [hm, List.drop_eq_getElem_cons hin.2, List.take_succ_cons, hget]
    congr 2
    omega

end String

theorem strrchr_append {c : UInt8} (a : Bytes) {b : Bytes} (h : c ∉ b) :
    strrchr (a ++ c :: b) c = some a.length := by
  have hnone : b.reverse.findIdx? (· = c) = none :=
    findIdx?_eq_none_iff.mpr fun hmem => h (List.mem_reverse.mp hmem)
  rw [strrchr, List.reverse_append, List.reverse_cons, List.append_assoc, List.findIdx?_append,
    hnone, List.singleton_append, List.findIdx?_cons, if_pos (decide_eq_true rfl)]
  simp only [Option.map_some, Option.none_or, List.length_reverse, List.length_append,
    List.length_cons, Option.some.injEq]
  omega

theorem isPrefix_append_cons {α : Type*} {w a b : List α} {c : α} (hc : c ∉ w)
    (h : w <+: a ++ c :: b) : w <+: a := by
  induction w generalizing a with
  | nil => exact List.nil_prefix
  | cons x w ih =>
    cases a with
    | nil => exact absurd (List.cons_prefix_cons.mp h).1 fun heq => hc (heq ▸ List.mem_cons_self)
    | cons y a =>
      obtain ⟨rfl, hrest⟩ := List.cons_prefix_cons.mp h
      exact List.cons_prefix_cons.mpr
        ⟨rfl, ih (fun hmem => hc (List.mem_cons_of_mem _ hmem)) hrest⟩

theorem infix_append_cons {α : Type*} {w a b : List α} {c : α} (hc : c ∉ w) :
    w <:+: a ++ c :: b ↔ w <:+: a ∨ w <:+: b := by
  constructor
  · intro h
    induction a with
    | nil =>
      cases List.infix_cons_iff.mp h with
      | inl hstart => exact .inl (isPrefix_append_cons hc hstart).isInfix
      | inr hrest => exact .inr hrest
    | cons x a ih =>
      cases List.infix_cons_iff.mp h with
      | inl hstart => exact .inl (isPrefix_append_cons hc hstart).isInfix
      | inr hrest =>
        cases ih hrest with
        | inl hl => exact .inl (List.infix_cons hl)
        | inr hr => exact .inr hr
  · intro h
    cases h with
    | inl ha => exact List.infix_append_of_infix_left ha
    | inr hb => exact List.infix_append_of_infix_right (List.infix_cons hb)

theorem cString_append {s : Bytes} (t : Bytes) : cString (s ++ 0 :: t) = cString s := by
  induction s with
  | nil => rfl
  | cons b s ih =>
    by_cases hb : b = 0
    · simp [cString, hb]
    · simp only [List.cons_append, cString, List.takeWhile_cons, hb, ne_eq, not_false_eq_true,
        decide_true, if_true]
      exact congrArg _ ih

theorem cString_eq_self {s : Bytes} : cString s = s ↔ 0 ∉ s := by
  rw [cString, List.takeWhile_eq_self_iff]
  constructor
  · intro h hm
    simpa using h 0 hm
  · intro h b hb
    exact decide_eq_true fun he => h (he ▸ hb)

theorem not_mem_cString (s : Bytes) : 0 ∉ cString s := by
  intro hm
  simpa using List.mem_takeWhile_imp hm

/-- A buffer has a NUL among its first bytes if the string that starts there, whatever follows the
buffer, ends among them. -/
theorem nul_mem_take_iff {s : Bytes} (t : Bytes) {n : ℕ} :
    0 ∈ s.take n ↔ (cString (s ++ t)).length < s.length ∧ (cString (s ++ t)).length < n := by
  induction s generalizing n with
  | nil => simp
  | cons b s ih =>
    cases n with
    | zero => simp
    | succ n =>
      rw [List.take_succ_cons, List.mem_cons, ih]
      by_cases hb : b = 0
      · simp [cString, hb]
      · have hcons : cString (b :: s ++ t) = b :: cString (s ++ t) := by simp [cString, hb]
        rw [hcons, List.length_cons, List.length_cons, Nat.succ_lt_succ_iff, Nat.succ_lt_succ_iff]
        exact or_iff_right (Ne.symm hb)

theorem take_cString {s : Bytes} (h : 0 ∈ s) : s.take ((cString s).length + 1) = cString s ++ [0] := by
  obtain ⟨l, t, rfl, hl⟩ := List.eq_append_cons_of_mem h
  rw [cString_append, cString_eq_self.mpr hl, List.take_append, List.take_of_length_le (Nat.le_succ _),
    Nat.add_sub_cancel_left]
  rfl

/-! ### Texts -/

/-- A text in UTF-8. -/
def utf8 (s : Bytes) : Bool := (ByteArray.mk s.toArray).validateUTF8

end TmkDcl
