import Mathlib.Algebra.Order.Ring.Int
import Mathlib.Data.List.Basic

/-!
# Generator of test images (cvgenerator.cpp)

`next_image` goes round `DATA_CNT` chunks of data by a signed counter, which begins at -1.
-/

namespace TmkDcl.Capture.CvGenerator

/-! ### `cvcamera.h` -/

def dataCnt : Int32 := 10
def imageHeaderSize : UInt64 := 8 + 4
def imageRawSize : UInt64 := 960 * 1920 * 3 * 8 / 8
def dataSize : UInt64 := imageHeaderSize + imageRawSize

/-! ### The generator -/

/-- `data` is an address. -/
structure DataGenerator where
  data : UInt64
  curr : Int32

/-- `generator_init`, with the address from `malloc`. -/
def generatorInit (data : UInt64) : DataGenerator := ⟨data, -1⟩

/-- `next_image`. An `int` goes to `size_t` with its sign. -/
def nextImage (generator : DataGenerator) : UInt64 × DataGenerator :=
  let curr := generator.curr
  let generator := { generator with curr := generator.curr + 1 }
  let curr := if curr % dataCnt = 0 then 0 else curr
  (generator.data + UInt64.ofInt (curr % dataCnt).toInt * dataSize, generator)

/-- What some calls return. -/
def images : ℕ → DataGenerator → List UInt64
  | 0, _ => []
  | n + 1, generator => (nextImage generator).1 :: images n (nextImage generator).2

/-! ### What is asked of it -/

def chunk (data : UInt64) (k : ℕ) : UInt64 := data + UInt64.ofNat k * dataSize

/-- The chunks in cyclic order. -/
def InTurn (first : ℕ) (generator : DataGenerator) (n : ℕ) : Prop :=
  images n generator = (List.range n).map fun i => chunk generator.data ((first + i) % 10)

section Calls

variable {curr : Int32} {data : UInt64} {n k : ℕ} {x : ℤ}

theorem tmod_ten (x : ℤ) : x.tmod 10 = if 0 ≤ x then x % 10 else -(-x % 10) := by
  split
  · rename_i h
    exact Int.tmod_eq_emod_of_nonneg h
  · rw [← Int.tmod_eq_emod_of_nonneg (show 0 ≤ -x by omega), Int.neg_tmod, Int.neg_neg]

theorem tmod_ten_bounds (x : ℤ) : -10 < x.tmod 10 ∧ x.tmod 10 < 10 := by
  rw [tmod_ten]
  split
  · omega
  · omega

/-- The remainder is what the address is made of, with and without the special case. -/
theorem nextImage_eq (generator : DataGenerator) : (nextImage generator).1 =
    generator.data + UInt64.ofInt (generator.curr.toInt.tmod 10) * dataSize := by
  have hmod : ∀ x : Int32, (x % dataCnt).toInt = x.toInt.tmod 10 := fun x => Int32.toInt_mod x 10
  rw [nextImage]
  dsimp only
  split
  · rename_i h
    rw [← hmod, h]
    rfl
  · rw [hmod]

theorem address_eq_iff (hlow : -10 < x) (hhigh : x < 10) (hk : k < 10) :
    data + UInt64.ofInt x * dataSize = chunk data k ↔ x = k := by
  have hall : ∀ (r : Fin 19) (k : Fin 10), UInt64.ofInt ((r.val : ℤ) - 9) * dataSize =
      UInt64.ofNat k.val * dataSize ↔ (r.val : ℤ) - 9 = k.val := by decide +kernel
  have hx : (((x + 9).toNat : ℕ) : ℤ) - 9 = x := by omega
  have hiff := hall ⟨(x + 9).toNat, by omega⟩ ⟨k, hk⟩
  rw [hx] at hiff
  rw [chunk, UInt64.add_right_inj]
  exact hiff

theorem add_ofNat_zero (curr : Int32) : curr + Int32.ofNat 0 = curr := Int32.add_zero curr

theorem images_eq (n : ℕ) (generator : DataGenerator) : images n generator =
    (List.range n).map fun i => generator.data +
      UInt64.ofInt ((generator.curr + Int32.ofNat i).toInt.tmod 10) * dataSize := by
  induction n generalizing generator with
  | zero => rfl
  | succ n ih =>
    rw [images, ih, nextImage_eq, List.range_succ_eq_map, List.map_cons, List.map_map]
    refine congrArg₂ List.cons ?_ ?_
    · rw [add_ofNat_zero]
    · refine List.map_congr_left fun i _ => ?_
      have hcurr : (nextImage generator).2.curr + Int32.ofNat i =
          generator.curr + Int32.ofNat (i + 1) := by
        rw [Int32.ofNat_add, Int32.add_comm (Int32.ofNat i), ← Int32.add_assoc]
        rfl
      rw [hcurr]
      rfl

theorem inTurn_iff {first : ℕ} : InTurn first ⟨data, curr⟩ n ↔
    ∀ i < n, (curr + Int32.ofNat i).toInt.tmod 10 = ((first + i) % 10 : ℕ) := by
  rw [InTurn, images_eq, List.map_inj_left]
  refine forall_congr' fun i => ?_
  rw [List.mem_range]
  refine imp_congr_right fun _ => ?_
  obtain ⟨hlow, hhigh⟩ := tmod_ten_bounds (curr + Int32.ofNat i).toInt
  exact address_eq_iff hlow hhigh (Nat.mod_lt _ (by decide))

theorem toInt_add_ofNat (curr : Int32) (i : ℕ) :
    (curr + Int32.ofNat i).toInt = (curr.toInt + i).bmod (2 ^ 32) := by
  have hsize : ((2 ^ 32 : ℕ)) = 4294967296 := by decide
  rw [Int32.toInt_add, Int32.toInt_ofNat', Int32.size, Int.add_bmod_bmod, hsize]

theorem inTurn_of_nonneg (hlow : 0 ≤ curr.toInt) (hhigh : curr.toInt + n ≤ 2 ^ 31) :
    InTurn (curr.toInt % 10).toNat ⟨data, curr⟩ n := by
  rw [inTurn_iff]
  intro i hi
  have hcurr : (curr.toInt + i).bmod (2 ^ 32) = curr.toInt + i :=
    Int.bmod_eq_of_le (by omega) (by omega)
  rw [toInt_add_ofNat, hcurr, tmod_ten, if_pos (by omega)]
  omega

/-- A call that finds one is in turn at a multiple of ten only, and not the next one. -/
theorem nonneg_of_inTurn {first : ℕ} (h : InTurn first ⟨data, curr⟩ n) (htwo : 2 ≤ n) :
    0 ≤ curr.toInt := by
  rw [inTurn_iff] at h
  have hstart := h 0 (by omega)
  have hnext := h 1 (by omega)
  have hbounds := curr.le_toInt
  by_contra hneg
  have hcurr : (curr.toInt + (1 : ℕ)).bmod (2 ^ 32) = curr.toInt + 1 :=
    Int.bmod_eq_of_le (by omega) (by omega)
  rw [add_ofNat_zero, tmod_ten, if_neg hneg] at hstart
  rw [toInt_add_ofNat, hcurr, tmod_ten] at hnext
  split at hnext
  · omega
  · omega

theorem le_of_inTurn {first : ℕ} (h : InTurn first ⟨data, curr⟩ n) (hlow : 0 ≤ curr.toInt) :
    curr.toInt + n ≤ 2 ^ 31 := by
  rw [inTurn_iff] at h
  have hlt := curr.toInt_lt
  by_contra hover
  have hwrapped := h (2 ^ 31 - curr.toInt).toNat (by omega)
  -- the call that finds the wrapped counter
  have hsum : curr.toInt + ((2 ^ 31 - curr.toInt).toNat : ℕ) = 2 ^ 31 := by omega
  have hmod : Int.bmod (2 ^ 31) (2 ^ 32) = -2 ^ 31 := by decide
  have htmod : Int.tmod (-2 ^ 31) 10 = -8 := by decide
  rw [toInt_add_ofNat, hsum, hmod, htmod] at hwrapped
  omega

end Calls

/-- The first call after `generator_init` is out of turn already. Later ones go round the chunks as
long as none of them finds a negative counter; a single call may also find a multiple of ten. -/
theorem images_inTurn_iff (data : UInt64) (curr : Int32) (n : ℕ) :
    (InTurn 0 (generatorInit data) n ↔ n = 0) ∧
      ((∃ first < 10, InTurn first ⟨data, curr⟩ n) ↔
        n = 0 ∨ (n = 1 ∧ curr.toInt % 10 = 0) ∨ (0 ≤ curr.toInt ∧ curr.toInt + n ≤ 2 ^ 31)) := by
  constructor
  · constructor
    · intro h
      by_contra hpos
      have hfirst := inTurn_iff.mp h 0 (by omega)
      exact absurd hfirst (by decide)
    · intro h
      subst h
      rfl
  · constructor
    · intro h
      obtain ⟨first, -, h⟩ := h
      by_cases htwo : 2 ≤ n
      · have hlow := nonneg_of_inTurn h htwo
        exact .inr (.inr ⟨hlow, le_of_inTurn h hlow⟩)
      · have hone : n = 0 ∨ n = 1 := by omega
        cases hone with
        | inl hzero => exact .inl hzero
        | inr hone =>
          subst hone
          have hfirst := inTurn_iff.mp h 0 (by omega)
          have hlt := curr.toInt_lt
          rw [add_ofNat_zero, tmod_ten] at hfirst
          split at hfirst
          · rename_i hlow
            exact .inr (.inr ⟨hlow, by omega⟩)
          · exact .inr (.inl ⟨rfl, by omega⟩)
    · intro h
      obtain rfl | ⟨rfl, hten⟩ | ⟨hlow, hhigh⟩ := h
      · exact ⟨0, by decide, rfl⟩
      · refine ⟨0, by decide, inTurn_iff.mpr fun i hi => ?_⟩
        rw [show i = 0 by omega, add_ofNat_zero, tmod_ten]
        split
        · omega
        · omega
      · exact ⟨_, by omega, inTurn_of_nonneg hlow hhigh⟩

/-- The first address is that of a chunk before the data. -/
theorem first_image_before :
    (nextImage (generatorInit 0x10000000)).1 = 0x10000000 - dataSize ∧
      ¬InTurn 0 (generatorInit 0x10000000) 1 := by
  refine ⟨by decide, fun h => ?_⟩
  exact absurd (inTurn_iff.mp h 0 (by decide)) (by decide)

end TmkDcl.Capture.CvGenerator
