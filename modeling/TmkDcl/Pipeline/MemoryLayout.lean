import Mathlib.Algebra.Order.Ring.Nat
import Mathlib.Data.List.Pairwise
import Mathlib.Data.List.Range
import TmkDcl.SharedMemory

/-!
# Layout of the shared memory (shared_memory_map.h, pipeline_server.c)

The map, the table of the processes and the data chunks in the arithmetic of `size_t`. The size and
the offsets are computed apart, each with its own roundings.
-/

namespace TmkDcl.SharedMemoryMap

/-- `memory_map_t` with its own types. -/
structure MemoryMapT where
  processCnt : Int32
  processSize : UInt64
  dataCnt : Int32
  dataSize : UInt64

def memoryAlign (size : UInt64) : UInt64 := ((size + 255) >>> 8) <<< 8

def memoryMapSize : UInt64 := memoryAlign 32

/-- An `int` in the arithmetic of `size_t`. -/
def toSize (n : Int32) : UInt64 := UInt64.ofInt n.toInt

def memoryGetSize (map : MemoryMapT) : UInt64 :=
  memoryMapSize + memoryAlign (map.processSize * toSize map.processCnt) +
    memoryAlign (map.dataSize * toSize map.dataCnt)

def memoryGetProcessoffset (_ : MemoryMapT) : UInt64 := memoryMapSize

def memoryGetDataoffset (map : MemoryMapT) : UInt64 :=
  memoryMapSize + memoryAlign (map.processSize * toSize map.processCnt)

/-- The entry of the table of the processes with an index. Its entries are as large as the map says,
which is made with `PROCESS_INFO_SIZE`. -/
def processInfo (map : MemoryMapT) (idx : ℕ) : UInt64 :=
  memoryGetProcessoffset map + UInt64.ofNat idx * map.processSize

/-- What `pipeline_thread` puts in the data ring. -/
def ringOffset (map : MemoryMapT) (i : ℕ) : UInt64 :=
  memoryGetDataoffset map + UInt64.ofNat i * map.dataSize

/-! ### What is asked of it -/

/-- The map without the bounds of its types. -/
def MemoryMapT.exact (map : MemoryMapT) : MemoryMap :=
  ⟨(toSize map.processCnt).toNat, map.processSize.toNat, (toSize map.dataCnt).toNat,
    map.dataSize.toNat⟩

/-- The size as it would be computed without the bounds of `size_t`. -/
def exactSize (map : MemoryMap) : ℕ :=
  TmkDcl.memoryGetDataoffset map + TmkDcl.memoryAlign (map.dataSize * map.dataCnt)

/-- Some bytes of the shared memory. -/
structure Region where
  offset : ℕ
  size : ℕ

def Region.before (a b : Region) : Prop := a.offset + a.size ≤ b.offset

def mapRegion : Region := ⟨0, memoryMapSize.toNat⟩

def processRegion (map : MemoryMapT) (idx : ℕ) : Region :=
  ⟨(processInfo map idx).toNat, map.processSize.toNat⟩

def chunkRegion (map : MemoryMapT) (i : ℕ) : Region := ⟨(ringOffset map i).toNat, map.dataSize.toNat⟩

/-- The map, the entries of the processes and the chunks. -/
def regions (map : MemoryMapT) : List Region :=
  mapRegion :: ((List.range map.processCnt.toInt.toNat).map (processRegion map) ++
    (List.range map.dataCnt.toInt.toNat).map (chunkRegion map))

section Words

variable {x base size : UInt64} {n : ℕ} {cnt : Int32}

theorem align_eq (n : ℕ) : TmkDcl.memoryAlign n = (n + 255) / 256 * 256 := by
  rw [TmkDcl.memoryAlign, Nat.shiftRight_eq_div_pow, Nat.shiftLeft_eq]

/-- An alignment in a word cannot come to less than the exact one without a carry. -/
theorem memoryAlign_toNat (h : TmkDcl.memoryAlign x.toNat < 2 ^ 64) :
    (memoryAlign x).toNat = TmkDcl.memoryAlign x.toNat := by
  have hone : (255 : UInt64).toNat = 255 := rfl
  have height : (8 : UInt64).toNat % 64 = 8 := rfl
  have hfits : x.toNat + 255 < 2 ^ 64 := by
    rw [align_eq] at h
    omega
  rw [memoryAlign, UInt64.toNat_shiftLeft, UInt64.toNat_shiftRight, UInt64.toNat_add, hone, height,
    Nat.mod_eq_of_lt hfits, Nat.shiftLeft_eq, Nat.shiftRight_eq_div_pow, align_eq]
  rw [align_eq] at h
  exact Nat.mod_eq_of_lt h

theorem le_align (n : ℕ) : n ≤ TmkDcl.memoryAlign n := by
  rw [align_eq]
  omega

theorem mul_toNat {y : UInt64} (h : x.toNat * y.toNat < 2 ^ 64) :
    (x * y).toNat = x.toNat * y.toNat := by
  rw [UInt64.toNat_mul, Nat.mod_eq_of_lt h]

theorem align_mul_toNat {y : UInt64} (h : TmkDcl.memoryAlign (x.toNat * y.toNat) < 2 ^ 64) :
    (memoryAlign (x * y)).toNat = TmkDcl.memoryAlign (x.toNat * y.toNat) := by
  have hproduct := mul_toNat (Nat.lt_of_le_of_lt (le_align _) h)
  rw [memoryAlign_toNat (by rwa [hproduct]), hproduct]

theorem row_toNat (hn : n < 2 ^ 64) (h : base.toNat + n * size.toNat < 2 ^ 64) :
    (base + UInt64.ofNat n * size).toNat = base.toNat + n * size.toNat := by
  have hindex : (UInt64.ofNat n).toNat = n := by
    rw [UInt64.toNat_ofNat', Nat.mod_eq_of_lt hn]
  rw [UInt64.toNat_add, mul_toNat (by rw [hindex]; omega), hindex, Nat.mod_eq_of_lt h]

/-- An index below a count is below what the count is as a size. -/
theorem lt_toSize (h : n < cnt.toInt.toNat) : n < (toSize cnt).toNat ∧ n < 2 ^ 31 := by
  have hlt := cnt.toInt_lt
  have hsize : (toSize cnt).toNat = cnt.toInt.toNat := by
    rw [toSize, UInt64.ofInt, UInt64.toNat_ofNat']
    omega
  rw [hsize]
  exact ⟨h, by omega⟩

end Words

/-! ### The words are those of the exact map -/

section Layout

variable {map : MemoryMapT} {i : ℕ}

theorem product_le (a b : ℕ) {n : ℕ} (h : n ≤ b) : n * a ≤ TmkDcl.memoryAlign (a * b) := by
  rw [Nat.mul_comm]
  exact (Nat.mul_le_mul_left a h).trans (le_align _)

theorem memoryGetDataoffset_toNat (h : exactSize map.exact < 2 ^ 64) :
    (memoryGetDataoffset map).toNat = TmkDcl.memoryGetDataoffset map.exact := by
  have hle : TmkDcl.memoryGetDataoffset map.exact ≤ exactSize map.exact := Nat.le_add_right _ _
  have hprocess : TmkDcl.memoryAlign (map.processSize.toNat * (toSize map.processCnt).toNat) ≤
      TmkDcl.memoryGetDataoffset map.exact := Nat.le_add_left _ _
  rw [memoryGetDataoffset, UInt64.toNat_add, align_mul_toNat (by omega)]
  exact Nat.mod_eq_of_lt (Nat.lt_of_le_of_lt hle h)

theorem memoryGetSize_toNat (h : exactSize map.exact < 2 ^ 64) :
    (memoryGetSize map).toNat = exactSize map.exact := by
  have hdata : TmkDcl.memoryAlign (map.dataSize.toNat * (toSize map.dataCnt).toNat) ≤
      exactSize map.exact := Nat.le_add_left _ _
  have hoffset := memoryGetDataoffset_toNat h
  rw [memoryGetDataoffset] at hoffset
  rw [memoryGetSize, UInt64.toNat_add, hoffset, align_mul_toNat (by omega)]
  exact Nat.mod_eq_of_lt h

/-- An entry of the table is between the map and the data. -/
theorem processRegion_eq (h : exactSize map.exact < 2 ^ 64) (hi : i < map.processCnt.toInt.toNat) :
    processRegion map i = ⟨256 + i * map.processSize.toNat, map.processSize.toNat⟩ ∧
      256 + i * map.processSize.toNat + map.processSize.toNat ≤
        TmkDcl.memoryGetDataoffset map.exact := by
  obtain ⟨hcnt, hindex⟩ := lt_toSize hi
  have hend := product_le map.processSize.toNat (toSize map.processCnt).toNat hcnt
  have hle : TmkDcl.memoryGetDataoffset map.exact ≤ exactSize map.exact := Nat.le_add_right _ _
  have hoffset : TmkDcl.memoryGetDataoffset map.exact = 256 + TmkDcl.memoryAlign
      (map.processSize.toNat * (toSize map.processCnt).toNat) := rfl
  have hbase : (memoryGetProcessoffset map).toNat = 256 := rfl
  rw [Nat.succ_mul] at hend
  refine ⟨?_, by omega⟩
  rw [processRegion, processInfo, row_toNat (by omega) (by rw [hbase]; omega), hbase]

/-- A chunk is between the table and the end; its offset is the one of the ring. -/
theorem chunkRegion_eq (h : exactSize map.exact < 2 ^ 64) (hi : i < map.dataCnt.toInt.toNat) :
    chunkRegion map i = ⟨chunkOffset map.exact i, map.dataSize.toNat⟩ ∧
      chunkOffset map.exact i + map.dataSize.toNat ≤ exactSize map.exact := by
  obtain ⟨hcnt, hindex⟩ := lt_toSize hi
  have hend := product_le map.dataSize.toNat (toSize map.dataCnt).toNat hcnt
  have hsize : exactSize map.exact = TmkDcl.memoryGetDataoffset map.exact + TmkDcl.memoryAlign
      (map.dataSize.toNat * (toSize map.dataCnt).toNat) := rfl
  have hchunk : chunkOffset map.exact i =
      TmkDcl.memoryGetDataoffset map.exact + i * map.dataSize.toNat := rfl
  have hbase := memoryGetDataoffset_toNat h
  rw [Nat.succ_mul] at hend
  refine ⟨?_, by omega⟩
  rw [chunkRegion, ringOffset, row_toNat (by omega) (by rw [hbase]; omega), hbase, hchunk]

theorem row_pairwise {f : ℕ → Region} {n base size : ℕ}
    (h : ∀ i < n, f i = ⟨base + i * size, size⟩) :
    ((List.range n).map f).Pairwise Region.before := by
  rw [List.pairwise_map]
  refine List.Pairwise.imp_of_mem ?_ List.pairwise_lt_range
  intro i j hi hj hij
  have hnext := Nat.mul_le_mul_right size (Nat.succ_le_of_lt hij)
  rw [Nat.succ_mul] at hnext
  rw [h i (List.mem_range.mp hi), h j (List.mem_range.mp hj)]
  show base + i * size + size ≤ base + j * size
  omega

/-- All regions follow each other, and the last one ends in the mapping. -/
theorem regions_apart (map : MemoryMapT) (h : exactSize map.exact < 2 ^ 64) :
    (regions map).Pairwise Region.before ∧
      ∀ r ∈ regions map, r.offset + r.size ≤ (memoryGetSize map).toNat := by
  have hmap : mapRegion = ⟨0, 256⟩ := rfl
  have hprocess : ∀ r ∈ (List.range map.processCnt.toInt.toNat).map (processRegion map),
      256 ≤ r.offset ∧ r.offset + r.size ≤ TmkDcl.memoryGetDataoffset map.exact := by
    intro r hr
    obtain ⟨i, hi, rfl⟩ := List.mem_map.mp hr
    obtain ⟨heq, hend⟩ := processRegion_eq h (List.mem_range.mp hi)
    rw [heq]
    exact ⟨Nat.le_add_right _ _, hend⟩
  have hchunk : ∀ r ∈ (List.range map.dataCnt.toInt.toNat).map (chunkRegion map),
      TmkDcl.memoryGetDataoffset map.exact ≤ r.offset ∧
        r.offset + r.size ≤ exactSize map.exact := by
    intro r hr
    obtain ⟨i, hi, rfl⟩ := List.mem_map.mp hr
    obtain ⟨heq, hend⟩ := chunkRegion_eq h (List.mem_range.mp hi)
    rw [heq]
    exact ⟨Nat.le_add_right _ _, hend⟩
  have hdata : 256 ≤ TmkDcl.memoryGetDataoffset map.exact := Nat.le_add_right 256 _
  have hsize : TmkDcl.memoryGetDataoffset map.exact ≤ exactSize map.exact := Nat.le_add_right _ _
  rw [memoryGetSize_toNat h]
  constructor
  · rw [regions, List.pairwise_cons, List.pairwise_append]
    refine ⟨fun r hr => ?_, row_pairwise fun i hi => (processRegion_eq h hi).1,
      row_pairwise fun i hi => (chunkRegion_eq h hi).1, fun a ha b hb => ?_⟩
    · rw [hmap]
      cases List.mem_append.mp hr with
      | inl hr => exact (hprocess r hr).1
      | inr hr => exact hdata.trans (hchunk r hr).1
    · exact (hprocess a ha).2.trans (hchunk b hb).1
  · intro r hr
    rw [regions, List.mem_cons, List.mem_append] at hr
    obtain rfl | hr | hr := hr
    · rw [hmap]
      exact hdata.trans hsize
    · exact (hprocess r hr).2.trans hsize
    · exact (hchunk r hr).2

end Layout

/-- Four processes and three chunks that are no multiples of the blocks. -/
def smallMap : MemoryMapT := ⟨4, 100, 3, 1000⟩

theorem regions_apart_small :
    (regions smallMap).Pairwise Region.before ∧
      ∀ r ∈ regions smallMap, r.offset + r.size ≤ (memoryGetSize smallMap).toNat :=
  regions_apart smallMap (by decide)

end TmkDcl.SharedMemoryMap
