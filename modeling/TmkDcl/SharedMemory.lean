import Mathlib.Data.List.Nodup

/-!
# The shared memory map (pipeline/shared_memory_map.h)

The mapping starts with the memory map itself, then the process table, then the
data chunks; each part is rounded up to whole blocks of 256 bytes.
-/

namespace TmkDcl

/-- `memory_map_t` (`shared_memory_map.h:14-19`). -/
structure MemoryMap where
  processCnt : ℕ
  processSize : ℕ
  dataCnt : ℕ
  dataSize : ℕ

/-- `MEMORY_ALIGN` (`shared_memory_map.h:8`). -/
def memoryAlign (size : ℕ) : ℕ := ((size + 255) >>> 8) <<< 8

/-- `MEMORY_MAP_SIZE`: two `int`s and two `size_t`s take 32 bytes. -/
def memoryMapSize : ℕ := memoryAlign 32

/-- `memory_get_dataoffset` (`shared_memory_map.h:47-51`). -/
def memoryGetDataoffset (map : MemoryMap) : ℕ :=
  memoryMapSize + memoryAlign (map.processSize * map.processCnt)

/-- The offset of the chunk `i`, as `pipeline_thread` puts it in the data ring
(`pipeline_server.c:30`). -/
def chunkOffset (map : MemoryMap) (i : ℕ) : ℕ := memoryGetDataoffset map + i * map.dataSize

/-- The offsets `pipeline_thread` creates, in ring order. -/
def createdOffsets (map : MemoryMap) : List ℕ := (List.range map.dataCnt).map (chunkOffset map)

theorem createdOffsets_length (map : MemoryMap) : (createdOffsets map).length = map.dataCnt := by
  simp [createdOffsets]

theorem createdOffsets_nodup (map : MemoryMap) (h : 0 < map.dataSize) :
    (createdOffsets map).Nodup := by
  refine List.Nodup.map (fun i j hij => ?_) List.nodup_range
  exact Nat.eq_of_mul_eq_mul_right h (Nat.add_left_cancel hij)

end TmkDcl
