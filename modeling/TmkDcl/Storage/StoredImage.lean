import TmkDcl.Paths
import TmkDcl.Storage.RoundTrip

/-!
# Images on disk (Filesystem.cpp)

An image goes to a `.png` file if the format has its depth and channels, and otherwise to a
compressed archive. It is read from the `.png` file if there is one, whatever has been saved last.

The image codec and zlib are parameters. A file is known by the place of its directory and by its
name there.
-/

namespace TmkDcl.Storage

open TmkDcl (Json)

/-! ### Images -/

/-- The bytes of a channel (`CV_ELEM_SIZE1`) for `CV_8U`, `CV_8S`, `CV_16U`, .. `CV_16F`. -/
def elemSize1 (depth : ℕ) : ℕ := [1, 1, 2, 2, 4, 4, 8, 2].getD depth 0

/-- The type of a `cv::Mat`: three bits for the depth, nine for the channels less one. -/
abbrev MatType := ℕ

def MatType.depth (type : MatType) : ℕ := type % 8

def MatType.channels (type : MatType) : ℕ := type / 8 % 512 + 1

def MatType.elemSize (type : MatType) : ℕ := type.channels * elemSize1 type.depth

def cv8U : ℕ := 0

def cv16U : ℕ := 2

def cv8UC3 : MatType := 16

/-- A continuous image that is not empty. -/
structure Mat where
  rows : ℕ
  cols : ℕ
  type : MatType
  data : Bytes
  rows_pos : 0 < rows
  cols_pos : 0 < cols
  rows_lt : rows < 2 ^ 31
  cols_lt : cols < 2 ^ 31
  type_lt : type < 2 ^ 12
  size : data.length = cols * type.elemSize * rows

/-- The formats that `saveImage` leaves to `cv::imwrite`. -/
def Mat.isPng (m : Mat) : Bool :=
  (m.type.depth == cv8U || m.type.depth == cv16U) &&
    (m.type.channels == 1 || m.type.channels == 3 || m.type.channels == 4)

/-! ### Files -/

def slash : UInt8 := 47
def dot : UInt8 := 46

structure Path where
  dir : List Bytes
  name : Bytes
  deriving DecidableEq

/-- The file that a path leads to from the working directory `start`. -/
def Path.of (start : List Bytes) (path : Bytes) : Path :=
  ⟨dirPlace slash dot start path, lineRest slash path⟩

/-- `path.string() + suffix`, which is in the same directory. -/
def Path.suffixed (path : Path) (suffix : String) : Path :=
  { path with name := path.name ++ literal suffix }

inductive File where
  | json (json : Json Bytes)
  | png (m : Mat)
  | dat (bytes : Bytes)

/-- The files. Their directories are there, and none has the name of a file. -/
abbrev Disk := Path → Option File

/-- `cv::imread` with its default flags, on the file that `cv::imwrite` has made of an image, and
the filters of zlib. -/
structure Codec where
  imread : Mat → Mat
  zlibCompressor : Bytes → Bytes
  zlibDecompressor : Bytes → Bytes

/-- The `binary_oarchive`: three numbers and the pixels. -/
def Mat.archive (m : Mat) : Bytes :=
  leBytes 4 m.cols ++ leBytes 4 m.rows ++ leBytes 4 m.type ++ m.data

/-- The `binary_iarchive`; without an image where the archive ends too early. -/
def readArchive (bytes : Bytes) : Option Mat :=
  let cols := leNat (bytes.take 4)
  let rows := leNat ((bytes.drop 4).take 4)
  let type : MatType := leNat ((bytes.drop 8).take 4)
  let data := (bytes.drop 12).take (cols * type.elemSize * rows)
  if h : (0 < rows ∧ 0 < cols ∧ rows < 2 ^ 31 ∧ cols < 2 ^ 31) ∧ type < 2 ^ 12 ∧
      data.length = cols * type.elemSize * rows then
    some ⟨rows, cols, type, data, h.1.1, h.1.2.1, h.1.2.2.1, h.1.2.2.2, h.2.1, h.2.2⟩
  else none

def saveImage (codec : Codec) (m : Mat) (path : Path) (disk : Disk) : Disk :=
  if m.isPng then Function.update disk (path.suffixed ".png") (some (.png m))
  else Function.update disk (path.suffixed ".dat") (some (.dat (codec.zlibCompressor m.archive)))

/-- Without a result for an empty image. -/
def readImage (codec : Codec) (path : Path) (disk : Disk) : Option Mat :=
  match disk (path.suffixed ".png") with
  | some (.png m) => some (codec.imread m)
  | some _ => none
  | none =>
    match disk (path.suffixed ".dat") with
    | some (.dat bytes) => readArchive (codec.zlibDecompressor bytes)
    | _ => none

/-! ### One path -/

section Path

variable {codec : Codec} {path other : Path} {disk : Disk} {m : Mat}

theorem saves_elsewhere (l : List (Path × Mat)) (h : ∀ e ∈ l, e.1.dir ≠ path.dir) (disk : Disk) :
    l.foldl (fun disk image => saveImage codec image.2 image.1 disk) disk path = disk path := by
  induction l generalizing disk with
  | nil => rfl
  | cons e l ih =>
    have hne : ∀ suffix : String, path ≠ e.1.suffixed suffix := by
      intro suffix heq
      exact h e List.mem_cons_self (congrArg Path.dir heq).symm
    rw [List.foldl_cons, ih fun e' he' => h e' (List.mem_cons_of_mem _ he')]
    unfold saveImage
    split
    · exact Function.update_of_ne (hne ".png") _ _
    · exact Function.update_of_ne (hne ".dat") _ _

end Path

/-! ### A codec -/

/-- The sample for a channel of the result, in the pixel number `i`: the high byte. -/
def Mat.sample (m : Mat) (i channel : ℕ) : UInt8 :=
  let size := elemSize1 m.type.depth
  let source := if m.type.channels = 1 then 0 else channel
  m.data.getD (i * m.type.elemSize + source * size + (size - 1)) 0

/-- One pixel in colour. -/
def colorPixel : Mat :=
  ⟨1, 1, cv8UC3, [10, 20, 30], by decide, by decide, by decide, by decide, by decide, by decide⟩

end TmkDcl.Storage
