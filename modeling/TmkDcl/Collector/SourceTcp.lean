import Mathlib.Data.List.Basic
import Mathlib.Data.List.Induction
import TmkDcl.Bytes

/-!
# The reader of a TCP source (collector/src/source.c)

`source_data_thread_tcp` reads the header of a frame and then its image, with the
rest that is still to come in `remaining_len`. When a header is complete the rest
is set to the size in the header, which counts the header too, less the bytes of
the last read (`source.c:181-196`). This is the size of the image when the header
came with one read; when it came with several the reader asks for too much, and a
read that returns the start of the next frame overruns `packet->data`.
-/

namespace TmkDcl.Collector

/-- `struct source_description`, the sizes of a frame. -/
structure SourceDescription where
  headerLen : ℕ
  dataLen : ℕ

/-- The reader: `packet->header`, `packet->data`, the locals of the thread, and the
calls of `new_frame_action` with the id and the data they were made with. -/
structure Reader where
  header : Bytes
  data : Bytes
  recievedLen : ℕ
  remainingLen : ℕ
  headerOk : Bool
  dataSize : ℕ
  frameId : BitVec 32
  exitFlag : Bool
  calls : List (BitVec 32 × Bytes)

/-- The state before the loop (`source.c:134-151`); the buffers are as `malloc` left them. -/
def Reader.start (sdesc : SourceDescription) : Reader where
  header := List.replicate sdesc.headerLen 0
  data := List.replicate sdesc.dataLen 0
  recievedLen := 0
  remainingLen := sdesc.headerLen
  headerOk := false
  dataSize := 0
  frameId := -1
  exitFlag := false
  calls := []

/-- The result of `read`; no bytes stand for 0. -/
inductive ReadResult where
  | error
  | bytes (bs : Bytes)

/-- The `remaining_len` that the next `read` asks for (`source.c:154-159`). -/
def Reader.request (sdesc : SourceDescription) (r : Reader) : ℕ :=
  if r.remainingLen = 0 then sdesc.headerLen else r.remainingLen

/-- The accounting of a read of `bytes` bytes (`source.c:178-206`). -/
def Reader.account (sdesc : SourceDescription) (r : Reader) (bytes : ℕ) : Reader :=
  let r : Reader := { r with recievedLen := r.recievedLen + bytes }
  let r : Reader := if r.headerOk = false ∧ r.recievedLen < sdesc.headerLen then
      { r with remainingLen := r.remainingLen - bytes } else r
  let r : Reader := if r.headerOk = false ∧ r.recievedLen = sdesc.headerLen then
      let dataSize := leNat (r.header.take 8)
      { r with
        dataSize := dataSize
        frameId := BitVec.ofNat 32 (leNat ((r.header.drop 8).take 4))
        recievedLen := 0
        remainingLen := dataSize
        headerOk := true } else r
  let r : Reader := if r.headerOk = true ∧ r.recievedLen < sdesc.dataLen then
      { r with remainingLen := r.remainingLen - bytes } else r
  if r.headerOk = true ∧ r.recievedLen = sdesc.dataLen then
    { r with
      remainingLen := sdesc.headerLen
      recievedLen := 0
      headerOk := false
      calls := r.calls ++ [(r.frameId, r.data)] } else r

/-- One round of the loop; `none` is a read past the end of a buffer. -/
def Reader.iterate (sdesc : SourceDescription) (r : Reader) : ReadResult → Option Reader
  | .error => some { r with remainingLen := r.request sdesc, exitFlag := true }
  | .bytes [] => some { r with remainingLen := r.request sdesc }
  | .bytes (b :: bs) =>
    let r := { r with remainingLen := r.request sdesc }
    if r.headerOk then
      if r.recievedLen + (b :: bs).length ≤ r.data.length then
        some ({ r with data := storeAt r.data r.recievedLen (b :: bs) }.account sdesc
          (b :: bs).length)
      else none
    else
      if r.recievedLen + (b :: bs).length ≤ r.header.length then
        some ({ r with header := storeAt r.header r.recievedLen (b :: bs) }.account sdesc
          (b :: bs).length)
      else none

/-- The loop over the results of its reads. -/
def sourceDataThreadTcp (sdesc : SourceDescription) (reads : List ReadResult) : Option Reader :=
  reads.foldlM (fun r res => if r.exitFlag then some r else r.iterate sdesc res) (.start sdesc)

/-! ### The stream -/

/-- A frame of images of `dataLen` bytes. -/
structure Frame (dataLen : ℕ) where
  id : BitVec 32
  raw : Bytes
  raw_length : raw.length = dataLen

/-- `sizeof(size_t) + sizeof(int)`. -/
def imageHeaderSize : ℕ := 8 + 4

/-- A source of images of `dataLen` bytes whose frame size is a `size_t`. -/
structure ImageSource where
  dataLen : ℕ
  fits : imageHeaderSize + dataLen < 2 ^ 64

namespace ImageSource

def sdesc (src : ImageSource) : SourceDescription := ⟨imageHeaderSize, src.dataLen⟩

/-- The bytes of a frame. -/
def frameSize (src : ImageSource) : ℕ := imageHeaderSize + src.dataLen

end ImageSource

/-- A frame as the generator writes it (`cvgenerator.cpp:34-54`). -/
def Frame.encode {n : ℕ} (f : Frame n) : Bytes :=
  leBytes 8 (imageHeaderSize + n) ++ leBytes 4 f.id.toNat ++ f.raw

/-- The call that a frame should give. -/
def Frame.call {n : ℕ} (f : Frame n) : BitVec 32 × Bytes := (f.id, f.raw)

/-- The stream of some frames. -/
def encodeAll {n : ℕ} (frames : List (Frame n)) : Bytes := (frames.map Frame.encode).flatten

section Stream

variable {n : ℕ} {f : Frame n} {frames : List (Frame n)}

theorem Frame.encode_length (f : Frame n) : f.encode.length = imageHeaderSize + n := by
  simp only [encode, List.length_append, leBytes_length, f.raw_length]
  rfl

theorem Frame.encode_size (f : Frame n) (h : imageHeaderSize + n < 2 ^ 64) :
    leNat (f.encode.take 8) = imageHeaderSize + n := by
  have ht : f.encode.take 8 = leBytes 8 (imageHeaderSize + n) := by
    rw [encode, List.append_assoc]
    exact List.take_left' (leBytes_length ..)
  rw [ht, leNat_leBytes]
  exact Nat.mod_eq_of_lt h

theorem Frame.encode_id (f : Frame n) :
    BitVec.ofNat 32 (leNat ((f.encode.drop 8).take 4)) = f.id := by
  have ht : (f.encode.drop 8).take 4 = leBytes 4 f.id.toNat := by
    rw [encode, List.append_assoc, List.drop_left' (leBytes_length ..)]
    exact List.take_left' (leBytes_length ..)
  rw [ht, leNat_leBytes, Nat.mod_eq_of_lt (by simpa using f.id.isLt), BitVec.ofNat_toNat,
    BitVec.setWidth_eq]

theorem Frame.encode_raw (f : Frame n) : f.encode.drop imageHeaderSize = f.raw :=
  List.drop_left' (by simp only [List.length_append, leBytes_length]; rfl)

theorem encodeAll_append (xs ys : List (Frame n)) :
    encodeAll (xs ++ ys) = encodeAll xs ++ encodeAll ys := by
  simp [encodeAll]

theorem encodeAll_length (frames : List (Frame n)) :
    (encodeAll frames).length = frames.length * (imageHeaderSize + n) := by
  induction frames with
  | nil => simp [encodeAll]
  | cons f frames ih =>
    have hc : encodeAll (f :: frames) = f.encode ++ encodeAll frames := rfl
    rw [hc, List.length_append, ih, f.encode_length, List.length_cons, Nat.add_mul]
    omega

end Stream

/-! ### What a read does -/

section Account

variable {sdesc : SourceDescription} {r : Reader} {n : ℕ}

/-- The state when a header is complete after a read of `n` bytes. -/
def Reader.withHeader (r : Reader) (n : ℕ) : Reader :=
  { r with
    dataSize := leNat (r.header.take 8)
    frameId := BitVec.ofNat 32 (leNat ((r.header.drop 8).take 4))
    recievedLen := 0
    remainingLen := leNat (r.header.take 8) - n
    headerOk := true }

/-- The state when an image is complete. -/
def Reader.delivered (sdesc : SourceDescription) (r : Reader) : Reader :=
  { r with
    remainingLen := sdesc.headerLen
    recievedLen := 0
    headerOk := false
    calls := r.calls ++ [(r.frameId, r.data)] }

theorem account_header_part (hk : r.headerOk = false) (h : r.recievedLen + n < sdesc.headerLen) :
    r.account sdesc n =
      { r with recievedLen := r.recievedLen + n, remainingLen := r.remainingLen - n } := by
  have hne : r.recievedLen + n ≠ sdesc.headerLen := Nat.ne_of_lt h
  simp [Reader.account, hk, h, hne]

theorem account_header (hk : r.headerOk = false) (h : r.recievedLen + n = sdesc.headerLen)
    (hd : 0 < sdesc.dataLen) : r.account sdesc n = r.withHeader n := by
  have hne : (0 : ℕ) ≠ sdesc.dataLen := Nat.ne_of_lt hd
  simp [Reader.account, Reader.withHeader, hk, h, hd, hne]

theorem account_header_only (hk : r.headerOk = false) (h : r.recievedLen + n = sdesc.headerLen)
    (hd : sdesc.dataLen = 0) : r.account sdesc n = (r.withHeader 0).delivered sdesc := by
  simp [Reader.account, Reader.withHeader, Reader.delivered, hk, h, hd]

theorem account_body_part (hk : r.headerOk = true) (h : r.recievedLen + n < sdesc.dataLen) :
    r.account sdesc n =
      { r with recievedLen := r.recievedLen + n, remainingLen := r.remainingLen - n } := by
  have hne : r.recievedLen + n ≠ sdesc.dataLen := Nat.ne_of_lt h
  simp [Reader.account, hk, h, hne]

theorem account_body (hk : r.headerOk = true) (h : r.recievedLen + n = sdesc.dataLen) :
    r.account sdesc n = r.delivered sdesc := by
  simp [Reader.account, Reader.delivered, hk, h]

theorem iterate_header (hk : r.headerOk = false) {bs : Bytes} (hbs : bs ≠ [])
    (h : r.recievedLen + bs.length ≤ r.header.length) :
    r.iterate sdesc (.bytes bs) = some (Reader.account sdesc
      { r with header := storeAt r.header r.recievedLen bs, remainingLen := r.request sdesc }
      bs.length) := by
  obtain ⟨b, bs, rfl⟩ := List.exists_cons_of_ne_nil hbs
  simp only [Reader.iterate, hk, Bool.false_eq_true, if_false, if_pos h]

theorem iterate_body (hk : r.headerOk = true) {bs : Bytes} (hbs : bs ≠ [])
    (h : r.recievedLen + bs.length ≤ r.data.length) :
    r.iterate sdesc (.bytes bs) = some (Reader.account sdesc
      { r with data := storeAt r.data r.recievedLen bs, remainingLen := r.request sdesc }
      bs.length) := by
  obtain ⟨b, bs, rfl⟩ := List.exists_cons_of_ne_nil hbs
  simp only [Reader.iterate, hk, if_true, if_pos h]

theorem iterate_overrun (hk : r.headerOk = true) {bs : Bytes} (hbs : bs ≠ [])
    (h : r.data.length < r.recievedLen + bs.length) :
    r.iterate sdesc (.bytes bs) = none := by
  obtain ⟨b, bs, rfl⟩ := List.exists_cons_of_ne_nil hbs
  simp only [Reader.iterate, hk, if_true, if_neg (Nat.not_le.mpr h)]

end Account

/-! ### The reader between two reads -/

/-- The reader between two reads: the frames `done` are handed over and the bytes `part`
of the next one are read. -/
structure Between (src : ImageSource) (done : List (Frame src.dataLen)) (part : Bytes)
    (r : Reader) : Prop where
  header_length : r.header.length = imageHeaderSize
  data_length : r.data.length = src.dataLen
  running : r.exitFlag = false
  calls : r.calls = done.map Frame.call
  short : part.length < src.frameSize
  inHeader : part.length < imageHeaderSize → r.headerOk = false ∧ r.recievedLen = part.length ∧
    r.remainingLen = imageHeaderSize - part.length ∧ r.header.take part.length = part
  inBody : imageHeaderSize ≤ part.length → r.headerOk = true ∧
    r.recievedLen + imageHeaderSize = part.length ∧ src.dataLen ≤ r.recievedLen + r.remainingLen ∧
    r.data.take r.recievedLen = part.drop imageHeaderSize ∧
    r.frameId = BitVec.ofNat 32 (leNat ((part.drop 8).take 4))

section Reader

variable {src : ImageSource} {done : List (Frame src.dataLen)} {f : Frame src.dataLen}
  {part bs : Bytes} {r r' : Reader} {reads : List Bytes}

theorem frameSize_eq (src : ImageSource) : src.frameSize = imageHeaderSize + src.dataLen := rfl

theorem between_start (src : ImageSource) : Between src [] [] (.start src.sdesc) where
  header_length := List.length_replicate
  data_length := List.length_replicate
  running := rfl
  calls := rfl
  short := by
    simp only [ImageSource.frameSize, imageHeaderSize, List.length_nil]
    omega
  inHeader _ := ⟨rfl, rfl, rfl, rfl⟩
  inBody h := by simp [imageHeaderSize] at h

theorem Between.request_eq (h : Between src done part r) : r.request src.sdesc = r.remainingLen := by
  have hpos : r.remainingLen ≠ 0 := by
    have hs := h.short
    have hf := frameSize_eq src
    rcases Nat.lt_or_ge part.length imageHeaderSize with hp | hp
    · obtain ⟨-, -, hr, -⟩ := h.inHeader hp
      omega
    · obtain ⟨-, hr, hd, -⟩ := h.inBody hp
      omega
  exact if_neg hpos

theorem Between.header_part (h : Between src done part r) (hbs : bs ≠ [])
    (hend : part.length + bs.length < imageHeaderSize) :
    ∃ r', r.iterate src.sdesc (.bytes bs) = some r' ∧ Between src done (part ++ bs) r' := by
  obtain ⟨hk, hr, hm, ht⟩ := h.inHeader (by omega)
  have hfit : r.recievedLen + bs.length ≤ r.header.length := by
    rw [h.header_length]
    omega
  have hlt : r.recievedLen + bs.length < src.sdesc.headerLen := by
    rw [hr]
    exact hend
  refine ⟨_, iterate_header hk hbs hfit, ?_⟩
  rw [account_header_part (by exact hk) (by exact hlt), h.request_eq, hr, hm]
  rw [hr] at hfit
  have hs := h.short
  have hf := frameSize_eq src
  refine ⟨(storeAt_length hfit).trans h.header_length, h.data_length, h.running, h.calls, ?_, ?_, ?_⟩
  · rw [List.length_append]
    omega
  · rw [List.length_append]
    exact fun _ => ⟨hk, rfl, Nat.sub_sub .., take_storeAt ht (by omega)⟩
  · rw [List.length_append]
    omega

/-- The reader after the whole header, with a read of `bs` that ended it. -/
theorem between_header {r : Reader} {bs : Bytes} (hh : r.header.length = imageHeaderSize)
    (hd : r.data.length = src.dataLen) (hx : r.exitFlag = false) (hc : r.calls = done.map Frame.call)
    (hsz : leNat (r.header.take 8) = src.frameSize) (hpos : 0 < src.dataLen)
    (hbs : bs.length ≤ imageHeaderSize) :
    Between src done r.header (r.withHeader bs.length) where
  header_length := hh
  data_length := hd
  running := hx
  calls := hc
  short := by
    rw [hh, frameSize_eq]
    omega
  inHeader hlt := absurd hh (Nat.ne_of_lt hlt)
  inBody _ := by
    have hdrop : r.header.drop imageHeaderSize = [] := List.drop_of_length_le (Nat.le_of_eq hh)
    refine ⟨rfl, by rw [hh]; rfl, ?_, hdrop.symm, rfl⟩
    simp only [Reader.withHeader, hsz, frameSize_eq]
    omega

/-- The reader after the last byte of a frame. -/
theorem between_delivered {r : Reader} (hh : r.header.length = imageHeaderSize)
    (hd : r.data.length = src.dataLen) (hx : r.exitFlag = false) (hc : r.calls = done.map Frame.call)
    (hid : r.frameId = f.id) (hraw : r.data = f.raw) :
    Between src (done ++ [f]) [] (r.delivered src.sdesc) where
  header_length := hh
  data_length := hd
  running := hx
  calls := by simp [Reader.delivered, hc, hid, hraw, Frame.call]
  short := by
    rw [frameSize_eq, List.length_nil]
    exact Nat.add_pos_left (by decide) _
  inHeader _ := ⟨rfl, rfl, rfl, rfl⟩
  inBody hlt := by simp [imageHeaderSize] at hlt

theorem Between.header_done (h : Between src done part r) (hbs : bs ≠ [])
    (hend : part.length + bs.length = imageHeaderSize) (hp : part ++ bs <+: f.encode) :
    ∃ r', r.iterate src.sdesc (.bytes bs) = some r' ∧
      (0 < src.dataLen → Between src done (part ++ bs) r') ∧
      (src.dataLen = 0 → Between src (done ++ [f]) [] r') := by
  have hlb := List.length_pos_of_ne_nil hbs
  obtain ⟨hk, hr, hm, ht⟩ := h.inHeader (by omega)
  have hfit : r.recievedLen + bs.length ≤ r.header.length := by
    rw [h.header_length]
    omega
  have hstore : storeAt r.header r.recievedLen bs = part ++ bs := by
    rw [hr] at hfit ⊢
    have htake : (storeAt r.header part.length bs).take (part.length + bs.length) = part ++ bs :=
      take_storeAt ht (by omega)
    rwa [List.take_of_length_le (by rw [storeAt_length hfit, h.header_length]; omega)] at htake
  have hlen : (part ++ bs).length = imageHeaderSize := by rw [List.length_append, hend]
  have hpre : part ++ bs = f.encode.take imageHeaderSize := hlen ▸ (List.prefix_iff_eq_take.mp hp)
  have hsz : leNat ((part ++ bs).take 8) = src.frameSize := by
    rw [hpre, List.take_take]
    exact f.encode_size src.fits
  have heq : r.recievedLen + bs.length = src.sdesc.headerLen := hr ▸ hend
  refine ⟨_, iterate_header hk hbs hfit, fun hpos => ?_, fun hz => ?_⟩
  · rw [account_header (by exact hk) (by exact heq) hpos, hstore]
    have hlb' : bs.length ≤ imageHeaderSize := hend ▸ Nat.le_add_left ..
    exact between_header (r := { r with header := part ++ bs, remainingLen := r.request src.sdesc })
      hlen h.data_length h.running h.calls hsz hpos hlb'
  · rw [account_header_only (by exact hk) (by exact heq) hz, hstore]
    refine between_delivered hlen h.data_length h.running h.calls ?_ ?_
    · simp only [Reader.withHeader, hpre]
      rw [← f.encode_id, List.drop_take, List.take_take]
      rfl
    · have h0 : r.data = [] := List.eq_nil_of_length_eq_zero (h.data_length.trans hz)
      have h1 : f.raw = [] := List.eq_nil_of_length_eq_zero (f.raw_length.trans hz)
      exact h0.trans h1.symm

/-- The id of a frame is read as soon as its header is. -/
theorem take_id_append (hp : imageHeaderSize ≤ part.length) :
    ((part ++ bs).drop 8).take 4 = (part.drop 8).take 4 := by
  have h12 : 12 ≤ part.length := hp
  have h4 : 4 ≤ (part.drop 8).length := by
    rw [List.length_drop]
    omega
  rw [List.drop_append_of_le_length (by omega), List.take_append_of_le_length h4]

theorem Between.body_part (h : Between src done part r) (hbs : bs ≠ [])
    (hp : imageHeaderSize ≤ part.length) (hend : part.length + bs.length < src.frameSize) :
    ∃ r', r.iterate src.sdesc (.bytes bs) = some r' ∧ Between src done (part ++ bs) r' := by
  obtain ⟨hk, hr, hm, ht, hid⟩ := h.inBody hp
  have hf := frameSize_eq src
  have hlt : r.recievedLen + bs.length < src.dataLen := by omega
  have hfit : r.recievedLen + bs.length ≤ r.data.length := by
    rw [h.data_length]
    omega
  refine ⟨_, iterate_body hk hbs hfit, ?_⟩
  rw [account_body_part (by exact hk) (by exact hlt), h.request_eq]
  refine ⟨h.header_length, (storeAt_length hfit).trans h.data_length, h.running, h.calls, ?_, ?_, ?_⟩
  · rw [List.length_append]
    omega
  · rw [List.length_append]
    omega
  · rw [List.length_append]
    have hrec : r.recievedLen + bs.length + imageHeaderSize = part.length + bs.length := by omega
    have hrem : src.dataLen ≤ r.recievedLen + bs.length + (r.remainingLen - bs.length) := by omega
    refine fun _ => ⟨hk, hrec, hrem, ?_, ?_⟩
    · rw [List.drop_append_of_le_length hp]
      exact take_storeAt ht (Nat.le_trans (Nat.le_add_right ..) hfit)
    · rw [take_id_append hp]
      exact hid

theorem Between.body_done (h : Between src done part r) (hbs : bs ≠ [])
    (hp : imageHeaderSize ≤ part.length) (hend : part ++ bs = f.encode) :
    ∃ r', r.iterate src.sdesc (.bytes bs) = some r' ∧ Between src (done ++ [f]) [] r' := by
  obtain ⟨hk, hr, hm, ht, hid⟩ := h.inBody hp
  have hl : part.length + bs.length = imageHeaderSize + src.dataLen := by
    rw [← f.encode_length, ← hend, List.length_append]
  have heq : r.recievedLen + bs.length = src.dataLen := by omega
  have hfit : r.recievedLen + bs.length ≤ r.data.length := by
    rw [h.data_length]
    omega
  refine ⟨_, iterate_body hk hbs hfit, ?_⟩
  rw [account_body (by exact hk) (by exact heq)]
  have hraw : storeAt r.data r.recievedLen bs = f.raw := by
    have htake : (storeAt r.data r.recievedLen bs).take (r.recievedLen + bs.length) =
        part.drop imageHeaderSize ++ bs := take_storeAt ht (by omega)
    rw [List.take_of_length_le (by rw [storeAt_length hfit, h.data_length]; omega)] at htake
    rw [htake, ← List.drop_append_of_le_length hp, hend, f.encode_raw]
  refine between_delivered h.header_length ((storeAt_length hfit).trans h.data_length)
    h.running h.calls ?_ hraw
  rw [← f.encode_id, ← hend, take_id_append hp]
  exact hid

/-- A read that goes beyond the image. -/
theorem Between.body_overrun (h : Between src done part r) (hbs : bs ≠ [])
    (hreq : bs.length ≤ r.request src.sdesc) (hend : src.frameSize < part.length + bs.length) :
    r.iterate src.sdesc (.bytes bs) = none := by
  have hf := frameSize_eq src
  have hp : imageHeaderSize ≤ part.length := by
    by_contra hlt
    obtain ⟨-, -, hm, -⟩ := h.inHeader (Nat.lt_of_not_le hlt)
    rw [h.request_eq] at hreq
    omega
  obtain ⟨hk, hr, -⟩ := h.inBody hp
  refine iterate_overrun hk hbs ?_
  rw [h.data_length]
  omega

theorem Between.iterate (h : Between src done part r) (hbs : bs ≠ [])
    (hreq : bs.length ≤ r.request src.sdesc)
    (hp : part.length + bs.length ≤ src.frameSize → part ++ bs <+: f.encode) :
    (part.length + bs.length < src.frameSize →
      ∃ r', r.iterate src.sdesc (.bytes bs) = some r' ∧ Between src done (part ++ bs) r') ∧
    (part.length + bs.length = src.frameSize →
      ∃ r', r.iterate src.sdesc (.bytes bs) = some r' ∧ Between src (done ++ [f]) [] r') ∧
    (src.frameSize < part.length + bs.length → r.iterate src.sdesc (.bytes bs) = none) := by
  have hf := frameSize_eq src
  refine ⟨fun hlt => ?_, fun heq => ?_, fun hgt => h.body_overrun hbs hreq hgt⟩
  · rcases Nat.lt_or_ge part.length imageHeaderSize with hh | hh
    · obtain ⟨-, -, hm, -⟩ := h.inHeader hh
      rw [h.request_eq, hm] at hreq
      rcases Nat.lt_or_ge (part.length + bs.length) imageHeaderSize with he | he
      · exact h.header_part hbs he
      · obtain ⟨r', hr', hb, -⟩ := h.header_done hbs (by omega) (hp (by omega))
        exact ⟨r', hr', hb (by omega)⟩
    · exact h.body_part hbs hh hlt
  · have hfull : part ++ bs = f.encode := by
      refine (hp (by omega)).eq_of_length ?_
      rw [List.length_append, heq, f.encode_length, hf]
    rcases Nat.lt_or_ge part.length imageHeaderSize with hh | hh
    · obtain ⟨-, -, hm, -⟩ := h.inHeader hh
      rw [h.request_eq, hm] at hreq
      obtain ⟨r', hr', -, hb⟩ := h.header_done hbs (by omega) (hp (by omega))
      exact ⟨r', hr', hb (by omega)⟩
    · exact h.body_done hbs hh hfull

end Reader

/-! ### Whole runs -/

/-- The reader after some reads. -/
def readAll (src : ImageSource) (reads : List Bytes) : Option Reader :=
  sourceDataThreadTcp src.sdesc (reads.map .bytes)

/-- Results that `read` can give of the stream of some frames: its bytes in order, with each
read at least one and at most as many as were asked for. -/
structure Reads (src : ImageSource) (frames : List (Frame src.dataLen)) (reads : List Bytes) :
    Prop where
  stream : reads.flatten <+: encodeAll frames
  size : ∀ pre bs post r, reads = pre ++ bs :: post → readAll src pre = some r →
    bs ≠ [] ∧ bs.length ≤ r.request src.sdesc

/-- The reader stayed inside its buffers, and the calls that it made are the frames that
are complete, in order. -/
def Reassembled (src : ImageSource) (frames : List (Frame src.dataLen)) (reads : List Bytes) :
    Prop :=
  ∃ r, readAll src reads = some r ∧
    r.calls = (frames.take (reads.flatten.length / src.frameSize)).map Frame.call

/-- No read returns bytes of two frames. -/
def NoReadCrosses (src : ImageSource) (reads : List Bytes) : Prop :=
  ∀ pre bs post, reads = pre ++ bs :: post →
    pre.flatten.length % src.frameSize + bs.length ≤ src.frameSize

section Runs

variable {src : ImageSource} {frames done rest : List (Frame src.dataLen)} {part bs : Bytes}
  {r : Reader} {reads : List Bytes}

theorem Reads.of_append {more : List Bytes} (h : Reads src frames (reads ++ more)) :
    Reads src frames reads where
  stream := by
    refine List.IsPrefix.trans ?_ h.stream
    rw [List.flatten_append]
    exact List.prefix_append ..
  size pre bs post r he := h.size pre bs (post ++ more) r (by simp [he])

theorem reads_nil (src : ImageSource) (frames : List (Frame src.dataLen)) : Reads src frames [] where
  stream := List.nil_prefix
  size pre bs post r he := by simp at he

theorem Reads.concat (h : Reads src frames reads)
    (hs : (reads ++ [bs]).flatten <+: encodeAll frames) (hbs : bs ≠ [])
    (hreq : (readAll src reads).all (fun r => bs.length ≤ r.request src.sdesc) = true) :
    Reads src frames (reads ++ [bs]) where
  stream := hs
  size pre b post r he hr := by
    rcases List.eq_nil_or_concat post with rfl | ⟨post, x, rfl⟩
    · obtain ⟨rfl, hb⟩ := List.append_inj' he rfl
      cases hb
      rw [hr] at hreq
      exact ⟨hbs, of_decide_eq_true hreq⟩
    · have he' : reads ++ [bs] = (pre ++ b :: post) ++ [x] := by simpa using he
      exact h.size pre b post r (List.append_inj' he' rfl).1 hr

theorem noReadCrosses_nil (src : ImageSource) : NoReadCrosses src [] :=
  fun pre bs post he => by simp at he

theorem noReadCrosses_concat : NoReadCrosses src (reads ++ [bs]) ↔
    NoReadCrosses src reads ∧ reads.flatten.length % src.frameSize + bs.length ≤ src.frameSize := by
  constructor
  · intro h
    exact ⟨fun pre b post he => h pre b (post ++ [bs]) (by simp [he]), h reads bs [] rfl⟩
  · rintro ⟨h, hlast⟩ pre b post he
    rcases List.eq_nil_or_concat post with rfl | ⟨post, x, rfl⟩
    · obtain ⟨rfl, hb⟩ := List.append_inj' he rfl
      cases hb
      exact hlast
    · have he' : reads ++ [bs] = (pre ++ b :: post) ++ [x] := by simpa using he
      exact h pre b post (List.append_inj' he' rfl).1

theorem readAll_concat (h : readAll src reads = some r) (hx : r.exitFlag = false) :
    readAll src (reads ++ [bs]) = r.iterate src.sdesc (.bytes bs) := by
  rw [readAll, sourceDataThreadTcp] at *
  rw [List.map_append, List.foldlM_append, h]
  simp [hx]

theorem readAll_concat_none (h : readAll src reads = none) : readAll src (reads ++ [bs]) = none := by
  rw [readAll, sourceDataThreadTcp] at *
  rw [List.map_append, List.foldlM_append, h]
  rfl

/-- The reader has handed over the frames `done` and read `part` of the rest. -/
structure Progress (src : ImageSource) (frames done rest : List (Frame src.dataLen)) (part : Bytes)
    (reads : List Bytes) (r : Reader) : Prop where
  frames : frames = done ++ rest
  stream : reads.flatten = encodeAll done ++ part
  run : readAll src reads = some r
  between : Between src done part r

theorem Progress.length (h : Progress src frames done rest part reads r) :
    reads.flatten.length = part.length + src.frameSize * done.length := by
  rw [h.stream, List.length_append, encodeAll_length, frameSize_eq, Nat.mul_comm]
  omega

theorem Progress.mod (h : Progress src frames done rest part reads r) :
    reads.flatten.length % src.frameSize = part.length := by
  rw [h.length, Nat.add_mul_mod_self_left, Nat.mod_eq_of_lt h.between.short]

theorem Progress.div (h : Progress src frames done rest part reads r) :
    reads.flatten.length / src.frameSize = done.length := by
  have hpos : 0 < src.frameSize := Nat.lt_of_le_of_lt (Nat.zero_le _) h.between.short
  rw [h.length, Nat.add_mul_div_left _ _ hpos, Nat.div_eq_of_lt h.between.short, Nat.zero_add]

/-- What the next read returns comes from the frames that are left. -/
theorem Progress.pending (h : Progress src frames done rest part reads r)
    (hs : (reads ++ [bs]).flatten <+: encodeAll frames) : part ++ bs <+: encodeAll rest := by
  rw [h.frames, encodeAll_append, List.flatten_append, h.stream, List.append_assoc] at hs
  simpa using hs

theorem Progress.concat (h : Progress src frames done rest part reads r)
    (hr : Reads src frames (reads ++ [bs])) :
    (part.length + bs.length ≤ src.frameSize →
      ∃ done' rest' part' r', Progress src frames done' rest' part' (reads ++ [bs]) r') ∧
    (src.frameSize < part.length + bs.length → readAll src (reads ++ [bs]) = none) := by
  obtain ⟨hbs, hreq⟩ := hr.size reads bs [] r rfl h.run
  have hpre := h.pending hr.stream
  have hrun : readAll src (reads ++ [bs]) = r.iterate src.sdesc (.bytes bs) :=
    readAll_concat h.run h.between.running
  cases rest with
  | nil =>
    have hnil : part ++ bs = [] := List.prefix_nil.mp hpre
    exact absurd (List.append_eq_nil_iff.mp hnil).2 hbs
  | cons f rest =>
    have hcons : encodeAll (f :: rest) = f.encode ++ encodeAll rest := rfl
    have hf : part.length + bs.length ≤ src.frameSize → part ++ bs <+: f.encode := by
      intro hle
      refine List.prefix_of_prefix_length_le hpre (hcons ▸ List.prefix_append ..) ?_
      rw [List.length_append, f.encode_length]
      exact hle
    obtain ⟨hlt, heq, hgt⟩ := h.between.iterate hbs hreq hf
    have hstream : (reads ++ [bs]).flatten = encodeAll done ++ (part ++ bs) := by
      simp [h.stream]
    refine ⟨fun hle => ?_, fun h' => hrun.trans (hgt h')⟩
    rcases Nat.lt_or_eq_of_le hle with hl | he
    · obtain ⟨r', hr', hb⟩ := hlt hl
      exact ⟨done, f :: rest, part ++ bs, r', h.frames, hstream, hrun.trans hr', hb⟩
    · obtain ⟨r', hr', hb⟩ := heq he
      have hfull : part ++ bs = f.encode := by
        refine (hf hle).eq_of_length ?_
        rw [List.length_append, he, f.encode_length, frameSize_eq]
      refine ⟨done ++ [f], rest, [], r', by simp [h.frames], ?_, hrun.trans hr', hb⟩
      rw [hstream, hfull, encodeAll_append]
      simp [encodeAll]

/-- The reader follows the stream until a read crosses the end of a frame, and no longer. -/
theorem progress (h : Reads src frames reads) :
    (NoReadCrosses src reads → ∃ done rest part r, Progress src frames done rest part reads r) ∧
    (¬ NoReadCrosses src reads → readAll src reads = none) := by
  induction reads using List.reverseRecOn with
  | nil =>
    exact ⟨fun _ => ⟨[], frames, [], _, rfl, rfl, rfl, between_start src⟩,
      fun hn => absurd (noReadCrosses_nil src) hn⟩
  | append_singleton reads bs ih =>
    obtain ⟨hyes, hno⟩ := ih h.of_append
    rw [noReadCrosses_concat]
    refine ⟨fun ⟨hc, hlast⟩ => ?_, fun hn => ?_⟩
    · obtain ⟨done, rest, part, r, hp⟩ := hyes hc
      rw [hp.mod] at hlast
      exact (hp.concat h).1 hlast
    · by_cases hc : NoReadCrosses src reads
      · obtain ⟨done, rest, part, r, hp⟩ := hyes hc
        have hlast : ¬ reads.flatten.length % src.frameSize + bs.length ≤ src.frameSize :=
          fun hle => hn ⟨hc, hle⟩
        rw [hp.mod] at hlast
        exact (hp.concat h).2 (Nat.lt_of_not_le hlast)
      · exact readAll_concat_none (hno hc)

/-- The reader hands over the frames of the stream exactly when no read returns bytes of
two frames. -/
theorem frames_reassembled (src : ImageSource) (frames : List (Frame src.dataLen))
    (reads : List Bytes) (h : Reads src frames reads) :
    Reassembled src frames reads ↔ NoReadCrosses src reads := by
  obtain ⟨hyes, hno⟩ := progress h
  constructor
  · rintro ⟨r, hr, -⟩
    by_contra hc
    rw [hno hc] at hr
    cases hr
  · intro hc
    obtain ⟨done, rest, part, r, hp⟩ := hyes hc
    refine ⟨r, hp.run, ?_⟩
    rw [hp.between.calls, hp.div, hp.frames, List.take_left]

/-- A source of images of four bytes. -/
def fourBytes : ImageSource := ⟨4, by decide⟩

/-- Two frames of it. -/
def twoFrames : List (Frame fourBytes.dataLen) := [⟨7, [1, 2, 3, 4], rfl⟩, ⟨8, [5, 6, 7, 8], rfl⟩]

/-- Reads of the two frames: the first header with two reads, then `n` bytes. -/
def splitHeader (n : ℕ) : List Bytes :=
  let stream := encodeAll twoFrames
  [stream.take 4, (stream.drop 4).take 8, (stream.drop 12).take n]

theorem frames_reassembled_split :
    Reads fourBytes twoFrames (splitHeader 4) ∧ Reassembled fourBytes twoFrames (splitHeader 4) := by
  have h : Reads fourBytes twoFrames (splitHeader 4) :=
    (((reads_nil _ _).concat (by decide) (by decide) (by decide)).concat (by decide) (by decide)
      (by decide)).concat (by decide) (by decide) (by decide)
  have hc : NoReadCrosses fourBytes (splitHeader 4) :=
    noReadCrosses_concat.mpr ⟨noReadCrosses_concat.mpr ⟨noReadCrosses_concat.mpr
      ⟨noReadCrosses_nil _, by decide⟩, by decide⟩, by decide⟩
  exact ⟨h, (frames_reassembled _ _ _ h).mpr hc⟩

/-- The header comes with reads of 4 and 8 bytes, so the next read asks for 8 bytes and gets
the image of 4 bytes with the first 4 bytes of the next header. -/
theorem frames_reassembled_overrun :
    Reads fourBytes twoFrames (splitHeader 8) ∧
    ¬ Reassembled fourBytes twoFrames (splitHeader 8) := by
  refine ⟨(((reads_nil _ _).concat (by decide) (by decide) (by decide)).concat (by decide)
    (by decide) (by decide)).concat (by decide) (by decide) (by decide), ?_⟩
  rintro ⟨r, hr, -⟩
  have hnone : (readAll fourBytes (splitHeader 8)).isNone = true := by decide
  rw [hr] at hnone
  cases hnone

end Runs

end TmkDcl.Collector
