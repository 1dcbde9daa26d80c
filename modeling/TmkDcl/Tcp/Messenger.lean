import TmkDcl.Lines
import TmkDcl.Tcp.Connection

/-!
# The messenger (tcp/src/messenger.c)

`tcp_server_process` and `event_thread` read a connection that `epoll` reports and let
`connection_extract_message` look for a message. Where it finds a newline it leaves the line
in the buffer, with NUL for the newline, and the offset as it is (`messenger.c:446-458`). The
lines that would consume the message stand behind the other return, where `endl` is NULL
(`messenger.c:460-463`): the `memmove` from address 1 is undefined behaviour.
-/

namespace TmkDcl.Tcp.Messenger

/-- `struct message` (`messenger.h:40-49`): the length and the text. -/
structure Message where
  msgLen : ℕ
  msgString : Bytes
  deriving DecidableEq

/-- `read_connection_data` (`messenger.c:118-141`) with what `read` returns; no bytes stand for
0 and for an error. -/
def readConnectionData (conn : Connection) (bs : Bytes) : ℕ × Connection :=
  if conn.buffer.length - conn.offset = 0 then (1, conn)
  else if bs = [] then (1, conn)
  else (0, { conn with
    buffer := storeAt conn.buffer conn.offset bs
    offset := conn.offset + bs.length })

/-- `connection_extract_message` (`messenger.c:440-464`): the connection and the message it
returns 1 with; `none` is the `memmove` through the NULL pointer. -/
def connectionExtractMessage (conn : Connection) : Option (Connection × Option Message) :=
  match memchr conn.buffer newline conn.offset with
  | some endl =>
    let buffer := conn.buffer.set endl 0
    let msgString := cString buffer
    some ({ conn with buffer := buffer }, some ⟨msgString.length, msgString⟩)
  | none => none

/-- A connection of a loop, with the messages that were handed to the callback for it;
`connection_delete` leaves no connection. -/
structure Loop where
  conn : Option Connection
  messages : List Message

/-- The handling of a readable connection. -/
def handleEvent (loop : Loop) (bs : Bytes) : Option Loop :=
  match loop.conn with
  | none => some loop
  | some conn =>
    match readConnectionData conn bs with
    | (1, _) => some { loop with conn := none }
    | (_, conn) =>
      (connectionExtractMessage conn).map fun (conn, msg) =>
        { conn := some conn, messages := loop.messages ++ msg.toList }

/-- The reads of a connection in the loop of the server (`messenger.c:608-632`). -/
def tcpServerProcess (reads : List Bytes) : Option Loop :=
  reads.foldlM handleEvent ⟨some connectionAdd, []⟩

/-- The reads of a connection in the loop of the client (`messenger.c:347-370`). -/
def eventThread (reads : List Bytes) : Option Loop :=
  reads.foldlM handleEvent ⟨some connectionAdd, []⟩

/-- The two sides of a connection. -/
inductive Side where
  | server
  | client

def Side.run : Side → List Bytes → Option Loop
  | .server => tcpServerProcess
  | .client => eventThread

/-! ### What the extraction does -/

section Extract

variable {conn conn' : Connection} {msg : Option Message} {bs : Bytes}

/-- The bytes that wait in the buffer. -/
def pending (conn : Connection) : Bytes := conn.buffer.take conn.offset

/-- The extraction takes the first line and its newline out of the buffer, or finds none and
leaves the buffer and the offset as they are. -/
def ExtractsLine (conn : Connection) : Prop :=
  ∃ conn' msg, connectionExtractMessage conn = some (conn', msg) ∧
    match msg with
    | some msg => ∃ l t, newline ∉ l ∧ pending conn = l ++ newline :: t ∧
        msg = ⟨l.length, l⟩ ∧ pending conn' = t
    | none => newline ∉ pending conn ∧ conn'.buffer = conn.buffer ∧ conn'.offset = conn.offset

theorem extract_keeps (h : connectionExtractMessage conn = some (conn', msg)) :
    msg.isSome ∧ conn'.offset = conn.offset ∧ (pending conn').length = (pending conn).length := by
  rw [connectionExtractMessage] at h
  split at h
  · cases h
    exact ⟨rfl, rfl, by simp [pending]⟩
  · cases h

theorem not_extractsLine (conn : Connection) : ¬ ExtractsLine conn := by
  rintro ⟨conn', msg, h, hm⟩
  obtain ⟨hsome, -, hlen⟩ := extract_keeps h
  cases msg with
  | none => cases hsome
  | some msg =>
    obtain ⟨l, t, -, hp, -, ht⟩ := hm
    rw [hp, ht, List.length_append, List.length_cons] at hlen
    omega

end Extract

/-! ### Whole runs -/

/-- Reads of a stream of lines shorter than `MAX_MSG_LEN`, each of some bytes that fit. -/
structure Arrives (side : Side) (reads : List Bytes) : Prop where
  lines : ShortLines newline (maxMsgLen - 1) reads.flatten
  reads : ∀ pre bs post loop conn, reads = pre ++ bs :: post → side.run pre = some loop →
    loop.conn = some conn →
    bs.length ≤ conn.buffer.length - conn.offset ∧ (conn.offset < conn.buffer.length → bs ≠ [])

/-- The messages are the lines of the stream, and each extraction on the way does what it
is for, with the offset inside the buffer. -/
def MessagesFramed (side : Side) (reads : List Bytes) : Prop :=
  (∃ loop, side.run reads = some loop ∧
    loop.messages = (lines newline reads.flatten).map fun l => ⟨l.length, l⟩) ∧
  ∀ pre bs post loop conn, reads = pre ++ bs :: post → side.run pre = some loop →
    loop.conn = some conn →
    (readConnectionData conn bs).2.offset ≤ maxMsgLen + 1 ∧
    ((readConnectionData conn bs).1 = 0 → ExtractsLine (readConnectionData conn bs).2)

theorem run_nil (side : Side) : side.run [] = some ⟨some connectionAdd, []⟩ := by
  cases side <;> rfl

/-- The messages of a connection are framed only as long as nothing was read from it. -/
theorem message_framing (side : Side) (reads : List Bytes) (h : Arrives side reads) :
    MessagesFramed side reads ↔ reads = [] := by
  constructor
  · rintro ⟨-, hall⟩
    by_contra hne
    obtain ⟨bs, post, rfl⟩ := List.exists_cons_of_ne_nil hne
    have hbs : bs ≠ [] := (h.reads [] bs post _ _ rfl (run_nil side) rfl).2 (by decide +kernel)
    have hread : (readConnectionData connectionAdd bs).1 = 0 := by
      have hroom : connectionAdd.buffer.length - connectionAdd.offset ≠ 0 := by decide +kernel
      rw [readConnectionData, if_neg hroom, if_neg hbs]
    exact not_extractsLine _ ((hall [] bs post _ _ rfl (run_nil side) rfl).2 hread)
  · rintro rfl
    refine ⟨⟨_, run_nil side, rfl⟩, fun pre bs post loop conn he => by simp at he⟩

theorem arrives_nil (side : Side) : Arrives side [] where
  lines := ⟨fun l hl => by simp [TmkDcl.lines] at hl, Nat.zero_le _⟩
  reads pre bs post loop conn he := by simp at he

theorem arrives_single (side : Side) {bs : Bytes} (hl : ShortLines newline (maxMsgLen - 1) bs)
    (hbs : bs ≠ []) (hlen : bs.length ≤ maxMsgLen + 1) : Arrives side [bs] where
  lines := by simpa using hl
  reads pre b post loop conn he hrun hconn := by
    have hpre : pre = [] ∧ b = bs ∧ post = [] := by
      cases pre with
      | nil => simpa [eq_comm] using he
      | cons x pre => simp at he
    obtain ⟨rfl, rfl, rfl⟩ := hpre
    rw [run_nil] at hrun
    cases hrun
    cases hconn
    have hroom : connectionAdd.buffer.length - connectionAdd.offset = maxMsgLen + 1 := by
      decide +kernel
    exact ⟨hroom ▸ hlen, fun _ => hbs⟩

theorem message_framing_unread : MessagesFramed .server [] ∧
    Arrives .client [literal "a\n"] ∧ ¬ MessagesFramed .client [literal "a\n"] := by
  have h : Arrives .client [literal "a\n"] :=
    arrives_single .client (by decide) (by decide) (by decide)
  refine ⟨(message_framing .server [] (arrives_nil .server)).mpr rfl, h, fun hf => ?_⟩
  have hnil := (message_framing .client _ h).mp hf
  cases hnil

/-- Two lines with one read each: the callback gets the first one twice. -/
theorem message_framing_two_lines :
    (tcpServerProcess [literal "a\n", literal "b\n"]).map Loop.messages =
      some [⟨1, literal "a"⟩, ⟨1, literal "a"⟩] ∧
    ¬ MessagesFramed .server [literal "a\n", literal "b\n"] := by
  have hrun : (tcpServerProcess [literal "a\n", literal "b\n"]).map Loop.messages =
      some [⟨1, literal "a"⟩, ⟨1, literal "a"⟩] := by decide +kernel
  refine ⟨hrun, ?_⟩
  rintro ⟨⟨loop, hloop, hmsgs⟩, -⟩
  rw [show tcpServerProcess _ = some loop from hloop, Option.map_some, hmsgs] at hrun
  revert hrun
  decide

/-! ### Which message the callback gets -/

/-- The line of the messages so far stands at the start of the buffer, with its NUL. -/
structure Stays (loop : Loop) (l : Bytes) : Prop where
  messages : ∀ msg ∈ loop.messages, msg = ⟨l.length, l⟩
  buffer : ∀ conn, loop.conn = some conn → loop.messages ≠ [] →
    conn.buffer.take (l.length + 1) = l ++ [0] ∧ 0 ∉ l ∧ newline ∉ l ∧ l.length < conn.offset

section Stays

variable {loop loop' : Loop} {l bs : Bytes} {conn conn' : Connection} {msg : Option Message}

/-- After the first message every extraction finds the line of it again. -/
theorem extract_again (hb : conn.buffer.take (l.length + 1) = l ++ [0]) (h0 : 0 ∉ l)
    (hn : newline ∉ l) (h : connectionExtractMessage conn = some (conn', msg)) :
    msg = some ⟨l.length, l⟩ ∧ conn'.buffer.take (l.length + 1) = l ++ [0] ∧
    conn'.offset = conn.offset := by
  rw [connectionExtractMessage] at h
  split at h
  · rename_i i hm
    cases h
    obtain ⟨hi, hil, hno, hcut⟩ := memchr_eq_some hm
    have hlt : l.length + 1 ≤ i := by
      by_contra hle
      have hget : (conn.buffer.take conn.offset)[i]? = some newline := by
        rw [hcut, List.getElem?_append_right (by rw [List.length_take]; omega), List.length_take,
          Nat.min_eq_left (Nat.le_of_lt hil), Nat.sub_self, List.getElem?_cons_zero]
      rw [List.getElem?_take_of_lt hi] at hget
      have hget' : (l ++ [0])[i]? = some newline := by
        rw [← hb, List.getElem?_take_of_lt (by omega), hget]
      have hmem := List.mem_of_getElem? hget'
      rcases List.mem_append.mp hmem with hmem | hmem
      · exact hn hmem
      · exact absurd (List.mem_singleton.mp hmem) (by decide)
    have htake : (conn.buffer.set i 0).take (l.length + 1) = l ++ [0] := by
      rw [List.take_set_of_le hlt, hb]
    have hstr : cString (conn.buffer.set i 0) = l := by
      rw [← List.take_append_drop (l.length + 1) (conn.buffer.set i 0), htake, List.append_assoc,
        List.singleton_append, cString_append]
      exact cString_eq_self.mpr h0
    exact ⟨by rw [hstr], htake, rfl⟩
  · cases h

theorem extract_first (h : connectionExtractMessage conn = some (conn', msg)) :
    ∃ l, msg = some ⟨l.length, l⟩ ∧ conn'.buffer.take (l.length + 1) = l ++ [0] ∧ 0 ∉ l ∧
    newline ∉ l ∧ l.length < conn'.offset := by
  rw [connectionExtractMessage] at h
  split at h
  · rename_i i hm
    cases h
    obtain ⟨hi, hil, hno, -⟩ := memchr_eq_some hm
    have hset : conn.buffer.set i 0 = conn.buffer.take i ++ 0 :: conn.buffer.drop (i + 1) := by
      rw [List.set_eq_take_append_cons_drop, if_pos hil]
    have hnul : 0 ∈ conn.buffer.set i 0 := by
      rw [hset]
      simp
    have hpre : cString (conn.buffer.set i 0) <+: conn.buffer.take i := by
      rw [hset, cString_append]
      exact List.takeWhile_prefix _
    have hle := hpre.length_le
    rw [List.length_take] at hle
    refine ⟨cString (conn.buffer.set i 0), rfl, take_cString hnul, not_mem_cString _, ?_, ?_⟩
    · exact fun hm => hno (hpre.subset hm)
    · simp only
      omega
  · cases h

theorem readConnectionData_take (hr : (readConnectionData conn bs).1 = 0) {k : ℕ}
    (hk : k ≤ conn.offset) :
    (readConnectionData conn bs).2.buffer.take k = conn.buffer.take k ∧
    conn.offset ≤ (readConnectionData conn bs).2.offset := by
  simp only [readConnectionData] at hr ⊢
  split at hr
  · cases hr
  · rename_i hroom
    split at hr
    · cases hr
    · rename_i hbs
      rw [if_neg hroom, if_neg hbs]
      refine ⟨?_, Nat.le_add_right ..⟩
      simp only [storeAt, List.append_assoc]
      rw [List.take_append_of_le_length (by rw [List.length_take]; omega), List.take_take,
        Nat.min_eq_left hk]

theorem readConnectionData_fst (conn : Connection) (bs : Bytes) :
    (readConnectionData conn bs).1 = 0 ∨ (readConnectionData conn bs).1 = 1 := by
  simp only [readConnectionData]
  split
  · exact .inr rfl
  · split
    · exact .inr rfl
    · exact .inl rfl

theorem Stays.handle (hs : Stays loop l) (h : handleEvent loop bs = some loop') :
    ∃ l', Stays loop' l' := by
  rw [handleEvent] at h
  split at h
  · cases h
    exact ⟨l, hs⟩
  · rename_i conn hconn
    split at h
    · cases h
      exact ⟨l, hs.messages, fun conn hc => by cases hc⟩
    · rename_i rc conn₁ hne hrc
      obtain ⟨⟨conn', msg⟩, hex, rfl⟩ := Option.map_eq_some_iff.mp h
      by_cases hm : loop.messages = []
      · obtain ⟨l', rfl, hl'⟩ := extract_first hex
        refine ⟨l', fun x hx => by simpa [hm] using hx, fun c hc _ => ?_⟩
        cases hc
        exact hl'
      · obtain ⟨hb, h0, hn, ho⟩ := hs.buffer conn hconn hm
        have hzero : (readConnectionData conn bs).1 = 0 := by
          have hor := readConnectionData_fst conn bs
          rw [hrc] at hor ⊢
          exact hor.resolve_right hne
        obtain ⟨htake, hoff⟩ := readConnectionData_take hzero ho
        rw [hrc] at htake hoff
        obtain ⟨rfl, hb', ho'⟩ := extract_again (htake.trans hb) h0 hn hex
        refine ⟨l, fun x hx => ?_, fun c hc _ => ?_⟩
        · rcases List.mem_append.mp hx with hx | hx
          · exact hs.messages x hx
          · simpa using hx
        · cases hc
          exact ⟨hb', h0, hn, by simp only [ho']; exact Nat.lt_of_lt_of_le ho hoff⟩

/-- All messages of a connection are its first line, however many lines arrive. -/
theorem messages_same (side : Side) (reads : List Bytes) (h : side.run reads = some loop) :
    ∃ l : Bytes, ∀ msg ∈ loop.messages, msg = ⟨l.length, l⟩ := by
  have hrun : side.run reads = reads.foldlM handleEvent ⟨some connectionAdd, []⟩ := by
    cases side <;> rfl
  rw [hrun] at h
  clear hrun
  suffices ∃ l, Stays loop l by
    obtain ⟨l, hl⟩ := this
    exact ⟨l, hl.messages⟩
  have h0 : ∃ l, Stays ⟨some connectionAdd, []⟩ l :=
    ⟨[], fun msg hm => by simp at hm, fun conn _ hne => absurd rfl hne⟩
  generalize (⟨some connectionAdd, []⟩ : Loop) = loop₀ at h h0
  induction reads generalizing loop₀ with
  | nil =>
    cases h
    exact h0
  | cons bs reads ih =>
    obtain ⟨loop₁, h1, h2⟩ := Option.bind_eq_some_iff.mp h
    obtain ⟨l, hl⟩ := h0
    exact ih loop₁ h2 (hl.handle h1)

end Stays

end TmkDcl.Tcp.Messenger
