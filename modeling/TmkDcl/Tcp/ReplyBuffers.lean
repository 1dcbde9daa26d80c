import TmkDcl.Storage.StorageInterface
import TmkDcl.Tcp.TcpProcess

/-!
# Copies of a request (tcp/src/tcp_process.c, tcp/src/command_server.c)

A request of the server is printed into `connection->reply`, by the reciever and then by the sender
or in place of a missing one, and copied into the `full_command` of a command.
-/

namespace TmkDcl.Tcp

open TmkDcl.Storage (decimal digits sign)

/-- `%lx`. -/
def hex (n : ℕ) : Bytes := (Nat.toDigits 16 n).map fun c => UInt8.ofNat c.toNat

/-- `COMMAND_BUF_LEN` (`command_server.h:4`). -/
def commandBufLen : ℕ := 512

/-- A reply: its length as the code computes it, and what it says of the request. -/
def replyText (len : ℕ) (fd : Int32) (said : Bytes) (tail : String) : Bytes :=
  literal "RE" ++ hex len ++ literal "\x7b0:" ++ decimal fd.toInt ++ said ++ literal tail

/-- The reply of `default_server_reciever` (`tcp_process.c:29-40`). -/
def recieverReply (fd : Int32) (request : Bytes) : Bytes :=
  if defaultServerReciever 0 request then replyText 28 fd [] ", stop command recieved\x7d\n"
  else replyText (request.length + 24 + 2) fd (literal "," ++ request) ",recieved ok\x7d"

/-- The reply of `default_server_sender` (`tcp_process.c:57`). -/
def senderReply (fd : Int32) (request : Bytes) : Bytes :=
  replyText (request.length + 32 + 2) fd (literal "," ++ request) ",sent from sender ok\x7d"

/-- The reply in place of a missing sender (`tcp_process.c:231`). -/
def inlineReply (fd : Int32) (request : Bytes) : Bytes :=
  replyText (request.length + 20 + 2) fd (literal "," ++ request) ",sent ok\x7d\n"

/-- A string and its NUL go into a buffer of this size. -/
def FitsIn (size : ℕ) (text : Bytes) : Prop := text.length + 1 ≤ size

/-- Every copy of the request goes into its buffer. -/
structure CopiesFit (fd : Int32) (request : Bytes) : Prop where
  reciever : FitsIn (maxMsgLen + 1) (recieverReply fd request)
  sender : FitsIn (maxMsgLen + 1) (senderReply fd request)
  inlined : FitsIn (maxMsgLen + 1) (inlineReply fd request)
  command : FitsIn commandBufLen request

section Lengths

variable {fd : Int32} {request said : Bytes} {len n : ℕ} {tail : String}

theorem hex_length_le_iff {k : ℕ} (hk : 0 < k) : (hex n).length ≤ k ↔ n < 16 ^ k := by
  rw [hex, List.length_map]
  exact Nat.length_toDigits_le_iff (by decide) hk

theorem digits_length_le_iff {k : ℕ} (hk : 0 < k) : (digits n).length ≤ k ↔ n < 10 ^ k := by
  rw [digits, List.length_map]
  exact Nat.length_toDigits_le_iff (by decide) hk

theorem decimal_length (fd : Int32) :
    1 ≤ (decimal fd.toInt).length ∧ (decimal fd.toInt).length ≤ 11 := by
  have hlow := fd.le_toInt
  have hhigh := fd.toInt_lt
  have hdigits : (digits fd.toInt.natAbs).length ≤ 10 :=
    (digits_length_le_iff (by decide)).mpr (by omega)
  have hpos : 0 < (digits fd.toInt.natAbs).length := by
    rw [digits, List.length_map]
    exact Nat.length_toDigits_pos
  have hsign : (sign fd.toInt).length ≤ 1 := by
    unfold sign
    split
    · decide
    · decide
  rw [decimal, List.length_append]
  omega

theorem replyText_length : (replyText len fd said tail).length =
    (hex len).length + (decimal fd.toInt).length + said.length + (literal tail).length + 5 := by
  have hstart : (literal "RE").length = 2 := by decide
  have hopen : (literal "\x7b0:").length = 3 := by decide
  simp only [replyText, List.length_append, hstart, hopen]
  omega

theorem comma_length : (literal "," ++ request).length = request.length + 1 := by
  rw [List.length_append, Nat.add_comm]
  rfl

theorem senderReply_length : (senderReply fd request).length =
    request.length + (hex (request.length + 32 + 2)).length + (decimal fd.toInt).length + 27 := by
  have htail : (literal ",sent from sender ok\x7d").length = 21 := by decide
  rw [senderReply, replyText_length, comma_length, htail]
  omega

theorem inlineReply_length : (inlineReply fd request).length =
    request.length + (hex (request.length + 20 + 2)).length + (decimal fd.toInt).length + 16 := by
  have htail : (literal ",sent ok\x7d\n").length = 10 := by decide
  rw [inlineReply, replyText_length, comma_length, htail]
  omega

theorem recieverReply_length (fd : Int32) (request : Bytes) : (recieverReply fd request).length ≤
    max 43 (request.length + (hex (request.length + 24 + 2)).length +
      (decimal fd.toInt).length + 19) := by
  have hstop : (literal ", stop command recieved\x7d\n").length = 25 := by decide
  have hhex : (hex 28).length = 2 := by decide
  have htail : (literal ",recieved ok\x7d").length = 13 := by decide
  have hdec := decimal_length fd
  unfold recieverReply
  split
  · rw [replyText_length, hstop, hhex, List.length_nil]
    omega
  · rw [replyText_length, comma_length, htail]
    omega

/-- The reply of the sender is the longest, and the copies fit if and only if it does. -/
theorem copiesFit_iff (hlen : request.length ≤ maxMsgLen) :
    CopiesFit fd request ↔ request.length + (decimal fd.toInt).length ≤ 482 := by
  unfold maxMsgLen at hlen
  have hdec := decimal_length fd
  have hhex : ∀ n ≤ 546, (hex n).length ≤ 3 :=
    fun n hn => (hex_length_le_iff (by decide)).mpr (by omega)
  constructor
  · intro h
    have hsender := h.sender
    rw [FitsIn, senderReply_length, maxMsgLen] at hsender
    by_cases hshort : request.length < 222
    · omega
    · have hthree : ¬ (hex (request.length + 32 + 2)).length ≤ 2 := by
        rw [hex_length_le_iff (by decide)]
        omega
      omega
  · intro h
    have h1 := hhex (request.length + 32 + 2) (by omega)
    have h2 := hhex (request.length + 20 + 2) (by omega)
    have h3 := hhex (request.length + 24 + 2) (by omega)
    have hreciever := recieverReply_length fd request
    refine ⟨?_, ?_, ?_, ?_⟩
    · rw [FitsIn, maxMsgLen]
      omega
    · rw [FitsIn, senderReply_length, maxMsgLen]
      omega
    · rw [FitsIn, inlineReply_length, maxMsgLen]
      omega
    · rw [FitsIn, commandBufLen]
      omega

end Lengths

/-! ### The requests of the server -/

section Requests

variable {c c' : Connection} {bs request : Bytes}

/-- A line that the server takes out of its buffer has room for the newline behind it. -/
theorem request_length_le (hc : c.Wf) (hbs : bs.length ≤ c.remainder)
    (hr : c.receive bs = (c', some request)) : request.length ≤ maxMsgLen := by
  obtain ⟨-, ⟨-, hnone, -⟩ | ⟨l, t, -, hcut, hsome, -⟩⟩ := receive_spec hc hbs hr
  · cases hnone
  · have hle : request.length ≤ l.length := by
      rw [Option.some.inj hsome]
      exact (List.takeWhile_sublist _).length_le
    have hlen := congrArg List.length hcut
    rw [List.length_append, hc.buffered_length, List.length_append, List.length_cons] at hlen
    have hroom := hc.length
    have hused := hc.used_le
    rw [Connection.remainder] at hbs
    omega

/-- All copies of a request fit exactly if it leaves room for the descriptor in the longest reply. -/
theorem copies_of_request_fit (hc : c.Wf) (hbs : bs.length ≤ c.remainder)
    (hr : c.receive bs = (c', some request)) (fd : Int32) :
    CopiesFit fd request ↔ request.length + (decimal fd.toInt).length ≤ 482 :=
  copiesFit_iff (request_length_le hc hbs hr)

theorem copies_of_get_fit : CopiesFit 5 (literal "GET") := by
  have hbs : (literal "GET\n").length ≤ connectionAdd.remainder := by decide +kernel
  have hr : connectionAdd.receive (literal "GET\n") =
      ((connectionAdd.receive (literal "GET\n")).1, some (literal "GET")) :=
    Prod.ext rfl (by decide +kernel)
  exact (copies_of_request_fit connectionAdd_wf hbs hr 5).mpr (by decide +kernel)

/-- The longest line that the request buffer can hold does not fit. -/
theorem copies_of_longest_do_not_fit :
    (connectionAdd.receive (List.replicate 512 97 ++ [10])).2 = some (List.replicate 512 97) ∧
      ¬ CopiesFit 5 (List.replicate 512 97) := by
  refine ⟨by decide +kernel, ?_⟩
  rw [copiesFit_iff (by decide +kernel)]
  decide +kernel

end Requests

end TmkDcl.Tcp
