import Mathlib.Data.List.Induction
import TmkDcl.Lines
import TmkDcl.Tcp.Connection

/-!
# The reply loop (tcp/src/tcp_process.c)

`_tcp_client_process` sends a request and reads once, and gives its reply buffer to `reciever`
whether there is a newline in it or not. Without a newline it goes on with a null pointer. Requests
that cannot be sent and the exit flag end the loop; the reads here are those that it makes.
-/

namespace TmkDcl.Tcp.TcpClient

/-- `reciever`, or none for the default one: what it returns for the strings that it has been
called with so far. It does not touch the connection. -/
abbrev Reciever := Option (List Bytes → ℤ)

/-- The loop goes back to its start: the result of `default_client_reciever` is not looked at. -/
def Reciever.fails (r : Reciever) (handed : List Bytes) : Bool :=
  match r with
  | none => false
  | some f => f handed == -1

/-- The reply buffer of the connection, and the strings that `reciever` was called with. -/
structure Client where
  reply : Bytes
  replyUsed : ℕ
  handed : List Bytes

/-- `connection_add`; the struct is zeroed. -/
def connected : Client := ⟨List.replicate (maxMsgLen + 1) 0, 0, []⟩

/-- The room in the reply buffer (`tcp_process.c:327`). -/
def Client.remainder (c : Client) : ℕ := c.reply.length - c.replyUsed

/-- The bytes that are in the buffer. -/
def Client.buffered (c : Client) : Bytes := c.reply.take c.replyUsed

/-- The handling of what a read returns (`tcp_process.c:341-367`); nothing where it moves memory
from behind the null pointer. -/
def Client.receive (r : Reciever) (c : Client) (bs : Bytes) : Option Client :=
  let reply := storeAt c.reply c.replyUsed bs
  let used := c.replyUsed + bs.length
  match memchr reply newline used with
  | some endl =>
    let reply := reply.set endl 0
    let handed := c.handed ++ [cString reply]
    if r.fails handed then some ⟨reply, used, handed⟩
    else some ⟨memmoveDown reply (endl + 1), used - (endl + 1), handed⟩
  | none =>
    let handed := c.handed ++ [cString reply]
    if r.fails handed then some ⟨reply, used, handed⟩ else none

/-- The loop over what its reads return. -/
def tcpClientProcess (r : Reciever) (reads : List Bytes) : Option Client :=
  reads.foldlM (Client.receive r) connected

/-- The stream is that of the replies, and each read returns something that there is room for. -/
structure Delivers (r : Reciever) (replies reads : List Bytes) : Prop where
  stream : reads.flatten = unlines newline replies
  lines : ∀ l ∈ replies, newline ∉ l ∧ l.length ≤ maxMsgLen
  fits : ∀ pre bs post c, reads = pre ++ bs :: post → tcpClientProcess r pre = some c →
    bs ≠ [] ∧ bs.length ≤ c.remainder

/-- The lines that were handed over, and what is in the buffer, are the stream so far, and
`reply_used` counts what is in the buffer. -/
structure Client.Holds (c : Client) (s : Bytes) : Prop where
  stream : unlines newline c.handed ++ c.buffered = s
  used : c.buffered.length = c.replyUsed
  room : c.replyUsed ≤ maxMsgLen + 1

/-- After every read the loop goes on with the stream so far, and in the end `reciever` has got each
reply once, in order. -/
structure RepliesFramed (r : Reciever) (replies reads : List Bytes) : Prop where
  kept : ∀ pre, pre <+: reads → ∃ c, tcpClientProcess r pre = some c ∧ c.Holds pre.flatten
  all : ∀ c, tcpClientProcess r reads = some c → c.handed = replies

/-- A reply is complete with each read, and with the last read the last; no reply has a NUL, and
`reciever` returns -1 for none. -/
structure OneByOne (r : Reciever) (replies reads : List Bytes) : Prop where
  complete : ∀ pre, pre <+: reads → pre.length ≤ pre.flatten.count newline
  last : reads.length = replies.length
  nul : ∀ l ∈ replies, 0 ∉ l
  returns : ∀ handed, handed <+: replies → handed ≠ [] → r.fails handed = false

/-! ### One read -/

structure Client.Wf (c : Client) : Prop where
  length : c.reply.length = maxMsgLen + 1
  used_le : c.replyUsed ≤ maxMsgLen + 1

section Receive

variable {r : Reciever} {c c' : Client} {bs l t s : Bytes}

theorem connected_wf : connected.Wf := ⟨List.length_replicate, Nat.zero_le _⟩

theorem Client.Wf.buffered_length (h : c.Wf) : c.buffered.length = c.replyUsed := by
  rw [buffered, List.length_take, h.length]
  exact Nat.min_eq_left h.used_le

theorem store_spec (h : c.Wf) (hbs : bs.length ≤ c.remainder) :
    (storeAt c.reply c.replyUsed bs).length = maxMsgLen + 1 ∧
      c.replyUsed + bs.length ≤ maxMsgLen + 1 ∧
      (storeAt c.reply c.replyUsed bs).take (c.replyUsed + bs.length) = c.buffered ++ bs := by
  have hu := h.used_le
  have hl := h.length
  rw [Client.remainder, hl] at hbs
  have hfit : c.replyUsed + bs.length ≤ c.reply.length := by omega
  exact ⟨(storeAt_length hfit).trans hl, by omega,
    take_storeAt rfl (Nat.le_trans (Nat.le_add_right ..) hfit)⟩

/-- What is left of a read that hands over a text and consumes nothing. -/
def Stuck (r : Reciever) (c : Client) (bs : Bytes) : Prop :=
  ∀ c', c.receive r bs = some c' → c'.Wf ∧ c'.replyUsed = c.replyUsed + bs.length ∧
    ∃ text, c'.handed = c.handed ++ [text]

theorem receive_none
    (hm : memchr (storeAt c.reply c.replyUsed bs) newline (c.replyUsed + bs.length) = none) :
    c.receive r bs =
      if r.fails (c.handed ++ [cString (storeAt c.reply c.replyUsed bs)]) then
        some ⟨storeAt c.reply c.replyUsed bs, c.replyUsed + bs.length,
          c.handed ++ [cString (storeAt c.reply c.replyUsed bs)]⟩
      else none := by
  simp only [Client.receive, hm]

theorem receive_some {i : ℕ} (hil : i < (storeAt c.reply c.replyUsed bs).length)
    (hm : memchr (storeAt c.reply c.replyUsed bs) newline (c.replyUsed + bs.length) = some i) :
    c.receive r bs =
      if r.fails (c.handed ++ [cString ((storeAt c.reply c.replyUsed bs).take i)]) then
        some ⟨(storeAt c.reply c.replyUsed bs).set i 0, c.replyUsed + bs.length,
          c.handed ++ [cString ((storeAt c.reply c.replyUsed bs).take i)]⟩
      else
        some ⟨memmoveDown ((storeAt c.reply c.replyUsed bs).set i 0) (i + 1),
          c.replyUsed + bs.length - (i + 1),
          c.handed ++ [cString ((storeAt c.reply c.replyUsed bs).take i)]⟩ := by
  have htext : cString ((storeAt c.reply c.replyUsed bs).set i 0) =
      cString ((storeAt c.reply c.replyUsed bs).take i) := by
    rw [List.set_eq_take_append_cons_drop, if_pos hil, cString_append]
  simp only [Client.receive, hm, htext]

theorem receive_spec (r : Reciever) (h : c.Wf) (hbs : bs.length ≤ c.remainder) :
    (newline ∉ c.buffered ++ bs ∧ Stuck r c bs) ∨
    ∃ l t, newline ∉ l ∧ c.buffered ++ bs = l ++ newline :: t ∧
      ((r.fails (c.handed ++ [cString l]) = true ∧ Stuck r c bs) ∨
        r.fails (c.handed ++ [cString l]) = false ∧ ∃ c', c.receive r bs = some c' ∧ c'.Wf ∧
          c'.handed = c.handed ++ [cString l] ∧ c'.buffered = t) := by
  obtain ⟨hlen, hused, htake⟩ := store_spec h hbs
  cases hm : memchr (storeAt c.reply c.replyUsed bs) newline (c.replyUsed + bs.length) with
  | none =>
    have hno := memchr_eq_none.mp hm
    rw [htake] at hno
    refine .inl ⟨hno, ?_⟩
    intro c' hc'
    rw [receive_none hm] at hc'
    split at hc'
    · obtain rfl := Option.some.inj hc'
      exact ⟨⟨hlen, hused⟩, rfl, _, rfl⟩
    · cases hc'
  | some i =>
    obtain ⟨hi, hil, hno, hcut⟩ := memchr_eq_some hm
    rw [htake] at hcut
    have hset : ((storeAt c.reply c.replyUsed bs).set i 0).length = maxMsgLen + 1 := by
      rw [List.length_set, hlen]
    have heq := receive_some (r := r) hil hm
    refine .inr ⟨_, _, hno, hcut, ?_⟩
    cases hfails : r.fails (c.handed ++ [cString ((storeAt c.reply c.replyUsed bs).take i)]) with
    | true =>
      rw [hfails, if_pos rfl] at heq
      refine .inl ⟨rfl, ?_⟩
      intro c' hc'
      rw [heq] at hc'
      obtain rfl := Option.some.inj hc'
      exact ⟨⟨hset, hused⟩, rfl, _, rfl⟩
    | false =>
      rw [hfails, if_neg Bool.false_ne_true] at heq
      refine .inr ⟨rfl, _, heq, ⟨?_, ?_⟩, rfl, ?_⟩
      · rw [memmoveDown_length (by omega), hset]
      · show c.replyUsed + bs.length - (i + 1) ≤ maxMsgLen + 1
        omega
      · show (memmoveDown _ (i + 1)).take (c.replyUsed + bs.length - (i + 1)) = _
        rw [take_memmoveDown (by omega), List.drop_set_of_lt (Nat.lt_succ_self i)]

theorem length_unlines_concat (ls : List Bytes) (l : Bytes) :
    (unlines newline (ls ++ [l])).length = (unlines newline ls).length + l.length + 1 := by
  rw [unlines_concat]
  simp only [List.length_append, List.length_singleton]

theorem count_unlines {ls : List Bytes} (h : ∀ l ∈ ls, newline ∉ l) :
    (unlines newline ls).count newline = ls.length := by
  have hlines := lines_unlines_append (s := []) h
  rw [List.append_nil] at hlines
  rw [← length_lines, hlines]
  simp [lines]

/-- After a read that consumes nothing, more is handed over and in the buffer than has come. -/
theorem not_holds_of_stuck (h : c.Wf) (hholds : c.Holds s) (hstuck : Stuck r c bs)
    (hc' : c.receive r bs = some c') : ¬ c'.Holds (s ++ bs) := by
  intro hholds'
  obtain ⟨hwf, hused, text, hhanded⟩ := hstuck c' hc'
  have hbefore := congrArg List.length hholds.stream
  have hafter := congrArg List.length hholds'.stream
  rw [List.length_append, h.buffered_length] at hbefore
  rw [List.length_append, hwf.buffered_length, hused, hhanded, length_unlines_concat,
    List.length_append] at hafter
  omega

/-- A read after which the stream still holds has completed a line without a NUL. -/
theorem line_of_holds (h : c.Wf) (hbs : bs.length ≤ c.remainder) (hholds : c.Holds s)
    (hc' : c.receive r bs = some c') (hholds' : c'.Holds (s ++ bs)) :
    ∃ l, newline ∉ l ∧ 0 ∉ l ∧ c'.Wf ∧ c'.handed = c.handed ++ [l] ∧
      r.fails (c.handed ++ [l]) = false := by
  rcases receive_spec r h hbs with ⟨-, hstuck⟩ | ⟨l, t, hl, hcut, ⟨-, hstuck⟩ | hgood⟩
  · exact absurd hholds' (not_holds_of_stuck h hholds hstuck hc')
  · exact absurd hholds' (not_holds_of_stuck h hholds hstuck hc')
  · obtain ⟨hfails, c'', hc'', hwf, hhanded, hbuf⟩ := hgood
    rw [hc'] at hc''
    obtain rfl := Option.some.inj hc''
    have hstream := hholds'.stream
    rw [hhanded, hbuf, unlines_concat, ← hholds.stream] at hstream
    have hsame : cString l = l := by
      have hline : unlines newline c.handed ++ (cString l ++ newline :: t) =
          unlines newline c.handed ++ (l ++ newline :: t) := by
        rw [← hcut, ← List.append_assoc, ← List.append_assoc]
        simpa using hstream
      exact List.append_cancel_right (List.append_cancel_left hline)
    rw [hsame] at hhanded hfails
    exact ⟨l, hl, cString_eq_self.mp hsame, hwf, hhanded, hfails⟩

end Receive

/-! ### Whole runs -/

section Runs

variable {r : Reciever} {replies reads pre : List Bytes} {bs : Bytes} {c : Client}

theorem tcpClientProcess_concat (r : Reciever) (pre : List Bytes) (bs : Bytes) :
    tcpClientProcess r (pre ++ [bs]) = (tcpClientProcess r pre).bind fun c => c.receive r bs := by
  unfold tcpClientProcess
  rw [List.foldlM_append]
  cases List.foldlM (Client.receive r) connected pre with
  | none => rfl
  | some c =>
    show (c.receive r bs >>= fun c => some c) = c.receive r bs
    cases c.receive r bs with
    | none => rfl
    | some c' => rfl

theorem Delivers.fits_concat (h : Delivers r replies reads) (hpre : pre ++ [bs] <+: reads)
    (hc : tcpClientProcess r pre = some c) : bs.length ≤ c.remainder := by
  obtain ⟨post, hpost⟩ := hpre
  have hsplit : reads = pre ++ bs :: post := by
    rw [← hpost, List.append_assoc]
    rfl
  exact (h.fits pre bs post c hsplit hc).2

/-- The stream up to a read ends at most where the whole ends. -/
theorem Delivers.flatten_prefix (h : Delivers r replies reads) (hpre : pre <+: reads) :
    pre.flatten <+: unlines newline replies := by
  obtain ⟨post, rfl⟩ := hpre
  rw [← h.stream, List.flatten_append]
  exact List.prefix_append _ _

theorem prefix_replies {handed : List Bytes} (rest : Bytes) (hhanded : ∀ l ∈ handed, newline ∉ l)
    (hreplies : ∀ l ∈ replies, newline ∉ l)
    (h : unlines newline handed ++ rest <+: unlines newline replies) : handed <+: replies := by
  obtain ⟨more, hmore⟩ := h
  have hlines := lines_unlines_append (s := []) hreplies
  rw [List.append_nil, ← hmore, List.append_assoc, lines_unlines_append hhanded] at hlines
  have hempty : lines newline ([] : Bytes) = [] := rfl
  rw [hempty, List.append_nil] at hlines
  exact ⟨_, hlines⟩

/-- While the stream holds after every read, each read has handed over a line. -/
theorem run_of_kept (h : Delivers r replies reads)
    (hkept : ∀ pre, pre <+: reads → ∃ c, tcpClientProcess r pre = some c ∧ c.Holds pre.flatten)
    (hpre : pre <+: reads) : ∃ c, tcpClientProcess r pre = some c ∧ c.Wf ∧ c.Holds pre.flatten ∧
      c.handed.length = pre.length ∧ (∀ l ∈ c.handed, newline ∉ l ∧ 0 ∉ l) ∧
      ∀ handed, handed <+: c.handed → handed ≠ [] → r.fails handed = false := by
  induction pre using List.reverseRecOn with
  | nil =>
    obtain ⟨c, hc, hholds⟩ := hkept [] hpre
    obtain rfl : connected = c := Option.some.inj hc
    refine ⟨connected, hc, connected_wf, hholds, rfl, ?_, ?_⟩
    · intro l hl
      cases hl
    · intro handed hhanded hne
      exact absurd (List.prefix_nil.mp hhanded) hne
  | append_singleton pre bs ih =>
    obtain ⟨c, hc, hwf, hholds, hlen, hclean, hret⟩ :=
      ih ((List.prefix_append pre [bs]).trans hpre)
    obtain ⟨c', hc', hholds'⟩ := hkept (pre ++ [bs]) hpre
    rw [tcpClientProcess_concat, hc, Option.bind_some] at hc'
    rw [List.flatten_append, List.flatten_singleton] at hholds'
    obtain ⟨l, hl, hnul, hwf', hhanded, hfails⟩ :=
      line_of_holds hwf (h.fits_concat hpre hc) hholds hc' hholds'
    refine ⟨c', by rw [tcpClientProcess_concat, hc]; exact hc', hwf', ?_, ?_, ?_, ?_⟩
    · rw [List.flatten_append, List.flatten_singleton]
      exact hholds'
    · rw [hhanded, List.length_append, List.length_append, hlen]
      rfl
    · intro x hx
      rw [hhanded] at hx
      cases List.mem_append.mp hx with
      | inl hx => exact hclean x hx
      | inr hx => exact List.mem_singleton.mp hx ▸ ⟨hl, hnul⟩
    · intro handed hbegin hne
      rw [hhanded] at hbegin
      cases List.prefix_concat_iff.mp hbegin with
      | inl heq => exact heq ▸ hfails
      | inr hshort => exact hret handed hshort hne

/-- While a reply is complete with each read, each read hands over the next reply. -/
theorem run_of_oneByOne (h : Delivers r replies reads) (hone : OneByOne r replies reads)
    (hpre : pre <+: reads) : ∃ c, tcpClientProcess r pre = some c ∧ c.Wf ∧ c.Holds pre.flatten ∧
      c.handed <+: replies ∧ c.handed.length = pre.length := by
  induction pre using List.reverseRecOn with
  | nil =>
    exact ⟨connected, rfl, connected_wf, ⟨rfl, rfl, Nat.zero_le _⟩, List.nil_prefix, rfl⟩
  | append_singleton pre bs ih =>
    obtain ⟨c, hc, hwf, hholds, hbegin, hlen⟩ := ih ((List.prefix_append pre [bs]).trans hpre)
    have hlines := fun l hl => (h.lines l (hbegin.subset hl)).1
    have hcount := hone.complete (pre ++ [bs]) hpre
    rw [List.flatten_append, List.flatten_singleton, ← hholds.stream, List.append_assoc,
      List.count_append, count_unlines hlines, hlen, List.length_append,
      List.length_singleton] at hcount
    have hstream := h.flatten_prefix hpre
    rw [List.flatten_append, List.flatten_singleton, ← hholds.stream, List.append_assoc] at hstream
    -- the line that is completed is the next reply
    have hnext : ∀ l t, newline ∉ l → c.buffered ++ bs = l ++ newline :: t →
        c.handed ++ [l] <+: replies ∧ cString l = l ∧ r.fails (c.handed ++ [l]) = false := by
      intro l t hl hcut
      have hmore : c.handed ++ [l] <+: replies := by
        apply prefix_replies t _ (fun l hl => (h.lines l hl).1)
        · rw [unlines_concat]
          simpa [hcut] using hstream
        · intro x hx
          cases List.mem_append.mp hx with
          | inl hx => exact hlines x hx
          | inr hx => exact List.mem_singleton.mp hx ▸ hl
      have hmem : l ∈ replies :=
        hmore.subset (List.mem_append_right _ (List.mem_singleton_self l))
      exact ⟨hmore, cString_eq_self.mpr (hone.nul l hmem), hone.returns _ hmore (by simp)⟩
    rcases receive_spec r hwf (h.fits_concat hpre hc) with
      ⟨hno, -⟩ | ⟨l, t, hl, hcut, ⟨hfails, -⟩ | ⟨-, c', hc', hwf', hhanded, hbuf⟩⟩
    · rw [List.count_eq_zero_of_not_mem hno] at hcount
      omega
    · obtain ⟨-, hsame, hreturns⟩ := hnext l t hl hcut
      rw [hsame, hreturns] at hfails
      cases hfails
    · obtain ⟨hmore, hsame, -⟩ := hnext l t hl hcut
      rw [hsame] at hhanded
      refine ⟨c', by rw [tcpClientProcess_concat, hc]; exact hc', hwf', ?_, hhanded ▸ hmore, ?_⟩
      · refine ⟨?_, hwf'.buffered_length, hwf'.used_le⟩
        rw [List.flatten_append, List.flatten_singleton, ← hholds.stream, List.append_assoc, hcut,
          hhanded, hbuf, unlines_concat]
        simp
      · rw [hhanded, List.length_append, List.length_append, hlen]
        rfl

/-- The replies are framed exactly if every read completes one, the last read the last, with no NUL
in any, and `reciever` never returns -1. -/
theorem reply_framing (h : Delivers r replies reads) :
    RepliesFramed r replies reads ↔ OneByOne r replies reads := by
  constructor
  · intro hframed
    obtain ⟨c, hc, -, -, hlen, hclean, hret⟩ := run_of_kept h hframed.kept (List.prefix_refl reads)
    have hall := hframed.all c hc
    rw [hall] at hlen hclean hret
    refine ⟨?_, hlen.symm, fun l hl => (hclean l hl).2, hret⟩
    intro pre hpre
    obtain ⟨c, -, -, hholds, hlen, hclean, -⟩ := run_of_kept h hframed.kept hpre
    rw [← hholds.stream, List.count_append, count_unlines fun l hl => (hclean l hl).1, hlen]
    exact Nat.le_add_right _ _
  · intro hone
    refine ⟨?_, ?_⟩
    · intro pre hpre
      obtain ⟨c, hc, -, hholds, -⟩ := run_of_oneByOne h hone hpre
      exact ⟨c, hc, hholds⟩
    · intro c hc
      obtain ⟨c', hc', -, -, hbegin, hlen⟩ := run_of_oneByOne h hone (List.prefix_refl reads)
      rw [hc] at hc'
      obtain rfl := Option.some.inj hc'
      exact hbegin.eq_of_length (hlen.trans hone.last)

/-- A reply that comes in one read. -/
theorem reply_framing_whole :
    RepliesFramed none [literal "done"] [literal "done\n"] ↔
      OneByOne none [literal "done"] [literal "done\n"] := by
  apply reply_framing
  refine ⟨by decide +kernel, by decide +kernel, ?_⟩
  intro pre bs post c hsplit hc
  cases pre with
  | nil =>
    cases hsplit
    obtain rfl : connected = c := Option.some.inj hc
    exact ⟨by decide, by decide +kernel⟩
  | cons x pre => simp at hsplit

/-- The first part of a reply that comes in two reads ends the loop. -/
theorem reply_framing_cut :
    Delivers none [literal "done"] [literal "do", literal "ne\n"] ∧
      ¬ RepliesFramed none [literal "done"] [literal "do", literal "ne\n"] := by
  have hlost : (tcpClientProcess none [literal "do"]).isNone = true := by decide +kernel
  rw [Option.isNone_iff_eq_none] at hlost
  refine ⟨⟨by decide +kernel, by decide +kernel, ?_⟩, ?_⟩
  · intro pre bs post c hsplit hc
    cases pre with
    | nil =>
      cases hsplit
      obtain rfl : connected = c := Option.some.inj hc
      exact ⟨by decide, by decide +kernel⟩
    | cons x pre =>
      obtain ⟨rfl, hrest⟩ := List.cons.inj hsplit
      cases pre with
      | nil =>
        rw [hlost] at hc
        cases hc
      | cons y pre => simp at hrest
  · intro h
    obtain ⟨c, hc, -⟩ := h.kept [literal "do"] ⟨[literal "ne\n"], rfl⟩
    rw [hlost] at hc
    cases hc

end Runs

end TmkDcl.Tcp.TcpClient
