import Mathlib.Data.List.Induction
import Mathlib.Logic.Function.Basic
import TmkDcl.Lines
import TmkDcl.Tcp.Connection

/-!
# The request loop (tcp/src/tcp_process.c)

`_tcp_server_process` reads what a connection has to give behind the bytes that it holds
already, and hands the first line of the buffer to `reciever` and `sender`. One readable
event handles one line: lines that came with the same read stay in the buffer until the
connection is readable again.
-/

namespace TmkDcl.Tcp

/-- What `reciever` and `sender` of the server do with the exit flag: for the descriptor
and the request, whether they set it. The reply is not modelled. -/
structure Handlers where
  reciever : Option (ℕ → Bytes → Bool)
  sender : Option (ℕ → Bytes → Bool)

/-- The exit flag of `default_server_reciever` (`tcp_process.c:24-42`). -/
def defaultServerReciever (_fd : ℕ) (request : Bytes) : Bool :=
  strcaseEq request (literal "STOP") || strcaseEq request (literal "S") ||
  strcaseEq request (literal "QUIT") || strcaseEq request (literal "Q") ||
  strcaseEq request (literal "EXIT")

/-- The exit flag after both calls (`tcp_process.c:219-239`); the reply that is written in
place of a missing `sender` does not touch it. -/
def Handlers.exit (h : Handlers) (fd : ℕ) (request : Bytes) : Bool :=
  (h.reciever.getD defaultServerReciever) fd request ||
  (h.sender.getD fun _ _ => false) fd request

/-- The room in the request buffer (`tcp_process.c:194`). -/
def Connection.remainder (c : Connection) : ℕ := c.request.length - c.requestUsed

/-- The bytes of a read and the first line of the buffer, if there is one, as the string
that the handlers see (`tcp_process.c:212-244`). -/
def Connection.receive (c : Connection) (bs : Bytes) : Connection × Option Bytes :=
  let request := storeAt c.request c.requestUsed bs
  let used := c.requestUsed + bs.length
  match memchr request newline used with
  | none => ({ c with request := request, requestUsed := used }, none)
  | some endl =>
    let request := request.set endl 0
    ({ c with
        request := memmoveDown request (endl + 1)
        requestUsed := used - (endl + 1) },
      some (cString request))

/-- The server: its connections by descriptor, with the requests that the handlers were
called with for each. -/
structure Server where
  conns : ℕ → Option Connection
  requests : ℕ → List Bytes
  exitFlag : Bool

/-- What the loop finds with `select`: a new connection, or a readable one and what `read`
returns on it. No bytes stand for 0 and for an error. -/
inductive Event where
  | accept (fd : ℕ)
  | readable (fd : ℕ) (bs : Bytes)
  deriving DecidableEq

/-- The handling of an event (`tcp_process.c:153-245`). -/
def Server.handle (h : Handlers) (srv : Server) : Event → Server
  | .accept fd =>
    { srv with
      conns := Function.update srv.conns fd (some connectionAdd)
      requests := Function.update srv.requests fd [] }
  | .readable fd bs =>
    match srv.conns fd with
    | none => srv
    | some c =>
      if c.remainder = 0 then srv
      else if bs = [] then { srv with conns := Function.update srv.conns fd none }
      else
        let (c', line) := c.receive bs
        { conns := Function.update srv.conns fd (some c')
          requests := Function.update srv.requests fd (srv.requests fd ++ line.toList)
          exitFlag := match line with
            | none => srv.exitFlag
            | some request => srv.exitFlag || h.exit fd request }

/-- The loop over its events. -/
def tcpServerProcess (h : Handlers) (srv : Server) (evs : List Event) : Server :=
  evs.foldl (fun srv e => if srv.exitFlag then srv else srv.handle h e) srv

/-! ### One read -/

/-- The bytes that a connection holds. -/
def Connection.buffered (c : Connection) : Bytes := c.request.take c.requestUsed

/-- The request buffer has its size and `request_used` stays inside it. -/
structure Connection.Wf (c : Connection) : Prop where
  length : c.request.length = maxMsgLen + 1
  used_le : c.requestUsed ≤ maxMsgLen + 1

section Receive

variable {c c' : Connection} {bs : Bytes} {line : Option Bytes}

theorem connectionAdd_wf : connectionAdd.Wf := ⟨List.length_replicate, Nat.zero_le _⟩

theorem Connection.Wf.buffered_length (h : c.Wf) : c.buffered.length = c.requestUsed := by
  rw [buffered, List.length_take, h.length]
  exact Nat.min_eq_left h.used_le

theorem receive_spec (h : c.Wf) (hbs : bs.length ≤ c.remainder) (hr : c.receive bs = (c', line)) :
    c'.Wf ∧
    ((newline ∉ c.buffered ++ bs ∧ line = none ∧ c'.buffered = c.buffered ++ bs) ∨
      ∃ l t, newline ∉ l ∧ c.buffered ++ bs = l ++ newline :: t ∧ line = some (cString l) ∧
        c'.buffered = t) := by
  have hfit : c.requestUsed + bs.length ≤ c.request.length := by
    have hu := h.used_le
    have hl := h.length
    rw [Connection.remainder] at hbs
    omega
  have hlen := storeAt_length hfit
  have htake : (storeAt c.request c.requestUsed bs).take (c.requestUsed + bs.length) =
      c.buffered ++ bs := take_storeAt rfl (Nat.le_trans (Nat.le_add_right ..) hfit)
  rw [Connection.receive] at hr
  simp only at hr
  cases hm : memchr (storeAt c.request c.requestUsed bs) newline (c.requestUsed + bs.length) with
  | none =>
    simp only [hm, Prod.mk.injEq] at hr
    obtain ⟨rfl, rfl⟩ := hr
    have hno := memchr_eq_none.mp hm
    rw [htake] at hno
    exact ⟨⟨hlen.trans h.length, h.length ▸ hfit⟩, .inl ⟨hno, rfl, htake⟩⟩
  | some i =>
    simp only [hm, Prod.mk.injEq] at hr
    obtain ⟨rfl, rfl⟩ := hr
    obtain ⟨hi, hil, hno, hcut⟩ := memchr_eq_some hm
    have hset : ((storeAt c.request c.requestUsed bs).set i 0).length = maxMsgLen + 1 := by
      rw [List.length_set, hlen, h.length]
    have hused : c.requestUsed + bs.length ≤ maxMsgLen + 1 := h.length ▸ hfit
    refine ⟨⟨?_, by simp only; omega⟩, .inr ⟨_, _, hno, htake ▸ hcut, ?_, ?_⟩⟩
    · simp only
      rw [memmoveDown_length (by omega), hset]
    · rw [List.set_eq_take_append_cons_drop, if_pos hil, cString_append]
    · simp only [Connection.buffered]
      rw [take_memmoveDown (by omega), List.drop_set_of_lt (Nat.lt_succ_self i)]

/-- After the stream `s`: its first lines were handed over as strings and the connection
holds the others. -/
structure Follows (s : Bytes) (requests : List Bytes) (c : Connection) : Prop where
  wf : c.Wf
  room : c.requestUsed ≤ maxMsgLen
  split : ∃ done, s = unlines newline done ++ c.buffered ∧ (∀ l ∈ done, newline ∉ l) ∧
    requests = done.map cString

theorem follows_connectionAdd : Follows [] [] connectionAdd where
  wf := connectionAdd_wf
  room := Nat.zero_le _
  split := ⟨[], rfl, fun l hl => by simp at hl, rfl⟩

theorem Follows.remainder_pos {s : Bytes} {requests : List Bytes} (h : Follows s requests c) :
    0 < c.remainder := by
  have hl := h.wf.length
  have hr := h.room
  rw [Connection.remainder]
  omega

theorem Follows.receive {s : Bytes} {requests : List Bytes} (h : Follows s requests c)
    (hbs : bs.length ≤ c.remainder) (hshort : ShortLines newline maxMsgLen (s ++ bs))
    (hr : c.receive bs = (c', line)) :
    Follows (s ++ bs) (requests ++ line.toList) c' ∧
    c'.buffered.count newline = c.buffered.count newline + bs.count newline - 1 := by
  obtain ⟨done, hs, hdone, hreq⟩ := h.split
  obtain ⟨hwf, ⟨hno, rfl, hbuf⟩ | ⟨l, t, hl, hcut, rfl, hbuf⟩⟩ := receive_spec h.wf hbs hr
  · have hsplit : s ++ bs = unlines newline done ++ c'.buffered := by
      rw [hbuf, hs, List.append_assoc]
    have hroom : c'.requestUsed ≤ maxMsgLen := by
      have hrest := hshort.2
      rw [hsplit, lineRest_unlines_append, hbuf, lineRest_of_not_mem hno, ← hbuf,
        hwf.buffered_length] at hrest
      exact hrest
    have hcount := List.count_eq_zero_of_not_mem hno
    refine ⟨⟨hwf, hroom, done, hsplit, hdone, by simp [hreq]⟩, ?_⟩
    rw [hbuf, hcount]
    rw [List.count_append] at hcount
    omega
  · have hsplit : s ++ bs = unlines newline (done ++ [l]) ++ c'.buffered := by
      rw [hbuf, unlines_concat, hs, List.append_assoc, hcut]
      simp
    have hroom : c'.requestUsed ≤ maxMsgLen := by
      have hlen := congrArg List.length hcut
      have hr := h.wf.length
      have hu := h.room
      rw [Connection.remainder] at hbs
      rw [← hwf.buffered_length, hbuf]
      rw [List.length_append, h.wf.buffered_length, List.length_append, List.length_cons] at hlen
      omega
    refine ⟨⟨hwf, hroom, done ++ [l], hsplit, ?_, by simp [hreq]⟩, ?_⟩
    · intro x hx
      rcases List.mem_append.mp hx with hx | hx
      · exact hdone x hx
      · exact List.mem_singleton.mp hx ▸ hl
    · rw [hbuf, ← List.count_append, hcut, List.count_append, List.count_cons_self,
        List.count_eq_zero_of_not_mem hl]
      omega

end Receive

/-! ### How many lines wait -/

/-- The lines that wait in the buffer after some reads, if each read serves one. -/
def waiting (reads : List Bytes) : ℕ := reads.foldl (fun b bs => b + bs.count newline - 1) 0

/-- The last reads never bring more lines than there are reads among them. -/
def KeepsUp (reads : List Bytes) : Prop :=
  ∀ pre post, reads = pre ++ post → post.flatten.count newline ≤ post.length

theorem waiting_le_iff (reads : List Bytes) (n : ℕ) : waiting reads ≤ n ↔
    ∀ pre post, reads = pre ++ post → post.flatten.count newline ≤ post.length + n := by
  induction reads using List.reverseRecOn generalizing n with
  | nil =>
    refine ⟨fun _ pre post he => ?_, fun _ => Nat.zero_le _⟩
    obtain ⟨rfl, rfl⟩ := List.append_eq_nil_iff.mp he.symm
    exact Nat.zero_le _
  | append_singleton reads bs ih =>
    have hw : waiting (reads ++ [bs]) = waiting reads + bs.count newline - 1 := by
      simp [waiting]
    rw [hw]
    constructor
    · intro hle pre post he
      rcases List.eq_nil_or_concat post with rfl | ⟨post, x, rfl⟩
      · exact Nat.zero_le _
      · have he' : reads ++ [bs] = (pre ++ post) ++ [x] := by simpa using he
        obtain ⟨hreads, hx⟩ := List.append_inj' he' rfl
        cases hx
        have hpost := (ih (n + 1 - bs.count newline)).mp (by omega) pre post hreads
        simp only [List.concat_eq_append, List.flatten_append, List.count_append,
          List.length_append, List.flatten_cons, List.flatten_nil, List.append_nil,
          List.length_singleton]
        omega
    · intro hall
      have hlast := hall reads [bs] rfl
      have hrec := (ih (n + 1 - bs.count newline)).mpr fun pre post he => by
        have hpost := hall pre (post ++ [bs]) (by simp [he])
        simp only [List.flatten_append, List.count_append, List.length_append, List.flatten_cons,
          List.flatten_nil, List.append_nil, List.length_singleton] at hpost
        simp only [List.flatten_cons, List.flatten_nil, List.append_nil,
          List.length_singleton] at hlast
        omega
      simp only [List.flatten_cons, List.flatten_nil, List.append_nil,
        List.length_singleton] at hlast
      omega

theorem waiting_eq_zero_iff (reads : List Bytes) : waiting reads = 0 ↔ KeepsUp reads := by
  rw [← Nat.le_zero, waiting_le_iff]
  rfl

/-! ### Whole runs -/

/-- The reads of a connection among the events of the loop. -/
def readsOf (fd : ℕ) (evs : List Event) : List Bytes :=
  evs.filterMap fun
    | .accept _ => none
    | .readable fd' bs => if fd' = fd then some bs else none

/-- All the bytes that arrived on a connection. -/
def received (fd : ℕ) (evs : List Event) : Bytes := (readsOf fd evs).flatten

/-- The server after it accepted a connection and handled some events. -/
def served (h : Handlers) (srv : Server) (fd : ℕ) (evs : List Event) : Server :=
  tcpServerProcess h (srv.handle h (.accept fd)) evs

/-- Events of a connection that stays open, all of them handled, whose stream has lines of at
most 512 characters: each read returns at most what it asks for, and something if it
asks for something. -/
structure Serves (h : Handlers) (srv : Server) (fd : ℕ) (evs : List Event) : Prop where
  opened : .accept fd ∉ evs
  handled : ∀ pre e post, evs = pre ++ e :: post → (served h srv fd pre).exitFlag = false
  reads : ∀ pre bs post c, evs = pre ++ .readable fd bs :: post →
    (served h srv fd pre).conns fd = some c →
    bs.length ≤ c.remainder ∧ (0 < c.remainder → bs ≠ [])
  lines : ShortLines newline maxMsgLen (received fd evs)

/-- The handlers got the lines of the stream, each once and in order, the connection holds
the unfinished line, and it never ran out of room. -/
def RequestsFramed (h : Handlers) (srv : Server) (fd : ℕ) (evs : List Event) : Prop :=
  (∃ c, (served h srv fd evs).conns fd = some c ∧
    (served h srv fd evs).requests fd = lines newline (received fd evs) ∧
    c.buffered = lineRest newline (received fd evs)) ∧
  ∀ pre post c, evs = pre ++ post → (served h srv fd pre).conns fd = some c → 0 < c.remainder

section Runs

variable {h : Handlers} {srv : Server} {fd : ℕ} {evs : List Event} {e : Event}

theorem readsOf_concat_other (he : ∀ bs, e ≠ .readable fd bs) :
    readsOf fd (evs ++ [e]) = readsOf fd evs := by
  cases e with
  | accept fd' => simp [readsOf]
  | readable fd' bs =>
    have hne : fd' ≠ fd := fun h => he bs (h ▸ rfl)
    simp [readsOf, hne]

theorem readsOf_concat (bs : Bytes) :
    readsOf fd (evs ++ [.readable fd bs]) = readsOf fd evs ++ [bs] := by
  simp [readsOf]

theorem served_concat (hx : (served h srv fd evs).exitFlag = false) :
    served h srv fd (evs ++ [e]) = (served h srv fd evs).handle h e := by
  rw [served, tcpServerProcess] at *
  rw [List.foldl_append, List.foldl_cons, List.foldl_nil, hx]
  rfl

theorem handle_other (srv : Server) (ha : e ≠ .accept fd) (hr : ∀ bs, e ≠ .readable fd bs) :
    (srv.handle h e).conns fd = srv.conns fd ∧ (srv.handle h e).requests fd = srv.requests fd := by
  cases e with
  | accept fd' =>
    have hne : fd ≠ fd' := fun h => ha (h ▸ rfl)
    exact ⟨Function.update_of_ne hne .., Function.update_of_ne hne ..⟩
  | readable fd' bs =>
    have hne : fd ≠ fd' := fun h => hr bs (h ▸ rfl)
    simp only [Server.handle]
    split
    · exact ⟨rfl, rfl⟩
    · split
      · exact ⟨rfl, rfl⟩
      · split
        · exact ⟨Function.update_of_ne hne .., rfl⟩
        · exact ⟨Function.update_of_ne hne .., Function.update_of_ne hne ..⟩

theorem handle_readable {c c' : Connection} {bs : Bytes} {line : Option Bytes} (srv : Server)
    (hc : srv.conns fd = some c) (hrem : 0 < c.remainder) (hbs : bs ≠ [])
    (hr : c.receive bs = (c', line)) :
    (srv.handle h (.readable fd bs)).conns fd = some c' ∧
    (srv.handle h (.readable fd bs)).requests fd = srv.requests fd ++ line.toList := by
  simp only [Server.handle, hc, Nat.ne_of_gt hrem, if_false, hbs, hr, Function.update_self,
    and_self]

theorem Serves.of_append {more : List Event} (hs : Serves h srv fd (evs ++ more)) :
    Serves h srv fd evs where
  opened hm := hs.opened (List.mem_append_left _ hm)
  handled pre e post he := hs.handled pre e (post ++ more) (by simp [he])
  reads pre bs post c he := hs.reads pre bs (post ++ more) c (by simp [he])
  lines := by
    have hl := hs.lines
    have happ : received fd (evs ++ more) = received fd evs ++ received fd more := by
      simp [received, readsOf]
    rw [happ] at hl
    exact hl.of_append

theorem serves_nil (h : Handlers) (srv : Server) (fd : ℕ) : Serves h srv fd [] where
  opened := List.not_mem_nil
  handled pre e post he := by simp at he
  reads pre bs post c he := by simp at he
  lines := ⟨fun l hl => by simp [received, readsOf, TmkDcl.lines] at hl, Nat.zero_le _⟩

theorem Serves.concat {bs : Bytes} (hs : Serves h srv fd evs)
    (hx : (served h srv fd evs).exitFlag = false)
    (hr : ((served h srv fd evs).conns fd).all
      (fun c => bs.length ≤ c.remainder ∧ (0 < c.remainder → bs ≠ [])) = true)
    (hl : ShortLines newline maxMsgLen (received fd (evs ++ [.readable fd bs]))) :
    Serves h srv fd (evs ++ [.readable fd bs]) where
  opened hm := by
    rcases List.mem_append.mp hm with hm | hm
    · exact hs.opened hm
    · simp at hm
  handled pre e post he := by
    rcases List.eq_nil_or_concat post with rfl | ⟨post, x, rfl⟩
    · obtain ⟨rfl, -⟩ := List.append_inj' he rfl
      exact hx
    · have he' : evs ++ [.readable fd bs] = (pre ++ e :: post) ++ [x] := by simpa using he
      exact hs.handled pre e post (List.append_inj' he' rfl).1
  reads pre b post c he hc := by
    rcases List.eq_nil_or_concat post with rfl | ⟨post, x, rfl⟩
    · obtain ⟨rfl, hb⟩ := List.append_inj' he rfl
      cases hb
      rw [hc] at hr
      exact of_decide_eq_true hr
    · have he' : evs ++ [.readable fd bs] = (pre ++ .readable fd b :: post) ++ [x] := by simpa using he
      exact hs.reads pre b post c (List.append_inj' he' rfl).1 hc
  lines := hl

theorem served_follows (hs : Serves h srv fd evs) : ∃ c, (served h srv fd evs).conns fd = some c ∧
    Follows (received fd evs) ((served h srv fd evs).requests fd) c ∧
    c.buffered.count newline = waiting (readsOf fd evs) := by
  induction evs using List.reverseRecOn with
  | nil =>
    refine ⟨connectionAdd, Function.update_self .., ?_, rfl⟩
    have hr : (served h srv fd []).requests fd = [] := Function.update_self ..
    rw [hr]
    exact follows_connectionAdd
  | append_singleton evs e ih =>
    obtain ⟨c, hc, hf, hw⟩ := ih hs.of_append
    have hx := hs.handled evs e [] rfl
    rw [served_concat hx]
    by_cases he : ∃ bs, e = .readable fd bs
    · obtain ⟨bs, rfl⟩ := he
      obtain ⟨hle, hne⟩ := hs.reads evs bs [] c rfl hc
      obtain ⟨c', line, hr⟩ : ∃ c' line, c.receive bs = (c', line) := ⟨_, _, rfl⟩
      obtain ⟨hc', hreq⟩ := handle_readable _ hc hf.remainder_pos (hne hf.remainder_pos) hr
      have hrec : received fd (evs ++ [.readable fd bs]) = received fd evs ++ bs := by
        simp [received, readsOf_concat]
      have hl := hs.lines
      rw [hrec] at hl ⊢
      obtain ⟨hf', hw'⟩ := hf.receive hle hl hr
      refine ⟨c', hc', hreq ▸ hf', ?_⟩
      rw [hw', hw, readsOf_concat]
      simp [waiting]
    · have hr : ∀ bs, e ≠ .readable fd bs := fun bs hb => he ⟨bs, hb⟩
      have ha : e ≠ .accept fd := fun hb => hs.opened (hb ▸ by simp)
      obtain ⟨hc', hreq⟩ := handle_other (h := h) (served h srv fd evs) ha hr
      rw [hc', hreq, received, readsOf_concat_other hr]
      exact ⟨c, hc, hf, hw⟩

/-- The requests of a connection are framed exactly when the reads keep up with the lines and no
line has a NUL in it. -/
theorem request_framing (h : Handlers) (srv : Server) (fd : ℕ) (evs : List Event)
    (hs : Serves h srv fd evs) : RequestsFramed h srv fd evs ↔
      KeepsUp (readsOf fd evs) ∧ ∀ l ∈ lines newline (received fd evs), 0 ∉ l := by
  obtain ⟨c, hc, hf, hw⟩ := served_follows hs
  obtain ⟨done, hs', hdone, hreq⟩ := hf.split
  have hlines : lines newline (received fd evs) = done ++ lines newline c.buffered := by
    conv_lhs => rw [hs']
    exact lines_unlines_append hdone
  have hrest : lineRest newline (received fd evs) = lineRest newline c.buffered := by
    conv_lhs => rw [hs']
    exact lineRest_unlines_append
  have hroom : ∀ pre post c, evs = pre ++ post → (served h srv fd pre).conns fd = some c →
      0 < c.remainder := by
    intro pre post c' he hc'
    subst he
    obtain ⟨c'', hc'', hf'', -⟩ := served_follows hs.of_append
    rw [hc'] at hc''
    cases hc''
    exact hf''.remainder_pos
  rw [← waiting_eq_zero_iff, ← hw]
  constructor
  · rintro ⟨⟨c', hc', hall, -⟩, -⟩
    rw [hreq, hlines] at hall
    have hlen := congrArg List.length hall
    rw [List.length_map, List.length_append] at hlen
    have hnil : lines newline c.buffered = [] := List.eq_nil_of_length_eq_zero (by omega)
    rw [hnil, List.append_nil] at hall
    rw [hlines, hnil, List.append_nil]
    refine ⟨List.count_eq_zero_of_not_mem (lines_eq_nil_iff.mp hnil), fun l hl => ?_⟩
    exact cString_eq_self.mp (List.map_inj_left.mp (hall.trans (List.map_id _).symm) l hl)
  · rintro ⟨hzero, hnul⟩
    have hno : newline ∉ c.buffered := List.count_eq_zero.mp hzero
    rw [hlines, lines_of_not_mem hno, List.append_nil] at hnul
    refine ⟨⟨c, hc, ?_, ?_⟩, hroom⟩
    · rw [hreq, hlines, lines_of_not_mem hno, List.append_nil]
      exact (List.map_congr_left fun l hl => cString_eq_self.mpr (hnul l hl)).trans (List.map_id _)
    · rw [hrest, lineRest_of_not_mem hno]

/-- The server after `server_init`. -/
def serverInit : Server := ⟨fun _ => none, fun _ => [], false⟩

/-- No handlers of its own: the default ones. -/
def defaults : Handlers := ⟨none, none⟩

/-- Two lines in one read. -/
def twoLines : List Event := [.readable 5 (literal "a\nb\n")]

/-- The same two lines with one read each. -/
def lineByLine : List Event := [.readable 5 (literal "a\n"), .readable 5 (literal "b\n")]

theorem request_framing_line_by_line :
    Serves defaults serverInit 5 lineByLine ∧ RequestsFramed defaults serverInit 5 lineByLine := by
  have hs : Serves defaults serverInit 5 lineByLine :=
    ((serves_nil _ _ _).concat (by decide +kernel) (by decide +kernel) (by decide +kernel)).concat (by decide +kernel) (by decide +kernel)
      (by decide +kernel)
  refine ⟨hs, (request_framing _ _ _ _ hs).mpr ⟨?_, by decide +kernel⟩⟩
  rw [← waiting_eq_zero_iff]
  decide +kernel

/-- The second line of a read stays in the buffer. -/
theorem request_framing_two_lines :
    Serves defaults serverInit 5 twoLines ∧ ¬ RequestsFramed defaults serverInit 5 twoLines := by
  refine ⟨(serves_nil _ _ _).concat (by decide +kernel) (by decide +kernel) (by decide +kernel), ?_⟩
  rintro ⟨⟨c, -, hreq, -⟩, -⟩
  have hne : (served defaults serverInit 5 twoLines).requests 5 ≠
      lines newline (received 5 twoLines) := by decide +kernel
  exact hne hreq

end Runs

end TmkDcl.Tcp
