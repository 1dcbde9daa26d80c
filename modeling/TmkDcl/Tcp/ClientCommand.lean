import TmkDcl.Bytes

/-!
# Commands of the messenger's client (tcp/src/messenger.c)

`parse_api_request` looks for the words of the commands anywhere in the line and lets the last one
of its list decide; `msg_get_connect_information` cuts the line behind the length of that word.
-/

namespace TmkDcl.Tcp.ClientCommand

inductive MsgType where
  | unknown
  | request
  | reply
  deriving DecidableEq

inductive MsgCmd where
  | quit
  | status
  | set
  | get
  | start
  | stop
  | init
  | config
  | connect
  deriving DecidableEq

structure Message where
  cmd : MsgCmd
  cmdLen : ℕ
  type : MsgType
  msgLen : ℕ
  msgString : Bytes

/-- A branch of `parse_api_request`: the word, the command, and the word whose length is taken. -/
abbrev Branch := String × MsgCmd × String

def branches : List Branch :=
  [("CONNECT", .connect, "CONNECT"), ("INIT", .start, "START"), ("START", .start, "START"),
    ("STOP", .stop, "STOP"), ("STATUS", .status, "STATUS"), ("SET", .set, "SET"),
    ("GET", .get, "GET"), ("CONFIG", .config, "CONFIG")]

def branch (buf : Bytes) (msg : Message) (b : Branch) : Message :=
  if strcaseStr buf (literal b.1) then
    { msg with cmd := b.2.1, cmdLen := (literal b.2.2).length }
  else msg

/-- The first branch: any of the two words makes a reply of the message. -/
def replyBranch (buf : Bytes) (msg : Message) : Message :=
  if strcaseStr buf (literal "RE") || strcaseStr buf (literal "ER") then
    { msg with type := .reply, cmdLen := 2 }
  else msg

def parseApiRequest (msg : Message) : Message :=
  if msg.msgLen = 0 then msg
  else
    let buf := cString msg.msgString
    let msg := replyBranch buf { msg with type := .request }
    let msg := branches.foldl (branch buf) msg
    if strcaseStr buf (literal "QUIT") || strcaseEq buf (literal "Q") ||
        strcaseEq buf (literal "Q\n") then
      { msg with cmd := .quit, cmdLen := (literal "QUIT").length }
    else msg

/-- `msg_get_connect_information`: the host and the port if it returns 0. -/
def msgGetConnectInformation (msg : Message) : Option (Bytes × Bytes) :=
  let result := cString (msg.msgString.drop (msg.cmdLen + 1))
  match strrchr result 32 with
  | none => none
  | some i => some (result.take i, (result.drop (i + 1)).dropLast)

/-! ### Requests -/

/-- The commands that name a connection. -/
inductive Word where
  | connect
  | config
  | init
  | start
  | stop
  | set
  | get
  deriving DecidableEq

namespace Word

def text : Word → String
  | .connect => "CONNECT"
  | .config => "CONFIG"
  | .init => "INIT"
  | .start => "START"
  | .stop => "STOP"
  | .set => "SET"
  | .get => "GET"

def code : Word → MsgCmd
  | .connect => .connect
  | .config => .config
  | .init => .init
  | .start => .start
  | .stop => .stop
  | .set => .set
  | .get => .get

/-- The words that are looked for after that of the command. -/
def laterWords : Word → List String
  | .connect => ["INIT", "START", "STOP", "STATUS", "SET", "GET", "CONFIG", "QUIT"]
  | .init => ["START", "STOP", "STATUS", "SET", "GET", "CONFIG", "QUIT"]
  | .start => ["STOP", "STATUS", "SET", "GET", "CONFIG", "QUIT"]
  | .stop => ["STATUS", "SET", "GET", "CONFIG", "QUIT"]
  | .set => ["GET", "CONFIG", "QUIT"]
  | .get => ["CONFIG", "QUIT"]
  | .config => ["QUIT"]

end Word

/-- No blank, newline or NUL. -/
def Plain (text : Bytes) : Prop := 32 ∉ text ∧ 10 ∉ text ∧ 0 ∉ text

def requestLine (c : Word) (host port : Bytes) : Bytes :=
  literal c.text ++ 32 :: (host ++ 32 :: (port ++ [10]))

/-- A message with the line, in a buffer that goes on after its end; `cmd` and `cmd_len` have no
value yet. -/
def request (line rest : Bytes) (cmd : MsgCmd) (cmdLen : ℕ) : Message :=
  ⟨cmd, cmdLen, .unknown, line.length, line ++ 0 :: rest⟩

/-- The message has the code of the command, and its host and port are found. -/
structure Understood (c : Word) (host port : Bytes) (msg : Message) : Prop where
  cmd : msg.cmd = c.code
  information : msgGetConnectInformation msg = some (host, port)

/-! ### The cascade -/

section Cascade

variable {buf : Bytes} {msg : Message} {l : List Branch}

theorem foldl_branch_of_none (h : ∀ b ∈ l, strcaseStr buf (literal b.1) = false) :
    l.foldl (branch buf) msg = msg := by
  induction l generalizing msg with
  | nil => rfl
  | cons b l ih =>
    have hskip : branch buf msg b = msg := by
      unfold branch
      rw [h b List.mem_cons_self]
      rfl
    rw [List.foldl_cons, hskip]
    exact ih fun b' hb' => h b' (List.mem_cons_of_mem _ hb')

theorem foldl_branch_cmd (msg : Message) (h : ∃ b ∈ l, strcaseStr buf (literal b.1) = true) :
    ∃ b ∈ l, (l.foldl (branch buf) msg).cmd = b.2.1 := by
  induction l generalizing msg with
  | nil =>
    obtain ⟨b, hb, -⟩ := h
    cases hb
  | cons b l ih =>
    rw [List.foldl_cons]
    by_cases hl : ∃ b' ∈ l, strcaseStr buf (literal b'.1) = true
    · obtain ⟨b', hb', hcmd⟩ := ih _ hl
      exact ⟨b', List.mem_cons_of_mem _ hb', hcmd⟩
    · push Not at hl
      obtain ⟨b', hb', hfound⟩ := h
      have heq : b' = b := by
        cases List.mem_cons.mp hb' with
        | inl heq => exact heq
        | inr hmem => exact absurd hfound (hl b' hmem)
      rw [foldl_branch_of_none fun b' hb' => Bool.eq_false_iff.mpr (hl b' hb')]
      refine ⟨b, List.mem_cons_self, ?_⟩
      unfold branch
      rw [if_pos (heq ▸ hfound)]

end Cascade

/-! ### Words in a line -/

section Words

variable {c : Word} {host port rest : Bytes} {w : String}

/-- A word of letters. -/
def Letters (w : String) : Bool :=
  !(literal w).isEmpty && !((literal w).map toLower).contains 32 &&
    !((literal w).map toLower).contains 10

/-- A word that is in the line is in one of its three parts. -/
theorem strcaseStr_requestLine (c : Word) (host port : Bytes) (h : Letters w = true) :
    strcaseStr (requestLine c host port) (literal w) = true ↔
      strcaseStr (literal c.text) (literal w) = true ∨ strcaseStr host (literal w) = true ∨
        strcaseStr port (literal w) = true := by
  simp only [Letters, Bool.and_eq_true, Bool.not_eq_true', List.contains_iff_mem,
    List.isEmpty_iff, ← Bool.not_eq_true] at h
  obtain ⟨⟨hne, hblank⟩, hnewline⟩ := h
  have hline : (requestLine c host port).map toLower = (literal c.text).map toLower ++
      32 :: (host.map toLower ++ 32 :: (port.map toLower ++ 10 :: [])) := by
    simp only [requestLine, List.map_append, List.map_cons, List.map_nil]
    rfl
  have hnil : ¬ (literal w).map toLower <:+: [] := by
    rw [List.infix_nil, List.map_eq_nil_iff]
    exact hne
  simp only [strcaseStr, decide_eq_true_eq]
  rw [hline, infix_append_cons hblank, infix_append_cons hblank, infix_append_cons hnewline,
    or_iff_left hnil]

/-- The branches with the last one, which looks for two lines of one letter besides. -/
def allBranches : List Branch := branches ++ [("QUIT", .quit, "QUIT")]

theorem letters_of_mem {b : Branch} (h : b ∈ allBranches) : Letters b.1 = true := by
  have hall : allBranches.all (fun b => Letters b.1) = true := by decide +kernel
  exact List.all_eq_true.mp hall b h

theorem cString_request (hhost : Plain host) (hport : Plain port) :
    cString (requestLine c host port ++ 0 :: rest) = requestLine c host port := by
  have hword : 0 ∉ literal c.text := by
    cases c <;> decide +kernel
  rw [cString_append, cString_eq_self, requestLine]
  simp only [List.mem_append, List.mem_cons, List.not_mem_nil, or_false, not_or]
  exact ⟨hword, by decide, hhost.2.2, by decide, hport.2.2, by decide⟩

end Words

/-! ### The command and the connection -/

section Requests

variable {c : Word} {host port rest : Bytes} {cmd : MsgCmd} {cmdLen : ℕ}

/-- The branch of a command. -/
def Word.branch (c : Word) : Branch := (c.text, c.code, c.text)

/-- The branches that come after that of a command. -/
def Word.laterBranches : Word → List Branch
  | .connect => allBranches.drop 1
  | .init => allBranches.drop 2
  | .start => allBranches.drop 3
  | .stop => allBranches.drop 4
  | .set => allBranches.drop 6
  | .get => allBranches.drop 7
  | .config => allBranches.drop 8

theorem map_laterBranches (c : Word) : c.laterBranches.map Prod.fst = c.laterWords := by
  cases c <;> rfl

theorem laterBranches_sublist (c : Word) {b : Branch} (h : b ∈ c.laterBranches) :
    b ∈ allBranches := by
  cases c <;> exact List.mem_of_mem_drop h

theorem branches_split (h : c ≠ .init) :
    ∃ earlier, allBranches = earlier ++ c.branch :: c.laterBranches := by
  cases c with
  | connect => exact ⟨[], rfl⟩
  | init => exact absurd rfl h
  | start => exact ⟨branches.take 2, rfl⟩
  | stop => exact ⟨branches.take 3, rfl⟩
  | set => exact ⟨branches.take 5, rfl⟩
  | get => exact ⟨branches.take 6, rfl⟩
  | config => exact ⟨branches.take 7, rfl⟩

theorem laterBranches_code {b : Branch} (h : b ∈ c.laterBranches) : b.2.1 ≠ c.code := by
  have hall : c.laterBranches.all (fun b => b.2.1 ≠ c.code) = true := by
    cases c <;> decide +kernel
  simpa using List.all_eq_true.mp hall b h

theorem branches_code_ne_init {b : Branch} (h : b ∈ allBranches) :
    b.2.1 ≠ .init := by
  have hall : allBranches.all (fun b => b.2.1 ≠ .init) = true := by decide +kernel
  simpa using List.all_eq_true.mp hall b h

/-- None of the later words is in the word of the command itself. -/
theorem not_strcaseStr_text {b : Branch} (h : b ∈ c.laterBranches) :
    strcaseStr (literal c.text) (literal b.1) = false := by
  have hall : c.laterBranches.all
      (fun b => !strcaseStr (literal c.text) (literal b.1)) = true := by
    cases c <;> decide +kernel
  simpa using List.all_eq_true.mp hall b h

/-- What `parse_api_request` makes of a request: the branches one after another. -/
theorem parseApiRequest_request (c : Word) (rest : Bytes) (cmd : MsgCmd) (cmdLen : ℕ)
    (hhost : Plain host) (hport : Plain port) :
    ∃ msg, msg.msgString = requestLine c host port ++ 0 :: rest ∧
      parseApiRequest (request (requestLine c host port) rest cmd cmdLen) =
        allBranches.foldl (branch (requestLine c host port)) msg := by
  have hlen : (request (requestLine c host port) rest cmd cmdLen).msgLen ≠ 0 := by
    have hnewline : requestLine c host port ≠ [] := by
      unfold requestLine
      simp
    exact fun h => hnewline (List.length_eq_zero_iff.mp h)
  have hquit : ∀ q : String, (literal q).map toLower ∈ [[113], [113, 10]] →
      strcaseEq (requestLine c host port) (literal q) = false := by
    intro q hq
    have hblank : 32 ∉ (literal q).map toLower := by
      simp only [List.mem_cons, List.not_mem_nil, or_false] at hq
      cases hq with
      | inl h => rw [h]; decide
      | inr h => rw [h]; decide
    rw [strcaseEq, beq_eq_false_iff_ne]
    intro heq
    apply hblank
    rw [← heq, requestLine]
    exact List.mem_map.mpr ⟨32, by simp, rfl⟩
  have hbuf : cString (request (requestLine c host port) rest cmd cmdLen).msgString =
      requestLine c host port := cString_request hhost hport
  have hq := hquit "Q" (by decide)
  have hqn := hquit "Q\n" (by decide)
  unfold parseApiRequest
  simp only [if_neg hlen, hbuf, hq, hqn, Bool.or_false, allBranches, List.foldl_append,
    List.foldl_cons, List.foldl_nil]
  refine ⟨_, ?_, rfl⟩
  unfold replyBranch
  split
  · rfl
  · rfl

theorem branch_msgString (buf : Bytes) (msg : Message) (b : Branch) :
    (branch buf msg b).msgString = msg.msgString := by
  unfold branch
  split
  · rfl
  · rfl

theorem foldl_branch_msgString (buf : Bytes) (l : List Branch) (msg : Message) :
    (l.foldl (branch buf) msg).msgString = msg.msgString := by
  induction l generalizing msg with
  | nil => rfl
  | cons b l ih => rw [List.foldl_cons, ih, branch_msgString]

/-- Cut behind its word, a request has the host and the port. -/
theorem information_request (hhost : Plain host) (hport : Plain port) {msg : Message}
    (hstring : msg.msgString = requestLine c host port ++ 0 :: rest)
    (hlen : msg.cmdLen = (literal c.text).length) :
    msgGetConnectInformation msg = some (host, port) := by
  have hdrop : msg.msgString.drop (msg.cmdLen + 1) =
      (host ++ 32 :: (port ++ [10])) ++ 0 :: rest := by
    rw [hstring, hlen, requestLine, List.append_assoc, List.cons_append, ← List.drop_drop,
      List.drop_left]
    rfl
  have hnul : 0 ∉ host ++ 32 :: (port ++ [10]) := by
    simp only [List.mem_append, List.mem_cons, List.not_mem_nil, or_false, not_or]
    exact ⟨hhost.2.2, by decide, hport.2.2, by decide⟩
  have hblank : 32 ∉ port ++ [10] := by
    simp only [List.mem_append, List.mem_cons, List.not_mem_nil, or_false, not_or]
    exact ⟨hport.1, by decide⟩
  unfold msgGetConnectInformation
  simp only [hdrop, cString_append, cString_eq_self.mpr hnul, strrchr_append host hblank]
  rw [List.take_left, ← List.drop_drop, List.drop_left, List.drop_succ_cons, List.drop_zero,
    List.dropLast_concat]

/-- A request is understood exactly if it is not INIT and no word that is looked for after its own
is in the host or the port. -/
theorem understood_iff (hhost : Plain host) (hport : Plain port) :
    Understood c host port (parseApiRequest (request (requestLine c host port) rest cmd cmdLen)) ↔
      c ≠ .init ∧ ∀ w ∈ c.laterWords,
        strcaseStr host (literal w) = false ∧ strcaseStr port (literal w) = false := by
  obtain ⟨msg, hstring, hparse⟩ := parseApiRequest_request c rest cmd cmdLen hhost hport
  rw [hparse]
  have hown : strcaseStr (requestLine c host port) (literal c.text) = true := by
    have hinfix : (literal c.text).map toLower <:+: (requestLine c host port).map toLower := by
      rw [requestLine, List.map_append]
      exact List.infix_append_left
    exact decide_eq_true hinfix
  by_cases hinit : c = .init
  · subst hinit
    refine iff_of_false ?_ fun h => h.1 rfl
    intro h
    have hmem : ("INIT", MsgCmd.start, "START") ∈ allBranches := by decide
    obtain ⟨b, hb, hcmd⟩ := foldl_branch_cmd msg ⟨_, hmem, hown⟩
    exact branches_code_ne_init hb (hcmd.symm.trans h.cmd)
  · obtain ⟨earlier, hsplit⟩ := branches_split hinit
    have hbranch : ∀ msg : Message, branch (requestLine c host port) msg c.branch =
        { msg with cmd := c.code, cmdLen := (literal c.text).length } := by
      intro msg
      unfold branch
      exact if_pos hown
    have hfound : ∀ b ∈ c.laterBranches,
        strcaseStr (requestLine c host port) (literal b.1) = false ↔
          strcaseStr host (literal b.1) = false ∧ strcaseStr port (literal b.1) = false := by
      intro b hb
      have hiff := strcaseStr_requestLine c host port (letters_of_mem (laterBranches_sublist c hb))
      rw [not_strcaseStr_text hb] at hiff
      rw [← Bool.not_eq_true, hiff]
      simp only [Bool.false_eq_true, false_or, not_or, Bool.not_eq_true]
    rw [hsplit, List.foldl_append, List.foldl_cons, hbranch]
    constructor
    · intro h
      refine ⟨hinit, ?_⟩
      have hnone : ∀ b ∈ c.laterBranches,
          strcaseStr (requestLine c host port) (literal b.1) = false := by
        by_contra hnot
        push Not at hnot
        obtain ⟨b, hb, hsome⟩ := hnot
        obtain ⟨b', hb', hcmd⟩ := foldl_branch_cmd
          { earlier.foldl (branch (requestLine c host port)) msg with
            cmd := c.code, cmdLen := (literal c.text).length } ⟨b, hb, by simpa using hsome⟩
        exact laterBranches_code hb' (hcmd.symm.trans h.cmd)
      intro w hw
      rw [← map_laterBranches] at hw
      obtain ⟨b, hb, rfl⟩ := List.mem_map.mp hw
      exact (hfound b hb).mp (hnone b hb)
    · intro h
      have hkept := (foldl_branch_msgString (requestLine c host port) earlier msg).trans hstring
      rw [foldl_branch_of_none]
      · exact ⟨rfl, information_request hhost hport hkept rfl⟩
      · intro b hb
        apply (hfound b hb).mpr
        apply h.2
        rw [← map_laterBranches]
        exact List.mem_map_of_mem hb

theorem understood_get : Understood .get (literal "10.0.0.1") (literal "4444")
    (parseApiRequest (request (requestLine .get (literal "10.0.0.1") (literal "4444")) [] .quit 0)) ↔
      Word.get ≠ .init ∧ ∀ w ∈ Word.get.laterWords,
        strcaseStr (literal "10.0.0.1") (literal w) = false ∧
          strcaseStr (literal "4444") (literal w) = false :=
  understood_iff (by unfold Plain; decide) (by unfold Plain; decide)

/-- The host of a connection is taken for the command GET. -/
theorem widget_not_understood : ¬ Understood .connect (literal "widget") (literal "4444")
    (parseApiRequest
      (request (requestLine .connect (literal "widget") (literal "4444")) [] .quit 0)) := by
  intro h
  exact absurd h.cmd (by decide +kernel)

end Requests

end TmkDcl.Tcp.ClientCommand
