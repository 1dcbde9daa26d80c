import Mathlib.Data.List.DropRight
import Mathlib.Data.Rat.Defs
import TmkDcl.Raising

/-!
# The Winnum sender (winnum_sender_service/sent_to_winnum.py)

The functions that handle one notification, and `handle_queue` that takes them from the queue.
`json.loads` is a parameter, and so is what each HTTP call ends with: `answers call timer` is the
outcome of the attempt `timer` of the `call`-th run of `get_object_id` or `send_winnum_request`
for the notification. Log messages are left out, except that the last one of both functions
evaluates `response.json()`.
-/

namespace TmkDcl.Winnum

/-- What `json.loads` returns. -/
inductive Json where
  | null
  | bool (b : Bool)
  | int (i : ℤ)
  | float (x : ℚ)
  | nonFinite (text : String)
  | str (s : String)
  | list (xs : List Json)
  | dict (items : List (String × Json))

structure Response where
  statusCode : ℕ
  body : String
  deriving DecidableEq

/-- The exceptions by the `except` clauses that tell them apart; `request` is a failed connection,
a timeout and the like. -/
inductive PyError where
  | jsonDecode
  | key
  | index
  | type
  | http (response : Response)
  | request
  deriving DecidableEq

namespace Json

/-- `if value:`. -/
def truthy : Json → Bool
  | .null => false
  | .bool b => b
  | .int i => i ≠ 0
  | .float x => x ≠ 0
  | .nonFinite _ => true
  | .str s => s ≠ ""
  | .list xs => !xs.isEmpty
  | .dict items => !items.isEmpty

/-- A negative index counts from the end. -/
def item {α : Type} (xs : List α) (i : ℤ) : Except PyError α :=
  let place := if i < 0 then i + xs.length else i
  match if place < 0 then none else xs[place.toNat]? with
  | some x => .ok x
  | none => .error .index

/-- `value[key]`. -/
def subscript : Json → Json → Except PyError Json
  | .dict items, .str k =>
    match items.lookup k with
    | some v => .ok v
    | none => .error .key
  | .dict _, .list _ | .dict _, .dict _ => .error .type
  | .dict _, _ => .error .key
  | .list xs, .int i => item xs i
  | .list xs, .bool b => item xs b.toNat
  | .str s, .int i => (item s.toList i).map fun c => .str c.toString
  | .str s, .bool b => (item s.toList b.toNat).map fun c => .str c.toString
  | _, _ => .error .type

/-- What `for x in value` runs over. -/
def iter : Json → Except PyError (List Json)
  | .dict items => .ok (items.map fun kv => .str kv.1)
  | .list xs => .ok xs
  | .str s => .ok (s.toList.map fun c => .str c.toString)
  | _ => .error .type

/-- `len(value)`. -/
def len (value : Json) : Except PyError ℕ := value.iter.map List.length

end Json

inductive ObjectOfInterest where
  | billet
  | pipe
  | mandrel
  deriving DecidableEq

def ObjectOfInterest.name : ObjectOfInterest → String
  | .billet => "billet"
  | .pipe => "pipe"
  | .mandrel => "mandrel"

/-- The class attributes of `Mapper`. -/
structure Mapper where
  mandrel : Json
  pipe : Json
  billet : Json

/-- The class attributes of `Config` that the functions read. -/
structure Config where
  name : String
  postgrestAddress : String
  winnumAddress : String
  device : String

structure Env where
  loads : String → Option Json
  config : Config
  mapper : Mapper

/-- How `requests.get` ends. -/
inductive Outcome where
  | answer (response : Response)
  | exception
  deriving DecidableEq

/-- The parameters of a request: `{'object_id': f"eq.{obj_id}"}` or the signal. -/
inductive Params where
  | object (eq : Json)
  | signal (id value : Json)

structure Request where
  call : ℕ
  url : String
  params : Params

/-- The calls of the two functions so far, and the requests that they have made. -/
structure Net where
  calls : ℕ
  requests : List Request

abbrev Py := Raising PyError Net

def timerConst : ℕ := 12

/-- `response.json()`. -/
def Response.json (env : Env) (r : Response) : Except PyError Json :=
  match env.loads r.body with
  | some v => .ok v
  | none => .error .jsonDecode

/-- The call followed by `response.raise_for_status()`. -/
def Outcome.raiseForStatus : Outcome → Except PyError Response
  | .answer r => if 400 ≤ r.statusCode ∧ r.statusCode < 600 then .error (.http r) else .ok r
  | .exception => .error .request

/-- The `try` statement of a retry loop: `except HTTPError` counts and goes on, the other
exceptions go to `handler`. -/
def Outcome.attempt {α : Type} (body : Response → Except PyError α)
    (handler : PyError → Except PyError α) (o : Outcome) : Except PyError (α ⊕ Response) :=
  match o.raiseForStatus >>= body with
  | .ok a => .ok (.inl a)
  | .error (.http r) => .ok (.inr r)
  | .error e => (handler e).map .inl

def nextCall : Py ℕ := fun net => (.ok net.calls, { net with calls := net.calls + 1 })

def Net.record (r : Request) (net : Net) : Net := { net with requests := net.requests ++ [r] }

/-- A retry loop with the statements behind it: `timer == TIMER_CONST` after the last attempt, and
then the body of the last response is decoded for the log. -/
def retryLoop {α : Type} (env : Env) (answers : ℕ → ℕ → Outcome) (url : String) (params : Params)
    (body : Response → Except PyError α) (handler : PyError → Except PyError α) (failed : α) :
    Py α := do
  let call ← nextCall
  let result ← Raising.retry (Net.record ⟨call, url, params⟩)
    (fun timer => (answers call timer).attempt body handler) timerConst 0 none
  match result with
  | .inl a => pure a
  | .inr none => pure failed
  | .inr (some response) => do
    let _ ← Raising.call (response.json env)
    pure failed

/-- `send_winnum_request` (170-197): only `HTTPError` is caught. -/
def sendWinnumRequest (env : Env) (answers : ℕ → ℕ → Outcome) (signalId signalValue : Json)
    (device : String) : Py Unit :=
  retryLoop env answers (env.config.winnumAddress ++ "/WinnumCloud/rest/unauth/put/url/" ++ device)
    (.signal signalId signalValue) (fun _ => .ok ()) (fun e => .error e) ()

/-- `convert_to_winnum` (200-212), the pairs of `ID` and `VALUE`. -/
def convertToWinnum (objectJson : Json) : Except PyError (List (Json × Json)) := do
  let keys ← objectJson.iter
  keys.mapM fun key => do
    let value ← objectJson.subscript key
    pure (key, value)

def table : ObjectOfInterest → Bool → String
  | .mandrel, false => "/mandrels"
  | .pipe, false => "/pipes"
  | .billet, false => "/billets"
  | .mandrel, true => "/mandrels_with_defects"
  | .pipe, true => "/pipes_with_defects"
  | .billet, true => "/billets_with_defects"

/-- `get_object_id` (215-272): every exception but `HTTPError` ends in `return []`. -/
def getObjectId (env : Env) (answers : ℕ → ℕ → Outcome) (objId : Json) (object : ObjectOfInterest)
    (defected : Bool) : Py Json :=
  retryLoop env answers (env.config.postgrestAddress ++ table object defected) (.object objId)
    (fun response => response.json env) (fun _ => .ok (.list [])) (.list [])

/-- `__return_mapper`. -/
def Mapper.of (mapper : Mapper) : ObjectOfInterest → Json
  | .mandrel => mapper.mandrel
  | .pipe => mapper.pipe
  | .billet => mapper.billet

/-- `try: .. except KeyError:` with a log message. -/
def exceptKey (m : Py Unit) : Py Unit := fun net =>
  match m.exec net with
  | (.error .key, after) => (.ok (), after)
  | other => other

/-- The loop over the pairs of one converted object (153-157, 159-163). -/
def sendPairs (env : Env) (answers : ℕ → ℕ → Outcome) (mapper : Json) (device : String)
    (pairs : List (Json × Json)) : Py Unit :=
  pairs.forM fun kv => exceptKey do
    let id ← Raising.call (mapper.subscript kv.1)
    sendWinnumRequest env answers id kv.2 device

/-- `EntityProcessor.process` (140-163). -/
def process (env : Env) (answers : ℕ → ℕ → Outcome) (dataPayload payload : Json)
    (device : String) (object : ObjectOfInterest) : Py Unit := do
  let mapper := env.mapper.of object
  let first ← Raising.call (payload.subscript (.int 0))
  let condition ← Raising.call (first.subscript (.str "condition"))
  if !condition.truthy && object ≠ .billet then
    let defects ← getObjectId env answers dataPayload object true
    let _ ← Raising.call defects.len
    let items ← Raising.call defects.iter
    items.forM fun defect => do
      let pairs ← Raising.call (convertToWinnum defect)
      sendPairs env answers mapper device pairs
  else
    let pairs ← Raising.call (convertToWinnum first)
    sendPairs env answers mapper device pairs

end TmkDcl.Winnum
