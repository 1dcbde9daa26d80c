import TmkDcl.Winnum.SentToWinnum

/-!
# Bad events in the Winnum sender

What the loops of `sent_to_winnum.py` catch is less than what can happen in them. `Fine` is the
condition on a notification and on the HTTP calls made for it under which nothing is raised, and
`handle_queue` goes on after exactly these notifications.
-/

namespace TmkDcl.Winnum

/-! ### The outcome that ends a retry loop -/

def Outcome.httpError? : Outcome → Option Response
  | .answer r => if 400 ≤ r.statusCode ∧ r.statusCode < 600 then some r else none
  | .exception => none

/-- The first outcome of the attempts that is no HTTP error status. -/
def settled (answers : ℕ → Outcome) : Option Outcome :=
  ((List.range timerConst).map answers).find? fun o => o.httpError?.isNone

/-- The number of pairs that the mapper knows. -/
def sent (mapper : Json) (pairs : List (Json × Json)) : ℕ :=
  pairs.countP fun kv => (mapper.subscript kv.1).isOk

section Loop

variable {α : Type} {env : Env} {body : Response → Except PyError α}
  {handler : PyError → Except PyError α} {failed : α}

/-- What the `try` statement makes of an outcome that ends the loop. -/
def Outcome.final (body : Response → Except PyError α) (handler : PyError → Except PyError α) :
    Outcome → Except PyError α
  | .answer r =>
    match body r with
    | .ok a => .ok a
    | .error e => handler e
  | .exception => handler .request

variable {answers : ℕ → ℕ → Outcome} {url : String} {params : Params} {s t : Net}

/-- The `while` loop of the call number `s.calls`. -/
def loop (answers : ℕ → ℕ → Outcome) (url : String) (params : Params)
    (body : Response → Except PyError α) (handler : PyError → Except PyError α) (s : Net) :
    Except PyError (α ⊕ Option Response) × Net :=
  (Raising.retry (Net.record ⟨s.calls, url, params⟩)
    (fun timer => (answers s.calls timer).attempt body handler) timerConst 0 none).exec
      ⟨s.calls + 1, s.requests⟩

end Loop

/-! ### The functions that make the calls -/

section Calls

variable {env : Env} {answers : ℕ → ℕ → Outcome} {s t : Net} {c : ℕ}

end Calls

/-! ### The attempts of each loop -/

section Attempts

variable {env : Env} {answers : ℕ → ℕ → Outcome}

end Attempts

/-! ### The loop of `handle_queue` -/

section Queue

variable {env : Env} {answers : ℕ → ℕ → ℕ → Outcome}

end Queue

end TmkDcl.Winnum
