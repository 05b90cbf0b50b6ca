import Mathlib.Logic.Function.Basic

/-!
# Queues whose operations take effect at once

Threads `T` call `put` and `get` on queues `Q` of elements `E`. An operation takes effect in one
step between its call and its return: `put` appends its element, and `get` takes the first one, or
finds the queue empty. A `get` may also miss, whatever is in the queue, while another `get` on the
same queue is under way and has not taken effect (`missBeside`).
-/

namespace AtomicQueue

variable {T Q E : Type}

/-- Where a thread stands in a call. -/
inductive Call (Q E : Type)
  | idle
  | putting (e : E) (q : Q)
  /-- `put` has taken effect. -/
  | placed
  | getting (q : Q)
  /-- `get` has taken effect, and this is its result. -/
  | got (r : Option E)
  deriving DecidableEq

structure State (T Q E : Type) where
  items : Q → List E
  call : T → Call Q E

def State.init : State T Q E where
  items _ := []
  call _ := .idle

inductive Action (T Q E : Type)
  | callPut (t : T) (e : E) (q : Q)
  | put (t : T)
  | retPut (t : T)
  | callGet (t : T) (q : Q)
  | get (t : T)
  /-- `get` of thread `t` misses, because of the one of thread `u`. -/
  | missBeside (t u : T)
  | retGet (t : T)

/-- What is seen of a queue: the calls and what they return. -/
inductive Event (T Q E : Type)
  | callPut (t : T) (e : E) (q : Q)
  | retPut (t : T)
  | callGet (t : T) (q : Q)
  | retGet (t : T) (r : Option E)
  deriving DecidableEq

variable [DecidableEq T] [DecidableEq Q]

def State.goto (s : State T Q E) (t : T) (c : Call Q E) : State T Q E :=
  { s with call := Function.update s.call t c }

def State.setItems (s : State T Q E) (q : Q) (l : List E) : State T Q E :=
  { s with items := Function.update s.items q l }

def step (s : State T Q E) : Action T Q E → Option (State T Q E)
  | .callPut t e q =>
    match s.call t with
    | .idle => some (s.goto t (.putting e q))
    | _ => none
  | .put t =>
    match s.call t with
    | .putting e q => some ((s.setItems q (s.items q ++ [e])).goto t .placed)
    | _ => none
  | .retPut t =>
    match s.call t with
    | .placed => some (s.goto t .idle)
    | _ => none
  | .callGet t q =>
    match s.call t with
    | .idle => some (s.goto t (.getting q))
    | _ => none
  | .get t =>
    match s.call t with
    | .getting q =>
      match s.items q with
      | [] => some (s.goto t (.got none))
      | e :: rest => some ((s.setItems q rest).goto t (.got (some e)))
    | _ => none
  | .missBeside t u =>
    match s.call t, s.call u with
    | .getting q, .getting r => if t ≠ u ∧ q = r then some (s.goto t (.got none)) else none
    | _, _ => none
  | .retGet t =>
    match s.call t with
    | .got _ => some (s.goto t .idle)
    | _ => none

def label (s : State T Q E) : Action T Q E → Option (Event T Q E)
  | .callPut t e q => some (.callPut t e q)
  | .retPut t => some (.retPut t)
  | .callGet t q => some (.callGet t q)
  | .retGet t =>
    match s.call t with
    | .got r => some (.retGet t r)
    | _ => none
  | .put _ | .get _ | .missBeside _ _ => none

/-- `get` misses only when the queue is empty. -/
def Exact (_ : State T Q E) : Action T Q E → Prop
  | .missBeside _ _ => False
  | _ => True

end AtomicQueue
