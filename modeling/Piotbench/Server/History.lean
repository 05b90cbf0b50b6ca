import Piotbench.Server.Safety

/-!
# What a session has done

The server keeps no record of the past. A `Traced` server is the server with a record beside it:
for each connection object what has happened since `handle_accept` last handed it out, and for each
buffer which request it was filled with. The record never influences a step (`tstep_srv`), so every
run of the server is the trace of exactly one run with a record.
-/

namespace Piotbench.Server

open Transition

/-- Calls on the session's descriptor. `close` stands for the body of `finish_connection`, which
calls `Z_close` once. -/
inductive Call
  | recv
  | send
  | close
  deriving DecidableEq

/-- The request a buffer carries: the connection and its session, and the request's index among
those completely received in the session. -/
structure Origin where
  conn : ConnId
  session : Nat
  index : Nat
  deriving DecidableEq

/-- What has happened on a connection object since `handle_accept` last handed it out. -/
structure SessionHistory where
  /-- How often `handle_accept` has handed out the object. -/
  session : Nat
  calls : List Call
  /-- The bytes that `Z_recv` has returned. -/
  rx : List Byte
  /-- The requests received completely. -/
  requests : List (List Byte)
  /-- The bytes that `Z_send` has taken. -/
  wire : List Byte
  /-- The requests whose responses have been sent completely. -/
  answers : List (Option Origin)
  /-- How often the object has been put back. -/
  releases : Nat

/-- The record of an object that has not been handed out, or has just been. -/
def SessionHistory.start (session : Nat) : SessionHistory where
  session := session
  calls := []
  rx := []
  requests := []
  wire := []
  answers := []
  releases := 0

structure Traced where
  srv : ServerContext
  hist : ConnId → SessionHistory
  origin : BufId → Option Origin

def Traced.init (cfg : ServerConfig) (bufs : BufId → ServerBuffer) : Traced where
  srv := .init cfg bufs
  hist := fun _ => .start 0
  origin := fun _ => none

/-! ## What an action does on connection `c` -/

/-- `handle_accept` hands out `c`. -/
def begins (s : ServerContext) (c : ConnId) : Action → Bool
  | .acceptInit a (some _) _ => s.accept a = .took c
  | _ => false

def calls (s : ServerContext) (c : ConnId) : Action → List Call
  | .requestRecv k _ =>
    match (s.io k).pc with
    | .recv c' _ => if c' = c then [.recv] else []
    | _ => []
  | .responseSend k _ =>
    match (s.io k).pc with
    | .send c' _ _ => if c' = c then [.send] else []
    | _ => []
  | .finishBody k =>
    match (s.io k).pc with
    | .teardown c' _ => if c' = c then [.close] else []
    | _ => []
  | _ => []

/-- The bytes that `Z_recv` returns. -/
def bytesIn (s : ServerContext) (c : ConnId) : Action → List Byte
  | .requestRecv k (.data bytes) =>
    match (s.io k).pc with
    | .recv c' _ => if c' = c then bytes else []
    | _ => []
  | _ => []

/-- The bytes that `Z_send` takes. -/
def bytesOut (s : ServerContext) (c : ConnId) : Action → List Byte
  | .responseSend k (.sent n) =>
    match (s.io k).pc with
    | .send c' _ b => if c' = c then Bytes.slice (s.bufs b).msg (s.bufs b).ptr n else []
    | _ => []
  | _ => []

/-- The buffer whose response is completely sent. -/
def answered (s : ServerContext) (c : ConnId) : Action → List BufId
  | .responseSend k (.sent n) =>
    match (s.io k).pc with
    | .send c' _ b => if c' = c ∧ n = (s.bufs b).left then [b] else []
    | _ => []
  | _ => []

/-- How often `c` is put back. -/
def putBack (s : ServerContext) (c : ConnId) : Action → Nat
  | .finishBody k =>
    match (s.io k).pc with
    | .teardown c' _ =>
      if c' = c ∧ (s.conns c).sent + (s.conns c).sendQueue.length = (s.conns c).received then 1
      else 0
    | _ => 0
  | .submitCompare j =>
    if s.submit j = .compare c ∧ (s.conns c).processed = (s.conns c).received then 1 else 0
  | _ => 0

/-! ## The traced server -/

/-- The record after action `a`, from the state before it. -/
def Traced.record (t : Traced) (a : Action) (c : ConnId) : SessionHistory :=
  if begins t.srv c a then .start ((t.hist c).session + 1)
  else
    { t.hist c with
      calls := (t.hist c).calls ++ calls t.srv c a
      rx := (t.hist c).rx ++ bytesIn t.srv c a
      requests := (t.hist c).requests ++
        (delivered t.srv c a).map fun b => requestBytes (t.srv.bufs b).msg
      wire := (t.hist c).wire ++ bytesOut t.srv c a
      answers := (t.hist c).answers ++ (answered t.srv c a).map t.origin
      releases := (t.hist c).releases + putBack t.srv c a }

/-- `handle_request` delivers a buffer with the next request of its session. -/
def Traced.label (t : Traced) (a : Action) (b : BufId) : Option Origin :=
  match a with
  | .requestDeliver k =>
    match (t.srv.io k).pc with
    | .deliver c b' =>
      if b' = b then some ⟨c, (t.hist c).session, (t.hist c).requests.length⟩ else t.origin b
    | _ => t.origin b
  | _ => t.origin b

def tstep (cfg : ServerConfig) (sha1 : Sha1) (t : Traced) (a : Action) : Option Traced :=
  (step cfg sha1 t.srv a).map fun s' => ⟨s', t.record a, t.label a⟩

section

variable {cfg : ServerConfig} {sha1 : Sha1} {t t' : Traced} {a : Action}

theorem tstep_eq (h : tstep cfg sha1 t a = some t') :
    step cfg sha1 t.srv a = some t'.srv ∧ t'.hist = t.record a ∧ t'.origin = t.label a := by
  obtain ⟨s', hs, rfl⟩ := Option.map_eq_some_iff.mp h
  exact ⟨hs, rfl, rfl⟩

/-- **The record is only a record**: without it, the step is the server's. -/
theorem tstep_srv (h : tstep cfg sha1 t a = some t') : step cfg sha1 t.srv a = some t'.srv :=
  (tstep_eq h).1

/-- Every step of the server is one of the traced server. -/
theorem tstep_of_step {s' : ServerContext} (h : step cfg sha1 t.srv a = some s') :
    ∃ t', tstep cfg sha1 t a = some t' ∧ t'.srv = s' := by
  refine ⟨⟨s', t.record a, t.label a⟩, ?_, rfl⟩
  simp [tstep, h]

end

/-- The runs of the traced server on whose steps all meet `ok`. -/
abbrev Trace (cfg : ServerConfig) (sha1 : Sha1) (ok : ServerContext → Action → Prop)
    (bufs : BufId → ServerBuffer) : Traced → Prop :=
  Reachable (tstep cfg sha1) (fun t a => ok t.srv a) (.init cfg bufs)

section

variable {cfg : ServerConfig} {sha1 : Sha1} {ok : ServerContext → Action → Prop}
  {bufs : BufId → ServerBuffer}

theorem Trace.run {t : Traced} (h : Trace cfg sha1 ok bufs t) : Run cfg sha1 ok bufs t.srv := by
  apply h.project Traced.srv
  intro _ a _ hok hs
  exact .inr ⟨a, hok, tstep_srv hs⟩

/-- Every run of the server has a trace. -/
theorem Run.trace {s : ServerContext} (h : Run cfg sha1 ok bufs s) :
    ∃ t, Trace cfg sha1 ok bufs t ∧ t.srv = s := by
  induction h with
  | refl => exact ⟨.init cfg bufs, .refl, rfl⟩
  | tail _ hok hs ih =>
    obtain ⟨t, ht, rfl⟩ := ih
    obtain ⟨t', ht', rfl⟩ := tstep_of_step hs
    exact ⟨t', ht.tail hok ht', rfl⟩

end

end Piotbench.Server
