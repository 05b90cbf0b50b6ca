import Piotbench.Server.Basic
import Mathlib.Data.Vector.Defs

/-!
# The compute workers

`src/server/compute.c`. `SHA1` is OpenSSL's; here it is any function from data to digests.
-/

namespace Piotbench.Server

/-- `SHA1`: the digest of a piece of data. -/
abbrev Sha1 := List Byte → List.Vector Byte shaDigestLength

/-- The bytes of `req` in a message. -/
def requestBytes (msg : Nat → Byte) : List Byte := Bytes.slice msg 0 sizeofRequest

/-- The bytes of `res` in a message. -/
def responseBytes (msg : Nat → Byte) : List Byte := Bytes.slice msg resOffset sizeofResponse

/-- `SHA1(req->data, REQUEST_LENGTH, res->sha)` -/
def writeSha (sha1 : Sha1) (msg : Nat → Byte) : Nat → Byte :=
  Bytes.blit msg (resOffset + sizeofId) (sha1 (Bytes.slice msg sizeofId requestLength)).toList

/-- `res->id = req->id` -/
def writeId (msg : Nat → Byte) : Nat → Byte :=
  Bytes.blit msg resOffset (Bytes.slice msg 0 sizeofId)

/-- The loop of `compute_request`. `clock` lists what `clock_gettime` says from here on, in
nanoseconds, `none` for a failed call; when the list ends the loop is still running. -/
def computeLoop (sha1 : Sha1) (nsec : Nat) (start : UInt64) :
    List (Option UInt64) → (Nat → Byte) → Option (Nat → Byte)
  | [], _ => none
  | none :: _, msg => some (writeSha sha1 msg)
  | some cur :: clock, msg =>
    if nsec ≤ (cur - start).toNat then some (writeId (writeSha sha1 msg))
    else computeLoop sha1 nsec start clock (writeSha sha1 msg)

/-- `compute_request`: digest the data again and again until `nsec` nanoseconds have passed, then
copy the id. A failed `clock_gettime` returns early. -/
def computeRequest (sha1 : Sha1) (nsec : Nat) (clock : List (Option UInt64))
    (msg : Nat → Byte) : Option (Nat → Byte) :=
  match clock with
  | [] => none
  | none :: _ => some msg
  | some start :: clock => computeLoop sha1 nsec start clock msg

/-- `compute_worker`: `queue_get(inbox)`. -/
def computeWorkerGet (s : ServerContext) (i : Nat) : ServerContext :=
  match s.computeInbox i with
  | [] => s
  | b :: rest =>
    { s with
      computeInbox := Function.update s.computeInbox i rest
      compute := Function.update s.compute i (.got b) }

/-- `compute_worker`: `compute_request`, then `queue_put` to the inbox of the submitter of the
buffer's connection. -/
def computeWorkerRun (cfg : ServerConfig) (sha1 : Sha1) (s : ServerContext) (i : Nat) (b : BufId)
    (clock : List (Option UInt64)) : Option ServerContext :=
  let buff := s.bufs b
  let j := (s.conns buff.conn).submitidx
  (computeRequest sha1 cfg.load.computeDur clock buff.msg).map fun msg =>
    { s with
      bufs := Function.update s.bufs b { buff with msg := msg }
      submitterInbox := Function.update s.submitterInbox j (queuePut b (s.submitterInbox j))
      compute := Function.update s.compute i .idle }

end Piotbench.Server
