import Piotbench.Server.Compute

/-!
# `compute_request`

The loop digests the same data again and again: a digest is written behind the data, so the data
stays what it was. When every call of `clock_gettime` succeeds, what is left in the buffer is the
request and the response to it.
-/

namespace Piotbench.Server

variable {sha1 : Sha1}

/-- The response to a request: its id, and the digest of its data. -/
def response (sha1 : Sha1) (request : List Byte) : List Byte :=
  request.take sizeofId ++ (sha1 (request.drop sizeofId)).toList

@[simp] theorem length_requestBytes (msg : Nat → Byte) :
    (requestBytes msg).length = sizeofRequest :=
  Bytes.length_slice ..

theorem requestBytes_eq (msg : Nat → Byte) :
    requestBytes msg = Bytes.slice msg 0 sizeofId ++ Bytes.slice msg sizeofId requestLength := by
  unfold requestBytes sizeofRequest
  rw [Bytes.slice_add, Nat.zero_add]

theorem response_requestBytes (sha1 : Sha1) (msg : Nat → Byte) :
    response sha1 (requestBytes msg) = Bytes.slice msg 0 sizeofId
      ++ (sha1 (Bytes.slice msg sizeofId requestLength)).toList := by
  rw [response, requestBytes_eq]
  simp [List.take_left', List.drop_left']

theorem requestBytes_writeSha (sha1 : Sha1) (msg : Nat → Byte) :
    requestBytes (writeSha sha1 msg) = requestBytes msg :=
  Bytes.slice_blit_below _ _ (by decide)

theorem requestBytes_writeId (msg : Nat → Byte) : requestBytes (writeId msg) = requestBytes msg :=
  Bytes.slice_blit_below _ _ (by decide)

theorem responseBytes_write (sha1 : Sha1) (msg : Nat → Byte) :
    responseBytes (writeId (writeSha sha1 msg)) = response sha1 (requestBytes msg) := by
  have hid : Bytes.slice (writeId (writeSha sha1 msg)) resOffset sizeofId
      = Bytes.slice msg 0 sizeofId := by
    have hself := Bytes.slice_blit_self (writeSha sha1 msg) resOffset
      (Bytes.slice (writeSha sha1 msg) 0 sizeofId)
    rw [Bytes.length_slice] at hself
    exact hself.trans (Bytes.slice_blit_below _ _ (by decide))
  have hsha : Bytes.slice (writeId (writeSha sha1 msg)) (resOffset + sizeofId) shaDigestLength
      = (sha1 (Bytes.slice msg sizeofId requestLength)).toList := by
    have hself := Bytes.slice_blit_self msg (resOffset + sizeofId)
      (sha1 (Bytes.slice msg sizeofId requestLength)).toList
    rw [List.Vector.toList_length] at hself
    exact (Bytes.slice_blit_above _ _ (by simp)).trans hself
  rw [responseBytes, sizeofResponse, Bytes.slice_add, hid, hsha, response_requestBytes]

theorem computeLoop_spec {nsec : Nat} {start : UInt64} {clock : List (Option UInt64)}
    {msg msg' : Nat → Byte} (hclock : clock.all Option.isSome = true)
    (h : computeLoop sha1 nsec start clock msg = some msg') :
    requestBytes msg' = requestBytes msg ∧
      responseBytes msg' = response sha1 (requestBytes msg) := by
  induction clock generalizing msg with
  | nil => cases h
  | cons now clock ih =>
    cases now with
    | none => cases hclock
    | some cur =>
      simp only [computeLoop] at h
      split at h
      · cases h
        rw [requestBytes_writeId, requestBytes_writeSha, responseBytes_write]
        exact ⟨rfl, rfl⟩
      · have hrest := ih (by simpa using hclock) h
        rwa [requestBytes_writeSha] at hrest

/-- **What compute leaves in a buffer**: the request as it was, and the response to it. -/
theorem computeRequest_spec {nsec : Nat} {clock : List (Option UInt64)} {msg msg' : Nat → Byte}
    (hclock : clock.all Option.isSome = true)
    (h : computeRequest sha1 nsec clock msg = some msg') :
    requestBytes msg' = requestBytes msg ∧
      responseBytes msg' = response sha1 (requestBytes msg) := by
  cases clock with
  | nil => cases h
  | cons start clock =>
    cases start with
    | none => cases hclock
    | some start => exact computeLoop_spec (by simpa using hclock) h

end Piotbench.Server
