import Piotbench.Client.Worker

/-!
# How `client_conn_handle_input` ends

The loop of `client_conn_handle_input`, whatever `recv` returns: some data, cut as it may be, and
then for ever `EAGAIN`, an error or the end of the stream. What is `outstanding` goes down by every
byte that is received. At the end of the stream `recv` returns 0, which the loop takes for 0 bytes
more of the response: it goes round without end unless the data before it has brought every
response (`handleInput_returns_iff`). `handle_request` of the server leaves its loop there.
-/

namespace Piotbench.Client

open Server

/-- What `recv` returns for ever, once the data is used up. -/
inductive Drained
  | eagain
  | error
  | eof
  deriving DecidableEq

def Drained.result : Drained → RecvResult
  | .eagain => .eagain
  | .error => .error
  | .eof => .eof

/-- The next result of `recv`. -/
def nextRecv (drained : Drained) : List (List Byte) → RecvResult
  | [] => drained.result
  | bytes :: _ => .data bytes

/-- `status.received` is an `unsigned long`. -/
def wrapReceived (cl : ClientWorker) : ClientWorker :=
  let status := cl.conn.status
  { cl with conn.status := { status with received := status.received % UInt64.size } }

/-- `client_conn_handle_input`, if it returns within `fuel` turns of its loop. -/
def clientConnHandleInput (drained : Drained) :
    Nat → List (List Byte) → ClientWorker → Option ClientWorker
  | 0, _, _ => none
  | fuel + 1, data, cl =>
    let top := handleInputTop cl
    if top.pc = .afterInput then some top
    else
      (handleInputRecv top (nextRecv drained data)).bind fun cl' =>
        if cl'.pc = .input then clientConnHandleInput drained fuel data.tail (wrapReceived cl')
        else some cl'

/-- `client_conn_handle_input` returns. -/
def Returns (drained : Drained) (data : List (List Byte)) (cl : ClientWorker) : Prop :=
  ∃ fuel, (clientConnHandleInput drained fuel data cl).isSome

/-- No result is empty or longer than what `recv` was asked for. -/
def Fits : List (List Byte) → ClientWorker → Prop
  | [], _ => True
  | bytes :: data, cl =>
    (handleInputTop cl).pc = .recv →
      (0 < bytes.length ∧ bytes.length ≤ (handleInputTop cl).conn.recvbuf.left) ∧
        ∀ cl', handleInputRecv (handleInputTop cl) (.data bytes) = some cl' →
          Fits data (wrapReceived cl')

/-! ## What is still to come -/

/-- The responses that the loop waits for, counted as `unsigned long`. -/
def ClientWorker.todo (cl : ClientWorker) : Nat :=
  (cl.conn.status.total + UInt64.size - cl.conn.status.received) % UInt64.size

/-- The bytes that the loop waits for. The response in progress is one of those it waits for, and
`left` bytes of it are missing. -/
def ClientWorker.outstanding (cl : ClientWorker) : Nat :=
  if cl.conn.recvbuf.left = 0 then sizeofResponse * cl.todo
  else sizeofResponse * ((cl.todo + (UInt64.size - 1)) % UInt64.size) + cl.conn.recvbuf.left

/-- The counters are in the range of their type. -/
structure Counters (cl : ClientWorker) : Prop where
  received : cl.conn.status.received < UInt64.size
  total : cl.conn.status.total < UInt64.size

section Turn

variable {cl : ClientWorker}

theorem todo_eq_zero (h : Counters cl) :
    cl.todo = 0 ↔ cl.conn.status.received = cl.conn.status.total := by
  have hreceived := h.received
  have htotal := h.total
  unfold ClientWorker.todo
  constructor
  · intro hzero
    have hsize : UInt64.size = 18446744073709551616 := rfl
    rw [hsize] at hreceived htotal hzero
    omega
  · intro heq
    rw [heq, Nat.add_sub_cancel_left, Nat.mod_self]

/-- With nothing outstanding the loop is left at its top. -/
theorem handleInputTop_done (h : Counters cl) (hnone : cl.outstanding = 0) :
    (handleInputTop cl).pc = .afterInput := by
  have hidle : cl.conn.recvbuf.left = 0 := by
    by_contra hbusy
    simp only [ClientWorker.outstanding, hbusy, if_false] at hnone
    omega
  have htodo : cl.todo = 0 := by
    simp only [ClientWorker.outstanding, hidle, if_true] at hnone
    have hpos : 0 < sizeofResponse := by decide
    exact (Nat.mul_eq_zero.mp hnone).resolve_left (Nat.ne_of_gt hpos)
  simp only [handleInputTop, hidle, (todo_eq_zero h).mp htodo, if_true]

/-- What the top of the loop leaves for `recv`. -/
structure AtRecv (cl top : ClientWorker) : Prop where
  pc : top.pc = .recv
  status : top.conn.status = cl.conn.status
  busy : 0 < top.conn.recvbuf.left
  outstanding : top.outstanding = cl.outstanding

theorem handleInputTop_recv (h : Counters cl) (hmore : cl.outstanding ≠ 0) :
    AtRecv cl (handleInputTop cl) := by
  by_cases hidle : cl.conn.recvbuf.left = 0
  · have hlast : cl.todo ≠ 0 := by
      intro hzero
      simp [ClientWorker.outstanding, hidle, hzero] at hmore
    have hne : cl.conn.status.received ≠ cl.conn.status.total := fun heq =>
      hlast ((todo_eq_zero h).mpr heq)
    have hlt : cl.todo < UInt64.size := Nat.mod_lt _ (by decide)
    simp only [handleInputTop, hidle, hne, if_true, if_false]
    have hresponse : 0 < sizeofResponse := by decide
    refine ⟨rfl, rfl, hresponse, ?_⟩
    -- the next response has all its bytes outstanding
    have hpred : (cl.todo + (UInt64.size - 1)) % UInt64.size = cl.todo - 1 := by
      have hsize : UInt64.size = 18446744073709551616 := rfl
      rw [hsize] at hlt ⊢
      omega
    show (if sizeofResponse = 0 then _ else
      sizeofResponse * ((cl.todo + (UInt64.size - 1)) % UInt64.size) + sizeofResponse) = _
    rw [if_neg (Nat.ne_of_gt hresponse), hpred, ← Nat.mul_succ, Nat.succ_eq_add_one,
      Nat.sub_add_cancel (Nat.pos_of_ne_zero hlast), ClientWorker.outstanding, if_pos hidle]
  · simp only [handleInputTop, hidle, if_false]
    exact ⟨rfl, rfl, Nat.pos_of_ne_zero hidle, rfl⟩

theorem AtRecv.counters {top : ClientWorker} (h : AtRecv cl top) (hc : Counters cl) :
    Counters top := by
  constructor
  · rw [h.status]
    exact hc.received
  · rw [h.status]
    exact hc.total

/-- With one response less to come. -/
theorem todo_succ {received total : Nat} (hreceived : received < UInt64.size)
    (htotal : total < UInt64.size) :
    (total + UInt64.size - (received + 1) % UInt64.size) % UInt64.size =
      ((total + UInt64.size - received) % UInt64.size + (UInt64.size - 1)) % UInt64.size := by
  have hsize : UInt64.size = 18446744073709551616 := rfl
  rw [hsize] at hreceived htotal ⊢
  omega

/-- **One turn of the loop with data**: what is outstanding goes down by what is received. -/
theorem handleInputRecv_data (h : Counters cl) (hbusy : 0 < cl.conn.recvbuf.left)
    {bytes : List Byte} (hpos : 0 < bytes.length) (hle : bytes.length ≤ cl.conn.recvbuf.left) :
    ∃ cl', handleInputRecv cl (.data bytes) = some cl' ∧ cl'.pc = .input ∧
      Counters (wrapReceived cl') ∧
      (wrapReceived cl').outstanding + bytes.length = cl.outstanding := by
  have hreceived := h.received
  have htotal := h.total
  have hmod := Nat.mod_eq_of_lt hreceived
  have hsize : 0 < UInt64.size := by decide
  simp only [handleInputRecv, hpos, hle, and_self, if_true, Option.some.injEq, exists_eq_left']
  refine ⟨trivial, ⟨Nat.mod_lt _ hsize, htotal⟩, ?_⟩
  by_cases hdone : cl.conn.recvbuf.left - bytes.length = 0
  · -- the response is complete
    have hnext := todo_succ hreceived htotal
    simp only [ClientWorker.outstanding, ClientWorker.todo, wrapReceived, hdone, hnext,
      Nat.ne_of_gt hbusy, if_true, if_false]
    omega
  · simp only [ClientWorker.outstanding, ClientWorker.todo, wrapReceived, hdone, hmod,
      Nat.ne_of_gt hbusy, if_false]
    omega

end Turn

/-! ## The loop -/

section Loop

variable {cl : ClientWorker} {drained : Drained} {data : List (List Byte)}

theorem returns_done (h : Counters cl) (hnone : cl.outstanding = 0) : Returns drained data cl := by
  refine ⟨1, ?_⟩
  simp only [clientConnHandleInput, handleInputTop_done h hnone, if_true, Option.isSome_some]

/-- `EAGAIN` and errors end the loop. -/
theorem returns_drained (h : Counters cl) (hne : drained ≠ .eof) : Returns drained [] cl := by
  by_cases hnone : cl.outstanding = 0
  · exact returns_done h hnone
  · refine ⟨1, ?_⟩
    have hpc := (handleInputTop_recv h hnone).pc
    cases drained with
    | eof => exact absurd rfl hne
    | eagain | error => simp [clientConnHandleInput, hpc, nextRecv, Drained.result, handleInputRecv]

/-- The end of the stream does not. -/
theorem not_returns_eof (h : Counters cl) (hmore : cl.outstanding ≠ 0) : ¬ Returns .eof [] cl := by
  have hnever : ∀ fuel, clientConnHandleInput .eof fuel [] cl = none := by
    intro fuel
    induction fuel generalizing cl with
    | zero => rfl
    | succ fuel ih =>
      have htop := handleInputTop_recv h hmore
      have hc := htop.counters h
      have hwrap : wrapReceived { handleInputTop cl with pc := .input } =
          { handleInputTop cl with pc := .input } := by
        simp only [wrapReceived, Nat.mod_eq_of_lt hc.received]
      simp only [clientConnHandleInput, htop.pc, nextRecv, Drained.result, handleInputRecv,
        reduceCtorEq, if_false, Option.bind_some, if_true, List.tail_nil, hwrap]
      -- nothing has come in: the next turn finds what this one found
      apply ih
      · exact ⟨hc.received, hc.total⟩
      · exact htop.outstanding.trans_ne hmore
  rintro ⟨fuel, hsome⟩
  rw [hnever fuel] at hsome
  cases hsome

/-- The loop returns if and only if it does after the turn that takes the next data. -/
theorem returns_cons {bytes : List Byte} {cl' : ClientWorker}
    (hpc : (handleInputTop cl).pc = .recv)
    (hrecv : handleInputRecv (handleInputTop cl) (.data bytes) = some cl')
    (hpc' : cl'.pc = .input) :
    Returns drained (bytes :: data) cl ↔ Returns drained data (wrapReceived cl') := by
  have hturn : ∀ fuel, clientConnHandleInput drained (fuel + 1) (bytes :: data) cl =
      clientConnHandleInput drained fuel data (wrapReceived cl') := by
    intro fuel
    simp only [clientConnHandleInput, hpc, nextRecv, hrecv, hpc', reduceCtorEq, if_false,
      Option.bind_some, if_true, List.tail_cons]
  constructor
  · rintro ⟨fuel, hsome⟩
    cases fuel with
    | zero => cases hsome
    | succ fuel => exact ⟨fuel, by rwa [hturn] at hsome⟩
  · rintro ⟨fuel, hsome⟩
    exact ⟨fuel + 1, by rwa [hturn]⟩

/-- **When the input loop ends**: if what `recv` returns in the end is not the end of the stream, or
if the data before it has brought every response that the loop waits for. -/
theorem handleInput_returns_iff (hreceived : cl.conn.status.received < UInt64.size)
    (htotal : cl.conn.status.total < UInt64.size) (hfits : Fits data cl) :
    Returns drained data cl ↔
      drained ≠ .eof ∨ cl.outstanding ≤ data.flatten.length := by
  have hc : Counters cl := ⟨hreceived, htotal⟩
  clear hreceived htotal
  induction data generalizing cl with
  | nil =>
    by_cases hnone : cl.outstanding = 0
    · simp [returns_done hc hnone, hnone]
    · by_cases hend : drained = .eof
      · subst hend
        have hnot := not_returns_eof hc hnone
        simp [hnot, hnone]
      · simp [returns_drained hc hend, hend]
  | cons bytes data ih =>
    by_cases hnone : cl.outstanding = 0
    · simp [returns_done hc hnone, hnone]
    · have htop := handleInputTop_recv hc hnone
      obtain ⟨⟨hpos, hle⟩, hrest⟩ := hfits htop.pc
      obtain ⟨cl', hrecv, hpc', hc', hsum⟩ :=
        handleInputRecv_data (htop.counters hc) htop.busy hpos hle
      have hlater := ih (hrest cl' hrecv) hc'
      have hsame := htop.outstanding
      refine (returns_cons htop.pc hrecv hpc').trans (hlater.trans (or_congr_right ?_))
      rw [List.flatten_cons, List.length_append]
      omega

end Loop

/-! ## A server that closes the connection -/

/-- A connection in the middle of its only response. -/
def oneResponse : ClientWorker :=
  let cl := ClientWorker.init 1
  { cl with pc := .input, conn.status.sent := 1 }

theorem handleInput_returns_oneResponse :
    Returns .eof [List.replicate 10 0, List.replicate 14 0] oneResponse :=
  (handleInput_returns_iff (by decide) (by decide) (by
    intro _
    refine ⟨by decide, fun cl' hcl' => ?_⟩
    cases hcl'
    intro _
    exact ⟨by decide, fun _ _ => trivial⟩)).mpr (.inr (by decide))

/-- The server closes the connection with ten bytes of the response sent: the loop does not end. -/
theorem not_returns_oneResponse : ¬ Returns .eof [List.replicate 10 0] oneResponse := by
  have hpc : (handleInputTop oneResponse).pc = .recv := rfl
  intro hreturns
  refine not_returns_eof ?_ ?_ ((returns_cons hpc rfl rfl).mp hreturns)
  · exact ⟨by decide, by decide⟩
  · decide

end Piotbench.Client
