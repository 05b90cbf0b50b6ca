import Piotbench.Server.Basic

/-!
# `epoll_set_conn_state`

`src/server/io/io.h`, over the kernel's `epoll_ctl`. The kernel refuses to add a descriptor that is
registered, to modify or delete one that is not, and to do anything with one that is not open; it
may also fail for lack of resources (`ok = false`). A refused call changes nothing in the kernel.
-/

namespace Piotbench.Server

inductive EpollOp
  | add
  | mod
  | del
  deriving DecidableEq

/-- `Z_epoll_ctl` on descriptor `fd`; the `Bool` says whether it returned an error. -/
def Kernel.epollCtl (kern : Kernel) (op : EpollOp) (fd : Fd) (new : Interest) (ok : Bool) :
    Kernel × Bool :=
  if !ok || !kern.isOpen fd then (kern, true)
  else
    match op, kern.interest fd with
    | .add, none | .mod, some _ =>
      ({ kern with interest := Function.update kern.interest fd (some new) }, false)
    | .del, some _ => ({ kern with interest := Function.update kern.interest fd none }, false)
    | _, _ => (kern, true)

/-- `Z_close`: the kernel forgets the descriptor and its registration. -/
def Kernel.close (kern : Kernel) (fd : Fd) : Kernel where
  isOpen := Function.update kern.isOpen fd false
  interest := Function.update kern.interest fd none

/-- `epoll_set_conn_state`: nothing to do when the cached state is the one asked for; else the
cached state changes first, whatever `epoll_ctl` then says. -/
def epollSetConnState (kern : Kernel) (c : ConnId) (conn : ServerConnection)
    (newState : EpollMask) (ok : Bool) : Kernel × ServerConnection × Bool :=
  if newState = conn.epollState then (kern, conn, false)
  else
    let op : EpollOp :=
      if newState = 0#32 then .del else if conn.epollState = 0#32 then .add else .mod
    let res := kern.epollCtl op conn.fd ⟨conn.epollFd, newState, c⟩ ok
    (res.1, { conn with epollState := newState }, res.2)

/-! ## What the calls change -/

/-- Whatever `epoll_ctl` says, the connection ends up with the new mask in its cache. -/
theorem epollSetConnState_eq (kern : Kernel) (c : ConnId) (conn : ServerConnection)
    (newState : EpollMask) (ok : Bool) :
    epollSetConnState kern c conn newState ok
      = ((epollSetConnState kern c conn newState ok).1, { conn with epollState := newState },
          (epollSetConnState kern c conn newState ok).2.2) := by
  unfold epollSetConnState
  split
  · next h => subst h; rfl
  · rfl

/-- The call of `epoll_set_conn_state` on `conn` left the kernel at `kern'` and returned `err`. -/
def EpollSet (kern : Kernel) (c : ConnId) (conn : ServerConnection) (newState : EpollMask)
    (ok : Bool) (kern' : Kernel) (err : Bool) : Prop :=
  epollSetConnState kern c conn newState ok
    = (kern', { conn with epollState := newState }, err)

theorem epollCtl_isOpen (kern : Kernel) (op : EpollOp) (fd : Fd) (new : Interest)
    (ok : Bool) : (kern.epollCtl op fd new ok).1.isOpen = kern.isOpen := by
  unfold Kernel.epollCtl
  split
  · rfl
  · split <;> rfl

theorem epollCtl_interest_of_ne (kern : Kernel) (op : EpollOp) {fd fd' : Fd} (new : Interest)
    (ok : Bool) (h : fd' ≠ fd) :
    (kern.epollCtl op fd new ok).1.interest fd' = kern.interest fd' := by
  unfold Kernel.epollCtl
  split
  · rfl
  · split <;> simp [h]

section EpollSet

variable {kern kern' : Kernel} {c : ConnId} {conn : ServerConnection} {newState : EpollMask}
  {ok err : Bool}

theorem EpollSet.isOpen (h : EpollSet kern c conn newState ok kern' err) :
    kern'.isOpen = kern.isOpen := by
  obtain rfl : _ = kern' := congrArg (·.1) h
  unfold epollSetConnState
  split
  · rfl
  · exact epollCtl_isOpen ..

theorem EpollSet.interest_of_ne (h : EpollSet kern c conn newState ok kern' err) {fd : Fd}
    (hfd : fd ≠ conn.fd) : kern'.interest fd = kern.interest fd := by
  obtain rfl : _ = kern' := congrArg (·.1) h
  unfold epollSetConnState
  split
  · rfl
  · exact epollCtl_interest_of_ne _ _ _ _ hfd

/-- Asking for a nonzero mask on a registered descriptor leaves it registered: as it was, or for
the connection that asked. -/
theorem EpollSet.interest_self (h : EpollSet kern c conn newState ok kern' err) {i : Interest}
    (hi : kern.interest conn.fd = some i) (hne : newState ≠ 0#32) :
    kern'.interest conn.fd = some i ∨
      kern'.interest conn.fd = some ⟨conn.epollFd, newState, c⟩ := by
  obtain rfl : _ = kern' := congrArg (·.1) h
  unfold epollSetConnState Kernel.epollCtl
  split
  · exact .inl hi
  · by_cases hold : conn.epollState = 0#32 <;> cases ok <;> cases hopen : kern.isOpen conn.fd <;>
      simp [hold, hi]

/-- The first request for a nonzero mask, on an open descriptor with nothing registered: it
registers exactly when it reports no error. -/
theorem EpollSet.fresh (h : EpollSet kern c conn newState ok kern' err)
    (hopen : kern.isOpen conn.fd = true) (hnone : kern.interest conn.fd = none)
    (hold : conn.epollState = 0#32) (hne : newState ≠ 0#32) :
    err = !ok ∧
      kern'.interest conn.fd = if ok then some ⟨conn.epollFd, newState, c⟩ else none := by
  obtain rfl : _ = kern' := congrArg (·.1) h
  obtain rfl : _ = err := congrArg (·.2.2) h
  unfold epollSetConnState Kernel.epollCtl
  rw [hold, if_neg hne]
  cases ok <;> simp [hne, hopen, hnone]

/-- A successful call on a descriptor whose registration the cache mirrors keeps it mirrored. -/
theorem EpollSet.mirror (h : EpollSet kern c conn newState true kern' err)
    (hopen : kern.isOpen conn.fd = true)
    (hold : kern.interest conn.fd = some ⟨conn.epollFd, conn.epollState, c⟩)
    (hne : conn.epollState ≠ 0#32) (hne' : newState ≠ 0#32) :
    kern'.interest conn.fd = some ⟨conn.epollFd, newState, c⟩ ∧ err = false := by
  obtain rfl : _ = kern' := congrArg (·.1) h
  obtain rfl : _ = err := congrArg (·.2.2) h
  unfold epollSetConnState Kernel.epollCtl
  split
  · next h => exact ⟨h ▸ hold, rfl⟩
  · simp [hopen, hold]

end EpollSet

/-! ## Bits of a mask -/

theorem has_twoPow (m : EpollMask) (i : Nat) (hi : i < 32) :
    m.has (BitVec.twoPow 32 i) = m.getLsbD i := by
  unfold EpollMask.has
  rw [BitVec.and_twoPow]
  have hne : BitVec.twoPow 32 i ≠ 0#32 := by
    intro h
    have hbit := congrArg (BitVec.getLsbD · i) h
    simp [hi] at hbit
  cases m.getLsbD i <;> simp [hne]

theorem has_epollIn (m : EpollMask) : m.has epollIn = m.getLsbD 0 := has_twoPow m 0 (by decide)

theorem has_epollOut (m : EpollMask) : m.has epollOut = m.getLsbD 2 := has_twoPow m 2 (by decide)

@[simp] theorem has_out_arm (m : EpollMask) : (m ||| epollOut).has epollOut = true := by
  rw [has_epollOut]
  simp [epollOut]

@[simp] theorem has_in_arm (m : EpollMask) : (m ||| epollOut).has epollIn = m.has epollIn := by
  rw [has_epollIn, has_epollIn]
  simp [epollOut]

@[simp] theorem has_in_disarm (m : EpollMask) :
    (m &&& ~~~epollOut).has epollIn = m.has epollIn := by
  rw [has_epollIn, has_epollIn]
  simp [epollOut]

/-- A mask with a bit in it is not the empty mask. -/
theorem ne_zero_of_has {m b : EpollMask} (h : m.has b = true) : m ≠ 0#32 := by
  rintro rfl
  simp [EpollMask.has] at h

end Piotbench.Server
