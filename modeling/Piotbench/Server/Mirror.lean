import Piotbench.Server.Reuse

/-!
# The cached mask and the registered one

`conn->epoll_state` is meant to say what the kernel has registered for the connection, so that
`epoll_set_conn_state` can choose the operation and leave out calls that change nothing. It is set
before `epoll_ctl` is called and not set back when the call fails. So cache and kernel agree as
long as no call fails that would have changed something, and no longer (`mirrored_iff`).
-/

namespace Piotbench.Server

/-- A call of `epoll_set_conn_state`: the mask that is asked for, and whether the kernel has the
resources for it. -/
structure MaskCall where
  newState : EpollMask
  ok : Bool

/-- The mask that is registered for a descriptor, 0 when there is none. -/
def Kernel.mask (kern : Kernel) (fd : Fd) : EpollMask :=
  match kern.interest fd with
  | none => 0
  | some i => i.events

/-- The kernel and the connection after these calls. -/
def maskCalls (c : ConnId) : List MaskCall → Kernel × ServerConnection → Kernel × ServerConnection
  | [], s => s
  | call :: calls, (kern, conn) =>
    let res := epollSetConnState kern c conn call.newState call.ok
    maskCalls c calls (res.1, res.2.1)

/-- The kernel and the connection when `handle_accept` comes to its `epoll_set_conn_state`. -/
def acceptedState (cfg : ServerConfig) (next : Nat) (fd : Fd) (kern : Kernel)
    (conn : ServerConnection) : Kernel × ServerConnection :=
  ({ kern with isOpen := Function.update kern.isOpen fd true }, acceptedConnection cfg next fd conn)

/-- What a call is to leave behind: the cached mask is the registered one, the next call is not
refused for what is registered or not, and after an error the same request is made again. -/
structure CallMirrored (c : ConnId) (s : Kernel × ServerConnection) (call : MaskCall) : Prop where
  mask : (maskCalls c [call] s).2.epollState =
    (maskCalls c [call] s).1.mask (maskCalls c [call] s).2.fd
  accepted : ∀ newState, (epollSetConnState (maskCalls c [call] s).1 c (maskCalls c [call] s).2
    newState true).2.2 = false
  retried : (epollSetConnState s.1 c s.2 call.newState call.ok).2.2 = true →
    (maskCalls c [call, ⟨call.newState, true⟩] s).1.mask s.2.fd = call.newState

/-- Every call that asks for another mask than the one before it finds the resources. -/
def Granted : EpollMask → List MaskCall → Prop
  | _, [] => True
  | old, call :: calls =>
    (call.newState = old ∨ call.ok = true) ∧ Granted call.newState calls

/-! ## One call -/

/-- The cache of an open connection says what is registered. -/
structure Mirrored (s : Kernel × ServerConnection) : Prop where
  isOpen : s.1.isOpen s.2.fd = true
  unregistered : s.2.epollState = 0#32 → s.1.interest s.2.fd = none
  registered : s.2.epollState ≠ 0#32 →
    ∃ i, s.1.interest s.2.fd = some i ∧ i.events = s.2.epollState

section Call

variable {c : ConnId} {s : Kernel × ServerConnection} {call : MaskCall}

theorem Mirrored.mask (h : Mirrored s) : s.2.epollState = s.1.mask s.2.fd := by
  unfold Kernel.mask
  by_cases hzero : s.2.epollState = 0#32
  · rw [h.unregistered hzero, hzero]
    rfl
  · obtain ⟨i, hi, hevents⟩ := h.registered hzero
    rw [hi, ← hevents]

/-- With the resources the kernel does what the operation says, if it fits what is registered. -/
theorem epollCtl_of_fits (kern : Kernel) (op : EpollOp) (fd : Fd) (new : Interest)
    (hopen : kern.isOpen fd = true) (hfits : op = .add ↔ kern.interest fd = none) :
    kern.epollCtl op fd new true =
      ({ kern with
          interest := Function.update kern.interest fd (if op = .del then none else some new) },
        false) := by
  unfold Kernel.epollCtl
  cases hi : kern.interest fd with
  | none =>
    obtain rfl := hfits.mpr hi
    simp [hopen]
  | some i =>
    have hne : op ≠ .add := by simp [hfits, hi]
    cases op with
    | add => exact absurd rfl hne
    | mod | del => simp [hopen]

/-- A call that finds the resources, or asks for nothing new, is not refused. -/
theorem Mirrored.step (h : Mirrored s) (hcall : call.newState = s.2.epollState ∨ call.ok = true) :
    Mirrored (maskCalls c [call] s) ∧
      (epollSetConnState s.1 c s.2 call.newState call.ok).2.2 = false := by
  obtain ⟨kern, conn⟩ := s
  by_cases hsame : call.newState = conn.epollState
  · simp only [maskCalls, epollSetConnState, hsame, if_true]
    exact ⟨h, trivial⟩
  · have hok : call.ok = true := hcall.resolve_left hsame
    -- the operation is chosen by the cache, which says what is registered
    have hctl := epollCtl_of_fits kern
      (if call.newState = 0#32 then .del else if conn.epollState = 0#32 then .add else .mod) conn.fd
      ⟨conn.epollFd, call.newState, c⟩ h.isOpen ?_
    · simp only [maskCalls, epollSetConnState, hsame, if_false, hok, hctl]
      refine ⟨⟨h.isOpen, fun hzero => ?_, fun hne => ?_⟩, trivial⟩
      · have hzero : call.newState = 0#32 := hzero
        simp [hzero]
      · have hne : call.newState ≠ 0#32 := hne
        refine ⟨⟨conn.epollFd, call.newState, c⟩, ?_, rfl⟩
        by_cases hold : conn.epollState = 0#32 <;> simp [hne, hold]
    · by_cases hold : conn.epollState = 0#32
      · have hne : call.newState ≠ 0#32 := fun hne => hsame (hne.trans hold.symm)
        have hnone : kern.interest conn.fd = none := h.unregistered hold
        simp [hne, hold, hnone]
      · have hsome : kern.interest conn.fd ≠ none := by
          obtain ⟨i, hi, -⟩ := h.registered hold
          exact Option.ne_none_iff_exists'.mpr ⟨i, hi⟩
        by_cases hnew : call.newState = 0#32 <;> simp [hnew, hold, hsome]

theorem maskCalls_epollState (c : ConnId) (s : Kernel × ServerConnection) (call : MaskCall) :
    (maskCalls c [call] s).2.epollState = call.newState := by
  rw [maskCalls, maskCalls, epollSetConnState_eq]

theorem maskCalls_fd (c : ConnId) (s : Kernel × ServerConnection) (call : MaskCall) :
    (maskCalls c [call] s).2.fd = s.2.fd := by
  rw [maskCalls, maskCalls, epollSetConnState_eq]

theorem Mirrored.callMirrored (h : Mirrored s)
    (hcall : call.newState = s.2.epollState ∨ call.ok = true) : CallMirrored c s call := by
  obtain ⟨hnext, herr⟩ := h.step (c := c) hcall
  refine ⟨hnext.mask, fun newState => ?_, fun hfail => ?_⟩
  · have hlater : MaskCall.newState ⟨newState, true⟩ = (maskCalls c [call] s).2.epollState ∨
        MaskCall.ok ⟨newState, true⟩ = true := .inr rfl
    exact (hnext.step hlater).2
  · exact absurd (herr.symm.trans hfail) Bool.false_ne_true

/-- A call that fails and asks for another mask leaves cache and kernel apart. -/
theorem Mirrored.granted (h : Mirrored s) (hcall : CallMirrored c s call) :
    call.newState = s.2.epollState ∨ call.ok = true := by
  by_contra hno
  obtain ⟨hne, hfail⟩ := not_or.mp hno
  have hmask := hcall.mask
  rw [maskCalls_epollState, maskCalls_fd] at hmask
  have hkern : (maskCalls c [call] s).1 = s.1 := by
    simp only [maskCalls, epollSetConnState, hne, if_false, Kernel.epollCtl, hfail, Bool.not_false,
      Bool.true_or, if_true]
  rw [hkern, ← h.mask] at hmask
  exact hne hmask

end Call

/-! ## Sequences of calls -/

/-- Every one of these calls leaves behind what it is to leave behind. -/
def CallsMirrored (c : ConnId) (s : Kernel × ServerConnection) (calls : List MaskCall) : Prop :=
  ∀ before call after, calls = before ++ call :: after →
    CallMirrored c (maskCalls c before s) call

section Calls

variable {c : ConnId} {calls : List MaskCall}

theorem Mirrored.calls_iff {s : Kernel × ServerConnection} (h : Mirrored s) :
    CallsMirrored c s calls ↔ Granted s.2.epollState calls := by
  induction calls generalizing s with
  | nil =>
    refine ⟨fun _ => trivial, fun _ before call after hsplit => ?_⟩
    cases before <;> cases hsplit
  | cons call calls ih =>
    have hstate := maskCalls_epollState c s call
    constructor
    · intro hall
      have hcall := h.granted (hall [] call calls rfl)
      refine ⟨hcall, ?_⟩
      rw [← hstate, ← ih (h.step hcall).1]
      intro before call' after hsplit
      exact hall (call :: before) call' after (by rw [hsplit, List.cons_append])
    · rintro ⟨hcall, hrest⟩ before call' after hsplit
      rw [← hstate, ← ih (h.step hcall).1] at hrest
      cases before with
      | nil =>
        cases hsplit
        exact h.callMirrored hcall
      | cons call₀ before =>
        cases hsplit
        exact hrest before call' after rfl

/-- **The cached mask mirrors the kernel** through a session, whatever masks are asked for, exactly
when every call that asks for another mask than the one before it finds the resources. -/
theorem mirrored_iff (cfg : ServerConfig) (next : Nat) {fd : Fd} {kern : Kernel}
    (conn : ServerConnection) (c : ConnId) (calls : List MaskCall)
    (hnew : kern.interest fd = none) :
    CallsMirrored c (acceptedState cfg next fd kern conn) calls ↔ Granted 0 calls := by
  have hfresh : Mirrored (acceptedState cfg next fd kern conn) :=
    ⟨Function.update_self .., fun _ => hnew, fun hne => absurd rfl hne⟩
  exact hfresh.calls_iff

end Calls

/-! ## Accepting, and arming for a response -/

/-- `handle_accept` asks for input, then a submitter for output as well. -/
def arming (ok : Bool) : List MaskCall := [⟨epollIn, true⟩, ⟨epollIn ||| epollOut, ok⟩]

theorem mirrored_arming : CallsMirrored 0
    (acceptedState smallServer 0 5 ⟨fun _ => false, fun _ => none⟩ .zero) (arming true) :=
  (mirrored_iff smallServer 0 .zero 0 (arming true) rfl).mpr
    ⟨.inr rfl, .inr rfl, trivial⟩

/-- The submitter's `epoll_ctl` fails: `EPOLLOUT` is cached and not registered, and the next request
for it is taken for redundant. -/
theorem not_mirrored_arming : ¬ CallsMirrored 0
    (acceptedState smallServer 0 5 ⟨fun _ => false, fun _ => none⟩ .zero) (arming false) := by
  intro hall
  have hretried := (hall [⟨epollIn, true⟩] _ [] rfl).retried (by decide)
  revert hretried
  decide

end Piotbench.Server
