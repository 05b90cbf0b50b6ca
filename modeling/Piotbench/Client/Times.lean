import Piotbench.Client.Boundary

/-!
# The times of a connection

`handle_client_epoll_event` sets `start_time` before the output part as long as no request has been
sent, and `end_time` behind the input part when every response has been received. The connection is
closed right after, so a closed connection has both times, in order (`timesOk_step`).

A connection that is not closed either has a response to come or is on its way to the end of the
input part (`Coming`). When `stopping` brings the total down to what has been answered, and the
event in hand has no input part, it is neither. `coming_step` is about the steps that do not do
this.
-/

namespace Piotbench.Client

open Server Transition

/-- `struct timespec`. -/
structure Timespec where
  sec : Nat
  nsec : Nat

/-- The time in nanoseconds. -/
def Timespec.ns (ts : Timespec) : Nat := ts.sec * 1000000000 + ts.nsec

/-- `as_nanoseconds`, a `uint64_t`. -/
def asNanoseconds (ts : Timespec) : Nat := ts.ns % UInt64.size

/-- The two times of a `struct client_status_t`. -/
structure ConnectionTimes where
  startTime : Timespec
  endTime : Timespec

/-- As `calloc` leaves them. -/
def ConnectionTimes.zero : ConnectionTimes := ⟨⟨0, 0⟩, ⟨0, 0⟩⟩

/-- The step sets `start_time`. -/
def setsStart (cl : ClientWorker) : ClientAction → Bool
  | .event events clockOk => events.has epollOut && cl.conn.status.sent == 0 && clockOk
  | .stop | .outputTop | .send _ | .afterOutput _ | .inputTop | .recv _ | .afterInput _ => false

/-- The step sets `end_time`. -/
def setsEnd (cl : ClientWorker) : ClientAction → Bool
  | .afterInput clockOk => cl.conn.status.received == cl.conn.status.total && clockOk
  | .stop | .event _ _ | .outputTop | .send _ | .afterOutput _ | .inputTop | .recv _ => false

/-- What a step at time `ts` does to the times of its connection. -/
def ConnectionTimes.step (times : ConnectionTimes) (cl : ClientWorker) (a : ClientAction)
    (ts : Timespec) : ConnectionTimes where
  startTime := if setsStart cl a then ts else times.startTime
  endTime := if setsEnd cl a then ts else times.endTime

/-- `client_conn_handle_output` finds `stopping` set between two requests, and the total comes
down. -/
def ClientWorker.settles (cl : ClientWorker) : ClientAction → Bool
  | .outputTop =>
    match cl.pc with
    | .output _ => cl.stopping && cl.conn.sendbuf.left == 0
    | .wait | .send _ | .afterOutput _ | .input | .recv | .afterInput => false
  | .stop | .event _ _ | .send _ | .afterOutput _ | .inputTop | .recv _ | .afterInput _ => false

/-- In the output part of an event that also carries `EPOLLIN`. -/
def ClientPc.carriesInput : ClientPc → Bool
  | .output hasIn | .send hasIn | .afterOutput hasIn => hasIn
  | .wait | .input | .recv | .afterInput => false

/-- When the total comes down, a response is still to come, or the input part is. -/
def ClientWorker.SettlesWell (cl : ClientWorker) (a : ClientAction) : Prop :=
  cl.settles a = true →
    cl.conn.status.received < cl.conn.status.sent ∨ cl.pc.carriesInput = true

/-! ## Start and end -/

section Step

variable {cl cl' : ClientWorker} {a : ClientAction} {times : ConnectionTimes} {now : Nat}
  {ts : Timespec}

/-- A connection is closed where `end_time` is set, and nowhere else. -/
theorem clientStep_closed (hstep : clientStep cl a = some cl') :
    cl'.conn.closed = (cl.conn.closed || setsEnd cl a) := by
  cases client_cases hstep with
  | stop => simp [setsEnd]
  | event hpc hevent => simp [setsEnd, (handleEvent_flags hevent).closed]
  | outputTop hpc => simp [setsEnd, (handleOutputTop_flags _ _).closed]
  | send hpc hsend => simp [setsEnd, (handleOutputSend_flags hsend).closed]
  | afterOutput hpc => simp [setsEnd, (handleAfterOutput_flags _ _ _).closed]
  | inputTop hpc => simp [setsEnd, (handleInputTop_flags _).closed]
  | recv hpc hrecv => simp [setsEnd, (handleInputRecv_flags hrecv).closed]
  | @afterInput clockOk hpc =>
    by_cases hlast : cl.conn.status.received = cl.conn.status.total
    · cases clockOk <;> simp [handleAfterInput, setsEnd, hlast]
    · simp [handleAfterInput, setsEnd, hlast]

/-- `start_time` is set for an open connection. -/
theorem open_of_setsStart (hstep : clientStep cl a = some cl') (h : setsStart cl a = true) :
    cl.conn.closed = false ∧ setsEnd cl a = false := by
  cases client_cases hstep with
  | stop | outputTop | send | afterOutput | inputTop | recv | afterInput => cases h
  | event hpc hevent =>
    refine ⟨?_, rfl⟩
    unfold handleEvent at hevent
    split at hevent
    · next hrep => exact reports_open hrep
    · cases hevent

/-- A closed connection has started before it ended, and no clock has shown more than `now`. -/
structure TimesOk (now : Nat) (cl : ClientWorker) (times : ConnectionTimes) : Prop where
  ordered : cl.conn.closed = true → times.startTime.ns ≤ times.endTime.ns
  past : times.startTime.ns ≤ now
  startFits : times.startTime.ns < UInt64.size
  endFits : times.endTime.ns < UInt64.size

theorem timesOk_zero (hopen : cl.conn.closed = false) : TimesOk 0 cl .zero := by
  have hzero : (⟨0, 0⟩ : Timespec).ns = 0 := by simp [Timespec.ns]
  refine ⟨fun hc => ?_, ?_, ?_, ?_⟩
  · rw [hopen] at hc
    cases hc
  · exact Nat.le_of_eq hzero
  · show (⟨0, 0⟩ : Timespec).ns < _
    rw [hzero]
    decide
  · show (⟨0, 0⟩ : Timespec).ns < _
    rw [hzero]
    decide

theorem TimesOk.later (h : TimesOk now cl times) {now' : Nat} (hnow : now ≤ now') :
    TimesOk now' cl times :=
  ⟨h.ordered, Nat.le_trans h.past hnow, h.startFits, h.endFits⟩

/-- **Times**: one step of the worker, at a time that is not before `now`. -/
theorem timesOk_step (h : TimesOk now cl times) (hstep : clientStep cl a = some cl')
    (hnow : now ≤ ts.ns) (hts : ts.ns < UInt64.size) :
    TimesOk ts.ns cl' (times.step cl a ts) := by
  have hclosed := clientStep_closed hstep
  cases hstart : setsStart cl a with
  | true =>
    obtain ⟨hopen, hend⟩ := open_of_setsStart hstep hstart
    rw [hopen, hend, Bool.or_false] at hclosed
    simp only [ConnectionTimes.step, hstart, hend, if_true, Bool.false_eq_true, if_false]
    refine ⟨fun hc => ?_, Nat.le_refl _, hts, h.endFits⟩
    rw [hclosed] at hc
    cases hc
  | false =>
    have hpast := Nat.le_trans h.past hnow
    cases hend : setsEnd cl a with
    | true =>
      simp only [ConnectionTimes.step, hstart, hend, if_true, Bool.false_eq_true, if_false]
      exact ⟨fun _ => hpast, hpast, h.startFits, hts⟩
    | false =>
      rw [hend, Bool.or_false] at hclosed
      simp only [ConnectionTimes.step, hstart, hend, Bool.false_eq_true, if_false]
      refine ⟨fun hc => ?_, hpast, h.startFits, h.endFits⟩
      rw [hclosed] at hc
      exact h.ordered hc

/-! ## The total -/

/-- The total comes down to what has been sent, where the worker settles, or stays. -/
theorem total_cases (hstep : clientStep cl a = some cl') :
    cl'.conn.status.total = cl.conn.status.total ∨
      cl.settles a = true ∧ cl'.conn.status.total = cl.conn.status.sent := by
  cases sending_cases hstep with
  | keep _ _ htotal | create _ _ _ _ _ htotal | send _ _ _ _ _ _ htotal => exact .inl htotal
  | settle input hpc hidle _ _ htotal =>
    cases client_cases hstep with
    | stop => exact .inl rfl
    | outputTop =>
      cases hstop : cl.stopping with
      | true => exact .inr ⟨by simp [ClientWorker.settles, hpc, hstop, hidle], htotal⟩
      | false =>
        left
        simp only [handleOutputTop, hidle, hstop, if_true, Bool.false_eq_true, if_false]
    | event hpc' | send hpc' | afterOutput hpc' | inputTop hpc' | recv hpc' | afterInput hpc' =>
      exact absurd (hpc.symm.trans hpc') (by simp)

end Step

/-! ## The end is still to come -/

/-- In the input part of an event, or in the output part of one that has both. -/
def ClientPc.ending : ClientPc → Bool
  | .afterOutput hasIn => hasIn
  | .input | .recv | .afterInput => true
  | .wait | .output _ | .send _ => false

/-- `end_time` has been set, or will be: a response is to come, or all have come and the worker is
on its way to the end of the input part. -/
inductive Coming (cl : ClientWorker) : Prop
  | closed : cl.conn.closed = true → Coming cl
  | active : cl.conn.status.received < cl.conn.status.total → Coming cl
  | ending : cl.conn.status.received = cl.conn.status.total → cl.pc.ending = true → Coming cl

section Coming

variable {cl cl' : ClientWorker} {a : ClientAction} {nrRequests : Nat} {d d' : Dialogue}

/-- What a step that leaves the status alone has to see to. -/
theorem Coming.of_status (h : Coming cl) (hclosed : cl'.conn.closed = cl.conn.closed)
    (hstatus : cl'.conn.status = cl.conn.status)
    (hpc : cl.conn.status.received = cl.conn.status.total → cl.pc.ending = true →
      cl'.pc.ending = true) : Coming cl' := by
  cases h with
  | closed hc => exact .closed (hclosed.trans hc)
  | active hlt => exact .active (by rw [hstatus]; exact hlt)
  | ending hlast hend => exact .ending (by rw [hstatus]; exact hlast) (hpc hlast hend)

/-- Before the output part has come to its end a response is still to come. -/
theorem Coming.of_not_ending (h : Coming cl) (hok : ClientOk cl) (hwait : cl.pc ≠ .wait)
    (hend : cl.pc.ending = false) : cl.conn.status.received < cl.conn.status.total := by
  cases h with
  | closed hc => exact absurd (hok.closed hc).1 hwait
  | active hlt => exact hlt
  | ending _ hpc =>
    rw [hend] at hpc
    cases hpc

theorem handleOutputTop_coming (h : Coming cl) (hok : ClientOk cl)
    (hle : cl.conn.status.received ≤ cl.conn.status.sent) {input : Bool}
    (hpc : cl.pc = .output input) (hsettle : cl.SettlesWell .outputTop) :
    Coming (handleOutputTop cl input) := by
  have hlt := h.of_not_ending hok (by simp [hpc]) (by simp [hpc, ClientPc.ending])
  by_cases hidle : cl.conn.sendbuf.left = 0
  · cases hstop : cl.stopping with
    | true =>
      have hsettles : cl.settles .outputTop = true := by
        simp [ClientWorker.settles, hpc, hstop, hidle]
      simp only [handleOutputTop, hidle, hstop, if_true]
      rcases hsettle hsettles with hmore | hinput
      · exact .active hmore
      · -- all that was sent may have been answered, but then the input part follows
        have hinput : input = true := by simpa [hpc, ClientPc.carriesInput] using hinput
        rcases Nat.lt_or_eq_of_le hle with hmore | hall
        · exact .active hmore
        · exact .ending hall hinput
    | false =>
      simp only [handleOutputTop, hidle, hstop, if_true, Bool.false_eq_true, if_false]
      exact .active hlt
  · simp only [handleOutputTop, hidle, if_false]
    exact .active hlt

theorem handleOutputSend_coming (h : Coming cl) (hok : ClientOk cl) {input : Bool}
    (hpc : cl.pc = .send input) {res : SendResult}
    (hstep : handleOutputSend cl input res = some cl') : Coming cl' := by
  have hlt := h.of_not_ending hok (by simp [hpc]) (by simp [hpc, ClientPc.ending])
  cases res with
  | eagain | error =>
    cases hstep
    exact .active hlt
  | sent n =>
    simp only [handleOutputSend] at hstep
    split at hstep
    · split at hstep <;> cases hstep <;> exact .active hlt
    · cases hstep

theorem handleAfterOutput_coming (h : Coming cl) (hok : ClientOk cl)
    (hle : cl.conn.status.received ≤ cl.conn.status.sent) {input ok : Bool}
    (hpc : cl.pc = .afterOutput input) :
    Coming (handleAfterOutput cl input ok) ∨ returnsError cl (.afterOutput ok) = true := by
  have hconn := handleAfterOutput_conn cl input ok
  by_cases hlast : cl.conn.status.sent = cl.conn.status.total
  · cases ok with
    | true =>
      left
      refine h.of_status (by rw [hconn]) (by rw [hconn]) fun _ hend => ?_
      have hinput : input = true := by simpa [hpc, ClientPc.ending] using hend
      subst hinput
      simp only [handleAfterOutput, epollSetConn, hlast, if_true]
      rfl
    | false =>
      right
      simp [returnsError, hlast]
  · left
    -- a request is to be sent, so a response is to come
    have hlt := Nat.lt_of_le_of_ne hok.sent_le hlast
    refine .active ?_
    rw [hconn]
    exact Nat.lt_of_le_of_lt hle hlt

theorem handleInputTop_coming (h : Coming cl) : Coming (handleInputTop cl) := by
  simp only [handleInputTop]
  split
  · split
    · exact h.of_status rfl rfl fun _ _ => rfl
    · exact h.of_status rfl rfl fun _ _ => rfl
  · exact h.of_status rfl rfl fun _ _ => rfl

theorem handleInputRecv_coming (h : Coming cl) (hok : ClientOk cl) {res : RecvResult}
    (hstep : handleInputRecv cl res = some cl')
    (hle : cl'.conn.status.received ≤ cl'.conn.status.sent) :
    Coming cl' ∨ returnsError cl (.recv res) = true := by
  cases res with
  | eagain | eof =>
    cases hstep
    exact .inl (h.of_status rfl rfl fun _ _ => rfl)
  | error => exact .inr rfl
  | data bytes =>
    left
    simp only [handleInputRecv] at hstep
    split at hstep
    · cases hstep
      have hsent := hok.sent_le
      simp only at hle
      split at hle
      · -- the last byte of a response: it may be the last response
        next hdone =>
        rcases Nat.lt_or_eq_of_le (Nat.le_trans hle hsent) with hlt | hlast
        · exact .active (by simpa [hdone] using hlt)
        · exact .ending (by simpa [hdone] using hlast) rfl
      · next hmore =>
        refine h.of_status rfl ?_ fun _ _ => rfl
        simp [hmore]
    · cases hstep

theorem handleAfterInput_coming (h : Coming cl) (clockOk : Bool) :
    Coming (handleAfterInput cl clockOk) ∨ returnsError cl (.afterInput clockOk) = true := by
  by_cases hlast : cl.conn.status.received = cl.conn.status.total
  · cases clockOk with
    | true =>
      left
      simp only [handleAfterInput, hlast, if_true]
      exact .closed rfl
    | false =>
      right
      simp [returnsError, hlast]
  · left
    simp only [handleAfterInput, hlast, if_false]
    exact h.of_status rfl rfl fun hall _ => absurd hall hlast

/-- **One step**: the end is still to come, or the step is an error. -/
theorem coming_step (h : Coming d.cl) (hok : DialogueOk nrRequests d)
    (hok' : DialogueOk nrRequests d') (hsettle : d.cl.SettlesWell a)
    (hstep : d.step a = some d') : Coming d'.cl ∨ returnsError d.cl a = true := by
  obtain ⟨cl', hcl, rfl⟩ := Option.map_eq_some_iff.mp hstep
  cases client_cases hcl with
  | stop => exact .inl (h.of_status rfl rfl fun _ hend => hend)
  | event hpc hevent =>
    have hconn := handleEvent_conn hevent
    refine .inl (h.of_status (by rw [hconn]) (by rw [hconn]) fun _ hend => ?_)
    rw [hpc] at hend
    cases hend
  | outputTop hpc => exact .inl (handleOutputTop_coming h hok.ok hok.received_le hpc hsettle)
  | send hpc hsend => exact .inl (handleOutputSend_coming h hok.ok hpc hsend)
  | afterOutput hpc => exact handleAfterOutput_coming h hok.ok hok.received_le hpc
  | inputTop hpc => exact .inl (handleInputTop_coming h)
  | recv hpc hrecv => exact handleInputRecv_coming h hok.ok hrecv hok'.received_le
  | afterInput hpc => exact handleAfterInput_coming h _

end Coming

end Piotbench.Client
