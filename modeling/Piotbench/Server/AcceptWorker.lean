import Piotbench.Server.Reuse

/-!
# The loop of an accept worker

`__accept_worker` of `src/server/io/accept.c`, whatever `Z_epoll_wait`, `Z_accept4` and
`Z_epoll_ctl` return, from any reachable state of the server. `handle_accept` takes an object out
of `empty_connections` before it makes the two calls that can fail, and does not put it back when
they do; nor does it close what `Z_accept4` has returned. So nothing is lost exactly as long as no
call fails (`accept_loses_nothing_iff`).
-/

namespace Piotbench.Server

open Transition

/-- What an iteration of `__accept_worker` meets. -/
inductive AcceptOutcome
  /-- `Z_epoll_wait` fails, other than by `EINTR`. -/
  | error
  | interrupted
  | timeout
  /-- An event, which carries `EPOLLIN` or not, and what `Z_accept4` and `Z_epoll_ctl` do. -/
  | ready (input : Bool) (accepted : Option Fd) (ok : Bool)
  deriving DecidableEq

/-- A call of `handle_accept`, with the state before and after it. -/
structure AcceptCall where
  before : ServerContext
  accepted : Option Fd
  ok : Bool
  err : Bool
  after : ServerContext

/-- What a run of `__accept_worker` returns, with the calls it has made. -/
structure AcceptResult where
  ret : Int
  calls : List AcceptCall
  state : ServerContext

/-- `handle_accept` on worker `a`: take an object, then the rest. With none there it returns 0. -/
def handleAccept (cfg : ServerConfig) (a : Nat) (accepted : Option Fd) (ok : Bool)
    (s : ServerContext) : Option (Bool × ServerContext) :=
  match s.emptyConnections with
  | [] => some (false, s)
  | c :: _ =>
    (handleAcceptInit cfg (handleAcceptTake s a) a c accepted ok).map fun s' =>
      (decide (s'.accept a = .failed c), s')

/-- `__accept_worker` with `n` iterations to go. The outcomes are used up when `stopping` is
found set. -/
def acceptWorker (cfg : ServerConfig) (a : Nat) :
    Nat → List AcceptOutcome → ServerContext → Option AcceptResult
  | 0, _, s | _, [], s => some ⟨0, [], s⟩
  | n + 1, outcome :: outcomes, s =>
    match outcome with
    | .error => some ⟨-1, [], s⟩
    | .timeout => some ⟨0, [], s⟩
    | .interrupted | .ready false _ _ => acceptWorker cfg a n outcomes s
    | .ready true accepted ok =>
      match handleAccept cfg a accepted ok s with
      | none => none
      | some (true, s') => some ⟨-1, [⟨s, accepted, ok, true, s'⟩], s'⟩
      | some (false, s') =>
        (acceptWorker cfg a n outcomes s').map fun res =>
          { res with calls := ⟨s, accepted, ok, false, s'⟩ :: res.calls }

/-- The iterations of one call of `__accept_worker`. -/
def acceptIterations : Nat := 1000

/-- The connection is open and registered with its IO worker. -/
structure SessionAt (s : ServerContext) (c : ConnId) : Prop where
  closed : (s.conns c).closed = false
  live : s.Live (s.conns c).ioidx c

/-- The object is in the pool, or that of a session. -/
def Kept (s : ServerContext) (c : ConnId) : Prop := c ∈ s.emptyConnections ∨ SessionAt s c

/-- An error has put the object back and closed the descriptor. -/
def AcceptCall.Undone (call : AcceptCall) : Prop :=
  call.err = true → ∀ c, call.before.emptyConnections.head? = some c →
    call.after.emptyConnections.count c = call.before.emptyConnections.count c ∧
      ∀ fd, call.accepted = some fd → call.after.kernel.isOpen fd = false

/-- With an object there, both calls succeed. -/
def AcceptCall.Succeeds (call : AcceptCall) : Prop :=
  call.before.emptyConnections ≠ [] → call.accepted.isSome = true ∧ call.ok = true

/-- A run of `__accept_worker` from `s` has lost nothing: every error has been undone, and every
object that was in the pool or of a session still is one of the two. -/
structure LosesNothing (s : ServerContext) (res : AcceptResult) : Prop where
  undone : ∀ call ∈ res.calls, call.Undone
  kept : ∀ c, Kept s c → Kept res.state c

/-! ## Registered descriptors are open -/

section Kernel

variable {cfg : ServerConfig} {sha1 : Sha1} {s s' : ServerContext}

/-- Only open descriptors are registered. -/
def Kernel.Sound (kern : Kernel) : Prop := ∀ fd, kern.interest fd ≠ none → kern.isOpen fd = true

theorem Kernel.Sound.close {kern : Kernel} (h : kern.Sound) (fd : Fd) : (kern.close fd).Sound := by
  intro fd' hi
  by_cases hfd : fd' = fd
  · subst hfd
    simp [Kernel.close] at hi
  · simp only [Kernel.close, Function.update_of_ne hfd] at hi ⊢
    exact h fd' hi

theorem Kernel.Sound.epollSet {kern kern' : Kernel} {c : ConnId} {conn : ServerConnection}
    {newState : EpollMask} {ok err : Bool} (h : kern.Sound)
    (hset : EpollSet kern c conn newState ok kern' err) : kern'.Sound := by
  intro fd hi
  rw [hset.isOpen]
  by_cases hfd : fd = conn.fd
  · subst hfd
    cases hopen : kern.isOpen conn.fd with
    | true => rfl
    | false =>
      -- `epoll_ctl` refuses a descriptor that is not open
      have hnone : kern.interest conn.fd = none := by
        by_contra hsome
        exact Bool.false_ne_true (hopen.symm.trans (h conn.fd hsome))
      obtain rfl : _ = kern' := congrArg (·.1) hset
      unfold epollSetConnState Kernel.epollCtl at hi
      split at hi
      · exact absurd hnone hi
      · simp [hopen, hnone] at hi
  · rw [hset.interest_of_ne hfd] at hi
    exact h fd hi

theorem Kernel.Sound.open {kern : Kernel} (h : kern.Sound) (fd : Fd) :
    { kern with isOpen := Function.update kern.isOpen fd true }.Sound := by
  intro fd' hi
  by_cases hfd : fd' = fd
  · subst hfd
    exact Function.update_self ..
  · exact (Function.update_of_ne hfd ..).trans (h fd' hi)

theorem sound_step {a : Action} (h : s.kernel.Sound) (hs : Step cfg sha1 s a s') :
    s'.kernel.Sound := by
  cases hs with
  | @accepted _ _ fd ok hpc hfd _ _ _ kern err hres => exact (h.open fd).epollSet hres
  | settleDisarm hpc heq hres => exact h.epollSet hres
  | enqueue hpc hcl hres => exact h.epollSet hres
  | finishRelease | finishDelegate => exact h.close _
  | _ => exact h

/-- **In every run of the server**, orderly or not. -/
theorem sound_of_run {ok : ServerContext → Action → Prop} {bufs : BufId → ServerBuffer}
    (h : Run cfg sha1 ok bufs s) : s.kernel.Sound := by
  refine h.invariant (I := fun s => s.kernel.Sound) ?_ fun _ hsound _ hstep =>
    sound_step hsound (step_cases hstep)
  intro fd hi
  cases hi rfl

end Kernel

/-! ## One call of `handle_accept` -/

section Accept

variable {cfg : ServerConfig} {sha1 : Sha1} {s s' : ServerContext} {a : Nat}
  {accepted : Option Fd} {ok err : Bool}

/-- What a call of `handle_accept` does. -/
inductive Accepting (cfg : ServerConfig) (a : Nat) (s : ServerContext) :
    Option Fd → Bool → Bool → ServerContext → Prop
  | none {accepted : Option Fd} {ok : Bool} (hq : s.emptyConnections = []) :
      Accepting cfg a s accepted ok false s
  | refused {c : ConnId} {rest : List ConnId} {ok : Bool} (hq : s.emptyConnections = c :: rest) :
      Accepting cfg a s none ok true
        { s with emptyConnections := rest, accept := Function.update s.accept a (.failed c) }
  | accepted {c : ConnId} {rest : List ConnId} {fd : Fd} {ok : Bool} {kern : Kernel}
      (hq : s.emptyConnections = c :: rest) (hfd : s.kernel.isOpen fd = false)
      (hres : EpollSet { s.kernel with isOpen := Function.update s.kernel.isOpen fd true } c
        (acceptedConnection cfg s.next fd (s.conns c)) epollIn ok kern (!ok))
      (hinterest : kern.interest fd =
        if ok then some ⟨s.next % cfg.threads.io, epollIn, c⟩ else none) :
      Accepting cfg a s (some fd) ok (!ok)
        { s with
          emptyConnections := rest
          next := s.next + 1
          kernel := kern
          conns := Function.update s.conns c
            { acceptedConnection cfg s.next fd (s.conns c) with epollState := epollIn }
          accept := Function.update s.accept a (if !ok then .failed c else .idle) }

/-- `handle_accept` is two steps of the server. -/
theorem handleAccept_path (hidle : s.accept a = .idle)
    (h : handleAccept cfg a accepted ok s = some (err, s')) :
    Reachable (step cfg sha1) (fun _ _ => True) s s' := by
  unfold handleAccept at h
  have htake : step cfg sha1 s (.acceptTake a) = some (handleAcceptTake s a) := by
    simp only [step, hidle]
  cases hq : s.emptyConnections with
  | nil =>
    simp only [hq, Option.some.injEq, Prod.mk.injEq] at h
    exact h.2 ▸ .refl
  | cons c rest =>
    simp only [hq] at h
    obtain ⟨s₁, hinit, heq⟩ := Option.map_eq_some_iff.mp h
    obtain ⟨-, rfl⟩ := Prod.mk.inj heq
    have htook : (handleAcceptTake s a).accept a = .took c := by
      simp only [handleAcceptTake, hq, Function.update_self]
    refine .tail (.tail .refl trivial htake) (a := .acceptInit a accepted ok) trivial ?_
    simp only [step, htook]
    exact hinit

theorem handleAccept_cases (hsound : s.kernel.Sound)
    (h : handleAccept cfg a accepted ok s = some (err, s')) :
    Accepting cfg a s accepted ok err s' := by
  unfold handleAccept at h
  cases hq : s.emptyConnections with
  | nil =>
    simp only [hq, Option.some.injEq, Prod.mk.injEq] at h
    obtain ⟨rfl, rfl⟩ := h
    exact .none hq
  | cons c rest =>
    simp only [hq, handleAcceptTake] at h
    obtain ⟨s₁, hinit, heq⟩ := Option.map_eq_some_iff.mp h
    obtain ⟨rfl, rfl⟩ := Prod.mk.inj heq
    cases accepted with
    | none =>
      cases hinit
      simp only [Function.update_self, decide_true, Function.update_idem]
      exact .refused hq
    | some fd =>
      simp only [handleAcceptInit] at hinit
      split at hinit
      · cases hinit
      · next hg =>
        simp only [not_or, Bool.not_eq_true] at hg
        have hnone : s.kernel.interest fd = none := by
          by_contra hsome
          exact Bool.false_ne_true (hg.1.symm.trans (hsound fd hsome))
        have hres := epollSetConnState_eq
          { s.kernel with isOpen := Function.update s.kernel.isOpen fd true } c
          (acceptedConnection cfg s.next fd (s.conns c)) epollIn ok
        -- the first registration fails if and only if `epoll_ctl` does
        obtain ⟨herr, hinterest⟩ := EpollSet.fresh hres (Function.update_self ..) hnone rfl
          (by decide)
        rw [hres] at hinit
        cases hinit
        simp only [herr] at hres hinterest ⊢
        have hdecide : decide ((if (!ok) = true then AcceptPc.failed c else AcceptPc.idle) =
            AcceptPc.failed c) = !ok := by
          cases ok <;> simp
        simp only [Function.update_self, Function.update_idem, hdecide]
        exact .accepted hq hg.1 hres hinterest

/-- A call returns an error exactly when one of the two calls it makes fails. -/
theorem Accepting.err_iff (h : Accepting cfg a s accepted ok err s') :
    err = true ↔ s.emptyConnections ≠ [] ∧ ¬ (accepted.isSome = true ∧ ok = true) := by
  cases h with
  | none hq => simp [hq]
  | refused hq => simp [hq]
  | accepted hq => simp [hq]

/-- An error takes the object for good. -/
theorem Accepting.count_lt (h : Accepting cfg a s accepted ok err s') (herr : err = true)
    {c : ConnId} (hc : s.emptyConnections.head? = some c) :
    s'.emptyConnections.count c < s.emptyConnections.count c := by
  cases h with
  | none => cases herr
  | @refused c' rest ok hq =>
    simp only [hq, List.head?_cons, Option.some.injEq] at hc
    subst hc
    simp [hq]
  | @accepted c' rest fd ok kern hq =>
    simp only [hq, List.head?_cons, Option.some.injEq] at hc
    subst hc
    simp [hq]

/-- **One call without an error** loses nothing. -/
theorem Accepting.kept (h : Accepting cfg a s accepted ok false s') (hsound : s.kernel.Sound)
    {c' : ConnId} (hk : Kept s c') : Kept s' c' := by
  generalize herr : false = err at h
  cases h with
  | none => exact hk
  | refused => cases herr
  | @accepted c rest fd ok kern hq hfd hres hinterest =>
    obtain rfl : ok = true := by simpa using herr.symm
    by_cases hc : c' = c
    · -- the object taken is now that of the new session
      subst hc
      refine .inr ⟨by simp [acceptedConnection], epollIn, ?_⟩
      simpa [acceptedConnection] using hinterest
    · rcases hk with hpool | ⟨hclosed, events, hlive⟩
      · left
        rw [hq] at hpool
        exact (List.mem_cons.mp hpool).resolve_left hc
      · right
        have hne : (s.conns c').fd ≠ fd := by
          intro heq
          have hopen := hsound _ (by rw [hlive]; simp)
          rw [heq, hfd] at hopen
          cases hopen
        refine ⟨by simpa [Function.update_of_ne hc] using hclosed, events, ?_⟩
        simp only [Function.update_of_ne hc]
        rw [hres.interest_of_ne hne]
        exact hlive

theorem Accepting.sound (h : Accepting cfg a s accepted ok err s') (hsound : s.kernel.Sound) :
    s'.kernel.Sound := by
  cases h with
  | none | refused => exact hsound
  | @accepted c rest fd ok kern hq hfd hres => exact (hsound.open fd).epollSet hres

/-- Without an error the worker is back in its loop. -/
theorem Accepting.idle (h : Accepting cfg a s accepted ok false s') (hidle : s.accept a = .idle) :
    s'.accept a = .idle := by
  generalize herr : false = err at h
  cases h with
  | none => exact hidle
  | refused => cases herr
  | accepted => simp [← herr]

end Accept

/-! ## The loop -/

section Loop

variable {cfg : ServerConfig} {sha1 : Sha1} {s : ServerContext} {a n : Nat}
  {outcomes : List AcceptOutcome} {res : AcceptResult}

/-- What holds of a run of the loop from `s`. -/
structure Accepts (cfg : ServerConfig) (sha1 : Sha1) (a : Nat) (s : ServerContext)
    (res : AcceptResult) : Prop where
  path : Reachable (step cfg sha1) (fun _ _ => True) s res.state
  calls : ∀ call ∈ res.calls,
    Accepting cfg a call.before call.accepted call.ok call.err call.after
  kept : (∀ call ∈ res.calls, call.err = false) → ∀ c, Kept s c → Kept res.state c

/-- Nothing is accepted. -/
theorem Accepts.stay (ret : Int) : Accepts cfg sha1 a s ⟨ret, [], s⟩ := by
  refine ⟨.refl, ?_, fun _ _ hk => hk⟩
  intro call hmem
  cases hmem

/-- **The loop**, by induction on what its iterations meet. -/
theorem acceptWorker_accepts (hsound : s.kernel.Sound) (hidle : s.accept a = .idle)
    (hrun : acceptWorker cfg a n outcomes s = some res) : Accepts cfg sha1 a s res := by
  induction outcomes generalizing n s res with
  | nil =>
    cases n <;> cases hrun <;> exact .stay 0
  | cons outcome outcomes ih =>
    cases n with
    | zero =>
      cases hrun
      exact .stay 0
    | succ n =>
      cases outcome with
      | error =>
        cases hrun
        exact .stay (-1)
      | timeout =>
        cases hrun
        exact .stay 0
      | interrupted => exact ih hsound hidle hrun
      | ready input accepted ok =>
        cases input with
        | false => exact ih hsound hidle hrun
        | true =>
          simp only [acceptWorker] at hrun
          split at hrun
          · cases hrun
          · next s' hcall =>
            -- the first error ends the loop
            cases hrun
            refine ⟨handleAccept_path hidle hcall, ?_, fun hall => ?_⟩
            · intro call hmem
              obtain rfl := List.mem_singleton.mp hmem
              exact handleAccept_cases hsound hcall
            · cases hall _ List.mem_cons_self
          · next s' hcall =>
            obtain ⟨res', hrest, rfl⟩ := Option.map_eq_some_iff.mp hrun
            have hone := handleAccept_cases hsound hcall
            have hlater := ih (hone.sound hsound) (hone.idle hidle) hrest
            refine ⟨(handleAccept_path hidle hcall).trans hlater.path, ?_, fun hall c hk => ?_⟩
            · intro call hmem
              rcases List.mem_cons.mp hmem with rfl | hmem
              · exact hone
              · exact hlater.calls call hmem
            · apply hlater.kept
              · intro call hmem
                exact hall call (List.mem_cons_of_mem _ hmem)
              · exact hone.kept hsound hk

/-- **A failed accept**: a run of `__accept_worker`, from any reachable state, whatever the kernel
answers, is a run of the server; it loses nothing if and only if no `Z_accept4` or `Z_epoll_ctl`
that `handle_accept` makes fails. -/
theorem accept_loses_nothing_iff {bufs : BufId → ServerBuffer}
    (hs : Run cfg sha1 (fun _ _ => True) bufs s) (hidle : s.accept a = .idle)
    (hrun : acceptWorker cfg a n outcomes s = some res) :
    Run cfg sha1 (fun _ _ => True) bufs res.state ∧
      (LosesNothing s res ↔ ∀ call ∈ res.calls, call.Succeeds) := by
  have hacc : Accepts cfg sha1 a s res := acceptWorker_accepts (sound_of_run hs) hidle hrun
  refine ⟨hs.trans hacc.path, ?_⟩
  constructor
  · intro hnone call hmem hpool
    by_contra hfail
    have hcall := hacc.calls call hmem
    have herr := hcall.err_iff.mpr ⟨hpool, hfail⟩
    obtain ⟨c, rest, hq⟩ := List.exists_cons_of_ne_nil hpool
    have hhead : call.before.emptyConnections.head? = some c := by rw [hq, List.head?_cons]
    have hback := (hnone.undone call hmem herr c hhead).1
    exact absurd hback (Nat.ne_of_lt (hcall.count_lt herr hhead))
  · intro hall
    have hnoErr : ∀ call ∈ res.calls, call.err = false := by
      intro call hmem
      by_contra herr
      rw [Bool.not_eq_false] at herr
      have hfail := (hacc.calls call hmem).err_iff.mp herr
      exact hfail.2 (hall call hmem hfail.1)
    refine ⟨fun call hmem herr => ?_, hacc.kept hnoErr⟩
    exact absurd (herr.symm.trans (hnoErr call hmem)) (by simp)

end Loop

/-! ## One object -/

/-- A connection is accepted, then `Z_epoll_wait` times out. -/
theorem accept_loses_nothing_accepted : ∃ res,
    acceptWorker smallServer 0 acceptIterations [.ready true (some 5) true, .timeout]
      (.init smallServer blankBuffers) = some res ∧
    LosesNothing (.init smallServer blankBuffers) res := by
  have hrun : ∃ res, acceptWorker smallServer 0 acceptIterations
      [.ready true (some 5) true, .timeout] (.init smallServer blankBuffers) = some res ∧
      ∀ call ∈ res.calls, call.accepted.isSome = true ∧ call.ok = true := by
    refine ⟨_, rfl, ?_⟩
    intro call hmem
    obtain rfl := List.mem_singleton.mp hmem
    exact ⟨rfl, rfl⟩
  obtain ⟨res, hres, hcalls⟩ := hrun
  have hinit : Run smallServer zeroSha1 (fun _ _ => True) blankBuffers
    (.init smallServer blankBuffers) := .refl
  exact ⟨res, hres, (accept_loses_nothing_iff hinit rfl hres).2.mpr
    fun call hmem _ => hcalls call hmem⟩

/-- The peer has given up by the time of `Z_accept4`: the only object is in no queue any more. -/
theorem not_losesNothing_refused : ∃ res,
    acceptWorker smallServer 0 acceptIterations [.ready true none true]
      (.init smallServer blankBuffers) = some res ∧
    ¬ LosesNothing (.init smallServer blankBuffers) res := by
  refine ⟨_, rfl, ?_⟩
  intro hnone
  have hback := (hnone.undone _ List.mem_cons_self rfl 0 rfl).1
  revert hback
  decide

end Piotbench.Server
