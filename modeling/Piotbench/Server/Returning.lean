import Mathlib.Data.List.Perm.Subperm
import Piotbench.Lib.Line
import Piotbench.Server.Stopping
import Piotbench.Server.Teardown

/-!
# A closed session ends

When a session is closed with requests still on their way, its object comes back by way of the two
workers it has been given: the compute worker goes on with the requests, and the submitter disposes
of them. Other sessions use the same workers, and a `trylock` that is refused sends a buffer to the
end of its inbox again. But both inboxes are queues, and on a closed connection no `trylock` is
refused: one buffer at most, to which the lock was refused before, still goes back. So each of the
two workers comes to the session after a bounded number of its own steps, whatever the others do
(`object_returns`).
-/

namespace Piotbench.Server

open Transition

variable {cfg : ServerConfig} {sha1 : Sha1} {bufs : BufId → ServerBuffer}
  {s s' : ServerContext} {a : Action} {c : ConnId} {i j : Nat} {b : BufId}

/-! ## The lines of the workers -/

/-- A hand and the inbox behind it hold no more buffers than there are. -/
theorem length_line_le {p q : Place} (h : Inv cfg s) (hpq : p ≠ q) :
    (s.owned p ++ s.owned q).length ≤ cfg.alloc.buffers := by
  have hnd : (s.owned p ++ s.owned q).Nodup :=
    List.nodup_append.mpr ⟨h.owned.nodup p, h.owned.nodup q, fun b hb b' hb' =>
      h.owned.ne hb hb' hpq⟩
  have hsub : s.owned p ++ s.owned q ⊆ List.range cfg.alloc.buffers := by
    intro b hb
    apply List.mem_range.mpr
    rcases List.mem_append.mp hb with hb | hb <;> exact (h.owned.covers b).mpr ⟨_, hb⟩
  have hlen := (List.subperm_of_subset hnd hsub).length_le
  rwa [List.length_range] at hlen

/-- What a step of compute worker `i` does to its line. -/
inductive ComputeTurn (s s' : ServerContext) (i : Nat) : Prop
  | empty (hline : s.computeLine i = []) (hline' : s'.computeLine i = [])
  | get {b : BufId} (hpc : s.compute i = .idle) (hpc' : s'.compute i = .got b)
      (hline : s'.computeLine i = s.computeLine i)
  | run {b : BufId} (hpc : s.compute i = .got b) (hpc' : s'.compute i = .idle)
      (hline : s.computeLine i = b :: s'.computeLine i)

theorem computeTurn (hstep : step cfg sha1 s a = some s') (ha : a.threadId = ⟨.compute, i⟩) :
    ComputeTurn s s' i := by
  cases a with
  | computeGet i' =>
    cases ha
    simp only [step] at hstep
    split at hstep
    · next hpc =>
      cases hstep
      unfold computeWorkerGet
      split
      · next hq =>
        have hline : s.computeLine i = [] := by
          simp [ServerContext.computeLine, hpc, hq, ComputePc.hand]
        exact .empty hline hline
      · next b rest hq =>
        refine .get hpc (Function.update_self ..) ?_
        simp [ServerContext.computeLine, hpc, hq, ComputePc.hand]
    · cases hstep
  | computeRun i' clock =>
    cases ha
    simp only [step] at hstep
    split at hstep
    · next b hpc =>
      obtain ⟨msg, -, rfl⟩ := Option.map_eq_some_iff.mp hstep
      refine .run hpc (Function.update_self ..) ?_
      simp [ServerContext.computeLine, hpc, ComputePc.hand]
    · cases hstep
  | _ => cases ha

/-- The connection whose buffer a submitter is about to put back. -/
def SubmitPc.turnedAway : SubmitPc → Option ConnId
  | .refused _ c => some c
  | .idle | .got _ _ | .locked _ _ | .compare _ | .exited => none

/-- What a step of submitter `j` does to its line. -/
inductive SubmitTurn (s s' : ServerContext) (j : Nat) : Prop
  | empty (hpc : s.submit j = .idle) (hline : s.submitLine j = [])
  | get {b : BufId} {c : ConnId} (hpc : s.submit j = .idle) (hpc' : s'.submit j = .got b c)
      (hline : s'.submitLine j = s.submitLine j)
  | refuse {b : BufId} {c : ConnId} (hpc : s.submit j = .got b c)
      (hlock : (s.conns c).lock = true) (hpc' : s'.submit j = .refused b c)
      (hline : s'.submitLine j = s.submitLine j)
  | back {b : BufId} {c : ConnId} {rest : List BufId} (hpc : s.submit j = .refused b c)
      (hpc' : s'.submit j = .idle) (hline : s.submitLine j = b :: rest)
      (hline' : s'.submitLine j = rest ++ [b])
  | lock {b : BufId} {c : ConnId} (hpc : s.submit j = .got b c) (hpc' : s'.submit j = .locked b c)
      (hline : s'.submitLine j = s.submitLine j)
  | done {b : BufId} {c : ConnId} (hpc : s.submit j = .locked b c)
      (hpc' : (s'.submit j).turnedAway = none) (hline : s.submitLine j = b :: s'.submitLine j)
  | compare {c : ConnId} (hpc : s.submit j = .compare c) (hpc' : s'.submit j = .idle)
      (hline : s'.submitLine j = s.submitLine j)

theorem submitTurn (hstep : step cfg sha1 s a = some s') (ha : a.threadId = ⟨.submit, j⟩) :
    SubmitTurn s s' j := by
  cases a with
  | submitGet j' =>
    cases ha
    simp only [step] at hstep
    split at hstep
    · next hpc =>
      cases hstep
      unfold submitterGet
      split
      · next hq => exact .empty hpc (by simp [ServerContext.submitLine, hpc, hq, SubmitPc.hand])
      · next b rest hq =>
        refine .get hpc (Function.update_self ..) ?_
        simp [ServerContext.submitLine, hpc, hq, SubmitPc.hand]
    · cases hstep
  | submitTrylock j' =>
    cases ha
    simp only [step] at hstep
    split at hstep
    · next b c hpc =>
      cases hstep
      unfold submitterTrylock
      split
      · next hlock =>
        refine .refuse hpc hlock (Function.update_self ..) ?_
        simp [ServerContext.submitLine, hpc, SubmitPc.hand]
      · refine .lock hpc (Function.update_self ..) ?_
        simp [ServerContext.submitLine, hpc, SubmitPc.hand]
    · cases hstep
  | submitPutBack j' =>
    cases ha
    simp only [step] at hstep
    split at hstep
    · next b c hpc =>
      cases hstep
      have hline : s.submitLine j = b :: s.submitterInbox j := by
        simp [ServerContext.submitLine, hpc, SubmitPc.hand]
      refine .back hpc (Function.update_self ..) hline ?_
      simp [submitterPutBack, ServerContext.submitLine, SubmitPc.hand, queuePut]
    · cases hstep
  | submitSection j' ok =>
    cases ha
    simp only [step] at hstep
    split at hstep
    · next b c hpc =>
      cases hstep
      unfold submitterSection
      split
      · refine .done hpc (by simp [submitterDispose, SubmitPc.turnedAway]) ?_
        simp [submitterDispose, ServerContext.submitLine, hpc, SubmitPc.hand]
      · refine .done hpc ?_ ?_ <;>
        simp only [submitterQueue, ServerContext.submitLine, Function.update_self, hpc] <;>
        split <;> rfl
    · cases hstep
  | submitCompare j' =>
    cases ha
    simp only [step] at hstep
    split at hstep
    · next c hpc =>
      cases hstep
      unfold submitterCompare
      split <;>
      · refine .compare hpc (Function.update_self ..) ?_
        simp [ServerContext.submitLine, hpc, SubmitPc.hand]
    · cases hstep
  | _ => cases ha

/-! ## How far back a session goes -/

/-- How many buffers compute worker `i` has yet to take until it has none of connection `c`. -/
def ServerContext.computeReach (s : ServerContext) (i : Nat) (c : ConnId) : Nat :=
  Line.reach (fun b => (s.bufs b).conn = c) (s.computeLine i)

/-- How many buffers submitter `j` has yet to take until it has none of connection `c`. -/
def ServerContext.submitReach (s : ServerContext) (j : Nat) (c : ConnId) : Nat :=
  Line.reach (fun b => (s.bufs b).conn = c) (s.submitLine j)

/-- A thread only writes its own inbox and its own state. -/
theorem own_update {α : Type} {f : Nat → α} {g : Group} {n n' : Nat} {v : α}
    (ha : a.threadId ≠ ⟨g, n⟩) (ha' : a.threadId = ⟨g, n'⟩) : Function.update f n' v n = f n := by
  apply Function.update_of_ne
  rintro rfl
  exact ha ha'

/-- The buffers of a line keep their connections. -/
theorem reach_step {l : List BufId} (h : Inv cfg s) (hs : Step cfg sha1 s a s') (c : ConnId)
    (hl : ∀ b ∈ l, b ∉ s.emptyBuffers) :
    Line.reach (fun b => (s'.bufs b).conn = c) l = Line.reach (fun b => (s.bufs b).conn = c) l :=
  Line.reach_congr fun b hb => by rw [conn_step h hs (hl b hb)]

theorem computeReach_of_line (h : Inv cfg s) (hs : Step cfg sha1 s a s')
    (hline : s'.computeLine i = s.computeLine i) : s'.computeReach i c = s.computeReach i c := by
  unfold ServerContext.computeReach
  rw [hline]
  exact reach_step h hs c fun b => h.computeLine_not_empty

theorem submitReach_of_line (h : Inv cfg s) (hs : Step cfg sha1 s a s')
    (hline : s'.submitLine j = s.submitLine j) : s'.submitReach j c = s.submitReach j c := by
  unfold ServerContext.submitReach
  rw [hline]
  exact reach_step h hs c fun b => h.submitLine_not_empty

/-- On a closed connection nothing is received, so the other threads leave it where it is in the
line of its compute worker. -/
theorem computeReach_of_ne (h : Inv cfg s) (hs : Step cfg sha1 s a s')
    (hcl : (s.conns c).closed = true) (ha : a.threadId ≠ ⟨.compute, i⟩) :
    s'.computeReach i c = s.computeReach i c := by
  have hsame : s'.computeLine i = s.computeLine i → s'.computeReach i c = s.computeReach i c :=
    computeReach_of_line h hs
  cases hs with
  | @deliver k c' b hpc =>
    have hop := h.openAt (k := k) (c := c') (by simp [hpc, IoPc.conn])
    have hb : (s.bufs b).conn = c' := h.inFlight.recvbuf c' b hop.closed (h.pcOk hpc).1
    have hne : (s.bufs b).conn ≠ c := by
      rw [hb]
      rintro rfl
      exact Bool.false_ne_true (hop.closed.symm.trans hcl)
    by_cases hi : i = (s.conns c').computeidx
    · simp only [ServerContext.computeReach, ServerContext.computeLine, goto_compute,
        goto_computeInbox, goto_bufs, hi, Function.update_self]
      rw [← List.append_assoc]
      apply Line.reach_append
      simp [hne]
    · exact hsame (by simp [ServerContext.computeLine, Function.update_of_ne hi])
  | computeGet | computeRun =>
    exact hsame (by simp only [ServerContext.computeLine, own_update ha rfl])
  | _ => exact hsame rfl

/-- When nothing of a connection is left at compute, the other threads leave it where it is in the
line of its submitter. -/
theorem submitReach_of_ne (h : Inv cfg s) (hs : Step cfg sha1 s a s') (hcomp : s.computing c = [])
    (ha : a.threadId ≠ ⟨.submit, j⟩) : s'.submitReach j c = s.submitReach j c := by
  have hsame : s'.submitLine j = s.submitLine j → s'.submitReach j c = s.submitReach j c :=
    submitReach_of_line h hs
  have hconn := reach_step h hs c fun b => h.submitLine_not_empty (j := j)
  cases hs with
  | @computeRun i b clock msg hpc hmsg =>
    have hline : b ∈ s.computeLine i := by simp [ServerContext.computeLine, hpc, ComputePc.hand]
    have hne : (s.bufs b).conn ≠ c := by
      rintro rfl
      have hidx := (h.inFlight.compute i b hline).2
      have hmem : b ∈ s.computing (s.bufs b).conn := by
        simp [ServerContext.computing, hidx, hline]
      simp [hcomp] at hmem
    by_cases hj : j = (s.conns (s.bufs b).conn).submitidx
    · refine Eq.trans ?_ hconn
      simp only [ServerContext.submitReach, ServerContext.submitLine, hj, Function.update_self]
      rw [← List.append_assoc]
      apply Line.reach_append
      simp [hne]
    · exact hsame (by simp [ServerContext.submitLine, Function.update_of_ne hj])
  | submitGet | submitRefused | submitBack | submitLock | dispose | enqueue | submitRelease
  | submitNext =>
    exact hsame (by simp only [ServerContext.submitLine, own_update ha rfl])
  | _ => exact hsame rfl

/-! ## What the two workers have left to do -/

/-- How many steps compute worker `i` has left, at most, until it has no buffer of `c`. -/
def ServerContext.computeLeft (s : ServerContext) (i : Nat) (c : ConnId) : Nat :=
  2 * s.computeReach i c - (s.compute i).hand.length

/-- How far a submitter is from its next `queue_get`. -/
def SubmitPc.ahead : SubmitPc → Nat
  | .locked _ _ | .refused _ _ | .exited => 0
  | .got _ _ => 1
  | .idle => 2
  | .compare _ => 3

theorem SubmitPc.ahead_le (pc : SubmitPc) : pc.ahead ≤ 3 := by
  cases pc <;> simp [SubmitPc.ahead]

/-- How many steps submitter `j` has left, at most, until it has put the object of `c` back, when
compute has no buffer of `c`. A buffer of `c` that goes back has everything else before it. -/
def ServerContext.submitLeft (cfg : ServerConfig) (s : ServerContext) (j : Nat) (c : ConnId) :
    Nat :=
  if (s.submit j).turnedAway = some c then 4 * cfg.alloc.buffers + 3
  else 4 * s.submitReach j c + (s.submit j).ahead

/-- **One step of the compute worker** leaves it one step less, if any. -/
theorem computeLeft_own (h : Inv cfg s) (hstep : step cfg sha1 s a = some s')
    (ha : a.threadId = ⟨.compute, i⟩) :
    s'.computeReach i c ≤ s.computeReach i c ∧
      s'.computeLeft i c = s.computeLeft i c - 1 := by
  have hs := step_cases hstep
  unfold ServerContext.computeLeft
  cases computeTurn hstep ha with
  | empty hline hline' =>
    have hzero : s.computeReach i c = 0 := by simp [ServerContext.computeReach, hline]
    have hzero' : s'.computeReach i c = 0 := by simp [ServerContext.computeReach, hline']
    rw [hzero, hzero']
    exact ⟨Nat.le_refl 0, by omega⟩
  | get hpc hpc' hline =>
    rw [computeReach_of_line h hs hline, hpc, hpc']
    simp only [ComputePc.hand, List.length_nil, List.length_singleton]
    exact ⟨Nat.le_refl _, by omega⟩
  | @run b hpc hpc' hline =>
    have hreach : s'.computeReach i c = s.computeReach i c - 1 := by
      unfold ServerContext.computeReach
      rw [reach_step h hs c, hline, ← Line.reach_tail]
      intro b' hb'
      exact h.computeLine_not_empty (i := i) (hline ▸ List.mem_cons_of_mem _ hb')
    rw [hreach, hpc, hpc']
    simp only [ComputePc.hand, List.length_nil, List.length_singleton]
    exact ⟨Nat.sub_le .., by omega⟩

/-- On a closed connection no `trylock` of a submitter is refused. -/
theorem lock_free_of_closed (h : Run cfg sha1 Orderly bufs s) (hcl : (s.conns c).closed = true)
    (hpc : s.submit j = .got b c) : (s.conns c).lock = false := by
  have hinv := inv_of_run (fun _ _ => id) h
  obtain ⟨hin, hidx, -⟩ := hinv.submitHand (congrArg SubmitPc.carried hpc)
  rw [← Bool.not_eq_true]
  intro hlock
  obtain ⟨u, hu⟩ := (lockOk_of_run h).taken c hin hlock
  cases u with
  | io k =>
    -- an IO worker in the section has the connection open
    have hop := hinv.openAt (IoPc.conn_of_held hu)
    exact Bool.false_ne_true (hop.closed.symm.trans hcl)
  | submit j' =>
    -- and no other submitter has buffers of the session
    simp only [ServerContext.held] at hu
    cases hpc' : s.submit j' with
    | locked b' c' =>
      rw [hpc'] at hu
      cases hu
      obtain rfl : j' = j := (hinv.submitHand (congrArg SubmitPc.carried hpc')).2.1.symm.trans hidx
      rw [hpc] at hpc'
      cases hpc'
    | idle | got | refused | compare | exited =>
      rw [hpc'] at hu
      cases hu

/-- When neither has a buffer of the session left, its submitter is about to compare. -/
theorem compare_of_drained
    (h : Run cfg sha1 (fun s a => Orderly s a ∧ nothingHalfSent s a = true) bufs s)
    (hc : c < cfg.alloc.sessions) (hin : s.InSession c) (hcl : (s.conns c).closed = true)
    (hcomp : s.computing c = []) (hsub : s.submitting c = []) :
    s.submit (s.conns c).submitidx = .compare c := by
  have hinv := inv_of_run (fun _ _ h => h.1) h
  rcases owed_of_run (fun _ _ => id) h hc hin hcl with hne | ⟨j, hj⟩
  · have hflow := (hinv.accounts c hin).flow
    rw [hcomp, hsub] at hflow
    exact absurd hflow.symm hne
  · obtain rfl := (hinv.inFlight.compare j c hj).2.2
    exact hj

theorem submitReach_le (h : Inv cfg s) (j : Nat) (c : ConnId) :
    s.submitReach j c ≤ cfg.alloc.buffers :=
  (Line.reach_le ..).trans
    (length_line_le (p := .submitterHand j) (q := .submitterInbox j) h (by simp))

theorem submitLeft_eq {pc : SubmitPc} (hpc : s.submit j = pc) (h : pc.turnedAway ≠ some c) :
    s.submitLeft cfg j c = 4 * s.submitReach j c + pc.ahead := by
  unfold ServerContext.submitLeft
  rw [hpc, if_neg h]

theorem submitLeft_le (h : Inv cfg s) (j : Nat) (c : ConnId) :
    s.submitLeft cfg j c ≤ 4 * cfg.alloc.buffers + 3 := by
  have hreach := submitReach_le h j c
  have hahead := (s.submit j).ahead_le
  unfold ServerContext.submitLeft
  split <;> omega

/-- **One step of the submitter** of a closed session that compute has done with. As long as one of
its buffers is in the line, every turn brings the last of them nearer, whosever turn it is. -/
theorem submitLeft_own
    (h : Run cfg sha1 (fun s a => Orderly s a ∧ nothingHalfSent s a = true) bufs s)
    (hc : c < cfg.alloc.sessions) (hin : s.InSession c) (hcl : (s.conns c).closed = true)
    (hcomp : s.computing c = []) (hinv' : Inv cfg s') (hstep : step cfg sha1 s a = some s')
    (ha : a.threadId = ⟨.submit, (s.conns c).submitidx⟩) :
    1 + s'.submitLeft cfg (s.conns c).submitidx c ≤ s.submitLeft cfg (s.conns c).submitidx c := by
  have hrun : Run cfg sha1 Orderly bufs s := h.strengthen fun _ hok => hok.1
  have hinv := inv_of_run (fun _ _ => id) hrun
  have hs := step_cases hstep
  have hpos : s.submit (s.conns c).submitidx ≠ .compare c →
      0 < s.submitReach (s.conns c).submitidx c := by
    intro hne
    apply Nat.pos_of_ne_zero
    intro hzero
    exact hne (compare_of_drained h hc hin hcl hcomp (Line.reach_eq_zero.mp hzero))
  generalize hj : (s.conns c).submitidx = j at ha hpos ⊢
  cases submitTurn hstep ha with
  | empty hpc hline =>
    have hzero : s.submitReach j c = 0 := by simp [ServerContext.submitReach, hline]
    have hreach := hpos (by simp [hpc])
    omega
  | get hpc hpc' hline | lock hpc hpc' hline =>
    have hreach := hpos (by simp [hpc])
    rw [submitLeft_eq hpc (by simp [SubmitPc.turnedAway]),
      submitLeft_eq hpc' (by simp [SubmitPc.turnedAway]), submitReach_of_line hinv hs hline]
    simp only [SubmitPc.ahead]
    omega
  | @refuse b c' hpc hlock hpc' hline =>
    -- the lock is not refused to a buffer of this connection
    have hreach := hpos (by simp [hpc])
    have hne : c' ≠ c := by
      rintro rfl
      exact Bool.false_ne_true ((lock_free_of_closed hrun hcl hpc).symm.trans hlock)
    rw [submitLeft_eq hpc (by simp [SubmitPc.turnedAway]),
      submitLeft_eq hpc' (by simp [SubmitPc.turnedAway, hne]), submitReach_of_line hinv hs hline]
    simp only [SubmitPc.ahead]
    omega
  | @back b c' rest hpc hpc' hline hline' =>
    have hidle : s'.submitLeft cfg j c = 4 * s'.submitReach j c + 2 :=
      submitLeft_eq hpc' (by simp [SubmitPc.turnedAway])
    by_cases hcc : c' = c
    · -- it was refused before the close
      have hall : s.submitLeft cfg j c = 4 * cfg.alloc.buffers + 3 := by
        unfold ServerContext.submitLeft
        rw [hpc, hcc]
        exact if_pos rfl
      have hfew := submitReach_le hinv' j c
      omega
    · -- it goes behind those of this connection
      have hreach := hpos (by simp [hpc])
      have hne : (s.bufs b).conn ≠ c := (hinv.submitHand (congrArg SubmitPc.carried hpc)).2.2 ▸ hcc
      have hrotate : s'.submitReach j c = s.submitReach j c - 1 := by
        unfold ServerContext.submitReach
        rw [hline', reach_step hinv hs c, hline, Line.reach_rotate (by simp [hne])]
        intro b' hb'
        apply hinv.submitLine_not_empty (j := j)
        grind
      have hleft : s.submitLeft cfg j c = 4 * s.submitReach j c + 0 :=
        submitLeft_eq hpc (by simp [SubmitPc.turnedAway, hcc])
      omega
  | @done b c' hpc hpc' hline =>
    have hreach := hpos (by simp [hpc])
    have hpop : s'.submitReach j c = s.submitReach j c - 1 := by
      unfold ServerContext.submitReach
      rw [reach_step hinv hs c, hline, ← Line.reach_tail]
      intro b' hb'
      exact hinv.submitLine_not_empty (j := j) (hline ▸ List.mem_cons_of_mem _ hb')
    have hahead := (s'.submit j).ahead_le
    have hleft : s.submitLeft cfg j c = 4 * s.submitReach j c + 0 :=
      submitLeft_eq hpc (by simp [SubmitPc.turnedAway])
    have hleft' : s'.submitLeft cfg j c = 4 * s'.submitReach j c + (s'.submit j).ahead :=
      submitLeft_eq rfl (by simp [hpc'])
    omega
  | compare hpc hpc' hline =>
    rw [submitLeft_eq hpc (by simp [SubmitPc.turnedAway]),
      submitLeft_eq hpc' (by simp [SubmitPc.turnedAway]), submitReach_of_line hinv hs hline]
    simp only [SubmitPc.ahead]
    omega

theorem computeLeft_le (h : Inv cfg s) (i : Nat) (c : ConnId) :
    s.computeLeft i c ≤ 2 * cfg.alloc.buffers := by
  have hreach : s.computeReach i c ≤ cfg.alloc.buffers :=
    (Line.reach_le ..).trans
      (length_line_le (p := .computeHand i) (q := .computeInbox i) h (by simp))
  unfold ServerContext.computeLeft
  omega

/-! ## The object comes back -/

/-- The steps that compute worker `i` takes while it has buffers of connection `c`. -/
def computeSteps (i : Nat) (c : ConnId) (s : ServerContext) (a : Action) : Nat :=
  if a.threadId = ⟨.compute, i⟩ ∧ s.computing c ≠ [] then 1 else 0

/-- The steps that submitter `j` takes when compute has no buffers of connection `c`. -/
def submitSteps (j : Nat) (c : ConnId) (s : ServerContext) (a : Action) : Nat :=
  if a.threadId = ⟨.submit, j⟩ ∧ s.computing c = [] then 1 else 0

/-- What holds of a closed session as long as its object is not back. -/
structure Closing (i j : Nat) (c : ConnId) (s : ServerContext) : Prop where
  closed : (s.conns c).closed = true
  computeidx : (s.conns c).computeidx = i
  submitidx : (s.conns c).submitidx = j

theorem Closing.computing_nil (h : Closing i j c s) :
    s.computing c = [] ↔ s.computeReach i c = 0 := by
  obtain ⟨-, rfl, rfl⟩ := h
  exact Line.reach_eq_zero.symm

theorem closing_step (hstep : step cfg sha1 s a = some s') (hin : s.InSession c)
    (h : Closing i j c s) (hin' : s'.InSession c) : Closing i j c s' := by
  have hs := step_cases hstep
  have hk := keeps_step hs hin fun hrel => hrel.not_inSession hs hin'
  exact ⟨closed_step hs hin h.closed, hk.computeidx.trans h.computeidx,
    hk.submitidx.trans h.submitidx⟩

/-- **One step of the server**, as far as the compute worker is concerned. -/
theorem computeLeft_step (h : Inv cfg s) (hcl : Closing i j c s)
    (hstep : step cfg sha1 s a = some s') :
    computeSteps i c s a + s'.computeLeft i c ≤ s.computeLeft i c ∧
      s'.computeReach i c ≤ s.computeReach i c := by
  have hs := step_cases hstep
  have hnil := hcl.computing_nil
  by_cases ha : a.threadId = ⟨.compute, i⟩
  · obtain ⟨hreach, hleft⟩ := computeLeft_own (c := c) h hstep ha
    refine ⟨?_, hreach⟩
    unfold computeSteps
    split
    · next hcond =>
      have hpos : s.computeReach i c ≠ 0 := fun hzero => hcond.2 (hnil.mpr hzero)
      have hhand : (s.compute i).hand.length ≤ 1 := by cases s.compute i <;> simp [ComputePc.hand]
      have hone : 1 ≤ s.computeLeft i c := by
        unfold ServerContext.computeLeft
        omega
      omega
    · omega
  · have hsame := computeReach_of_ne h hs hcl.closed ha
    rw [computeSteps, if_neg fun hcond => ha hcond.1, ServerContext.computeLeft, hsame,
      compute_of_ne hs ha]
    exact ⟨Nat.le_of_eq (Nat.zero_add _), Nat.le_refl _⟩

/-- How many steps the submitter has left, at most, in all: they count from when the compute worker
has done with the session. -/
def ServerContext.returnLeft (cfg : ServerConfig) (s : ServerContext) (i j : Nat) (c : ConnId) :
    Nat :=
  if s.computeReach i c = 0 then s.submitLeft cfg j c else 4 * cfg.alloc.buffers + 3

/-- **One step of the server**, as far as the submitter is concerned. -/
theorem returnLeft_step
    (h : Run cfg sha1 (fun s a => Orderly s a ∧ nothingHalfSent s a = true) bufs s)
    (hc : c < cfg.alloc.sessions) (hin : s.InSession c) (hcl : Closing i j c s)
    (hok : Orderly s a ∧ nothingHalfSent s a = true) (hstep : step cfg sha1 s a = some s') :
    submitSteps j c s a + s'.returnLeft cfg i j c ≤ s.returnLeft cfg i j c := by
  have hs := step_cases hstep
  have hinv := inv_of_run (fun _ _ h => h.1) h
  have hinv' : Inv cfg s' := inv_of_run (fun _ _ h => h.1) (h.tail hok hstep)
  have hreach := (computeLeft_step hinv hcl hstep).2
  have hnil := hcl.computing_nil
  unfold ServerContext.returnLeft submitSteps
  by_cases hzero : s.computeReach i c = 0
  · have hzero' : s'.computeReach i c = 0 := by omega
    rw [if_pos hzero, if_pos hzero']
    split
    · next hcond =>
      have hown := submitLeft_own h hc hin hcl.closed hcond.2 hinv' hstep
        (hcl.submitidx ▸ hcond.1)
      rwa [hcl.submitidx] at hown
    · next hcond =>
      have ha : a.threadId ≠ ⟨.submit, j⟩ := fun ha => hcond ⟨ha, hnil.mpr hzero⟩
      have hlocker : a.locker ≠ some (.submit j) := fun hj => ha (threadId_of_locker hj)
      have hsame : s'.submitLeft cfg j c = s.submitLeft cfg j c := by
        unfold ServerContext.submitLeft
        rw [submitReach_of_ne hinv hs (hnil.mpr hzero) ha, submit_of_ne hs hlocker]
      omega
  · have hleft := submitLeft_le hinv' j c
    rw [if_neg hzero, if_neg fun hcond => hzero (hnil.mp hcond.2)]
    split <;> omega

theorem compute_enabled (s : ServerContext) (i : Nat) : ∃ a s', a.threadId = ⟨.compute, i⟩ ∧
    (Orderly s a ∧ nothingHalfSent s a = true) ∧ step cfg sha1 s a = some s' := by
  cases hpc : s.compute i with
  | idle =>
    refine ⟨.computeGet i, computeWorkerGet s i, rfl, ⟨⟨rfl, rfl⟩, rfl⟩, ?_⟩
    simp only [step, hpc]
  | got b =>
    have hrun : step cfg sha1 s (.computeRun i [none]) =
        computeWorkerRun cfg sha1 s i b [none] := by simp only [step, hpc]
    exact ⟨.computeRun i [none], _, rfl, ⟨⟨rfl, rfl⟩, rfl⟩, hrun⟩

theorem submit_enabled (hpc : s.submit j ≠ .exited) : ∃ a s', a.threadId = ⟨.submit, j⟩ ∧
    (Orderly s a ∧ nothingHalfSent s a = true) ∧ step cfg sha1 s a = some s' := by
  cases hsubmit : s.submit j with
  | idle =>
    refine ⟨.submitGet j, submitterGet s j, rfl, ⟨⟨rfl, rfl⟩, rfl⟩, ?_⟩
    simp only [step, hsubmit]
  | got b c =>
    refine ⟨.submitTrylock j, submitterTrylock s j b c, rfl, ⟨⟨rfl, rfl⟩, rfl⟩, ?_⟩
    simp only [step, hsubmit]
  | refused b c =>
    refine ⟨.submitPutBack j, submitterPutBack s j b, rfl, ⟨⟨rfl, rfl⟩, rfl⟩, ?_⟩
    simp only [step, hsubmit]
  | locked b c =>
    refine ⟨.submitSection j true, submitterSection s j b c true, rfl, ⟨⟨rfl, rfl⟩, rfl⟩, ?_⟩
    simp only [step, hsubmit]
  | compare c =>
    refine ⟨.submitCompare j, submitterCompare s j c, rfl, ⟨⟨rfl, rfl⟩, rfl⟩, ?_⟩
    simp only [step, hsubmit]
  | exited => exact absurd hsubmit hpc

/-- **A closed session ends.** As long as the object of a closed session is not back, its compute
worker takes at most two steps for each buffer of the server until it has none of the session left,
and from then on its submitter at most four for each and three more, whatever the other sessions
and workers do meanwhile. Both can always go on, unless the submitter has ended with an error. -/
theorem object_returns
    (h : Run cfg sha1 (fun s a => Orderly s a ∧ nothingHalfSent s a = true) bufs s)
    (hc : c < cfg.alloc.sessions) (hcl : (s.conns c).closed = true) :
    (∀ l s', Path (step cfg sha1)
        (fun s a => (Orderly s a ∧ nothingHalfSent s a = true) ∧ s.InSession c) s l s' →
      total (computeSteps (s.conns c).computeidx c) l ≤ 2 * cfg.alloc.buffers ∧
        total (submitSteps (s.conns c).submitidx c) l ≤ 4 * cfg.alloc.buffers + 3) ∧
      (∃ a s', a.threadId = ⟨.compute, (s.conns c).computeidx⟩ ∧
        (Orderly s a ∧ nothingHalfSent s a = true) ∧ step cfg sha1 s a = some s') ∧
      (s.submit (s.conns c).submitidx ≠ .exited →
        ∃ a s', a.threadId = ⟨.submit, (s.conns c).submitidx⟩ ∧
          (Orderly s a ∧ nothingHalfSent s a = true) ∧ step cfg sha1 s a = some s') := by
  refine ⟨fun l s' hpath => ?_, compute_enabled s _, submit_enabled⟩
  have hinv := inv_of_run (fun _ _ h => h.1) h
  generalize hi : (s.conns c).computeidx = i
  generalize hj : (s.conns c).submitidx = j
  have halong := hpath.along (I := fun s => s.InSession c → Closing i j c s)
    (fun hold hok hstep => closing_step hstep hok.2 (hold hok.2)) fun _ => ⟨hcl, hi, hj⟩
  have hcompute := halong.potential (fun s => s.computeLeft i c) (computeSteps i c) (fun _ _ => 0)
    (fun hok => hok.1.1)
    (fun {s a s'} hr hok hstep => by
      have hinv := inv_of_run (fun _ _ h => h.1) hr
      exact (computeLeft_step hinv (hok.2 hok.1.2) hstep).1) h
  have hsubmit := halong.potential (fun s => s.returnLeft cfg i j c) (submitSteps j c)
    (fun _ _ => 0) (fun hok => hok.1.1)
    (fun {s a s'} hr hok hstep =>
      returnLeft_step hr hc hok.1.2 (hok.2 hok.1.2) hok.1.1 hstep) h
  have hleft := computeLeft_le hinv i c
  have hreturn : s.returnLeft cfg i j c ≤ 4 * cfg.alloc.buffers + 3 := by
    unfold ServerContext.returnLeft
    split
    · exact submitLeft_le hinv j c
    · exact Nat.le_refl _
  rw [total_zero] at hcompute hsubmit
  constructor <;> omega

/-- Two requests are at compute when the connection breaks. -/
def deserted : List Action :=
  connect ++ receiveOne ++ receiveOne ++ [.requestTop 0, .epollWait 0 [(5, epollErr)], .event 0,
    .finishTrylock 0, .finishBody 0]

/-- The two workers dispose of both. -/
def returning : List Action :=
  [.computeGet 0, .computeRun 0 [some 0, some 0], .computeGet 0, .computeRun 0 [some 0, some 0],
    .submitGet 0, .submitTrylock 0, .submitSection 0 true, .submitCompare 0, .submitGet 0,
    .submitTrylock 0, .submitSection 0 true, .submitCompare 0]

/-- A worker has a buffer of session 0, or the submitter is about to compare. -/
def OnTheWay (s : ServerContext) : Prop :=
  (∃ b ∈ s.computeLine 0, (s.bufs b).conn = 0) ∨ (∃ b ∈ s.submitLine 0, (s.bufs b).conn = 0) ∨
    s.submit 0 = .compare 0

instance (s : ServerContext) : Decidable (OnTheWay s) := by
  unfold OnTheWay
  infer_instance

theorem OnTheWay.inSession (h : OnTheWay s) (hinv : Inv cfg s) : s.InSession 0 := by
  rcases h with ⟨b, hb, hconn⟩ | ⟨b, hb, hconn⟩ | hpc
  · exact hconn ▸ (hinv.inFlight.compute 0 b hb).1
  · exact hconn ▸ (hinv.inFlight.submit 0 b hb).1
  · exact (hinv.inFlight.compare 0 0 hpc).1

theorem object_returns_deserted : ∃ s l s',
    Run smallServer zeroSha1 (fun s a => Orderly s a ∧ nothingHalfSent s a = true) blankBuffers s ∧
      Path (step smallServer zeroSha1)
        (fun s a => (Orderly s a ∧ nothingHalfSent s a = true) ∧ s.InSession 0) s l s' ∧
      (s.conns 0).closed = true ∧ total (computeSteps (s.conns 0).computeidx 0) l = 4 ∧
      total (submitSteps (s.conns 0).submitidx 0) l = 8 ∧
      total (computeSteps (s.conns 0).computeidx 0) l ≤ 2 * smallServer.alloc.buffers ∧
      total (submitSteps (s.conns 0).submitidx 0) l ≤ 4 * smallServer.alloc.buffers + 3 := by
  obtain ⟨s', hs'⟩ := Option.isSome_iff_exists.mp (by decide +kernel : ((run
    (step smallServer zeroSha1) (fun s a => Orderly s a ∧ nothingHalfSent s a = true)
    (.init smallServer blankBuffers) deserted).bind (run (step smallServer zeroSha1)
      (fun s a => (Orderly s a ∧ nothingHalfSent s a = true) ∧ OnTheWay s) ·
        returning)).isSome = true)
  obtain ⟨s, hs, hrest⟩ := Option.bind_eq_some_iff.mp hs'
  have hrun : Run smallServer zeroSha1 (fun s a => Orderly s a ∧ nothingHalfSent s a = true)
      blankBuffers s := reachable_of_run hs
  have hpath : Path (step smallServer zeroSha1)
      (fun s a => (Orderly s a ∧ nothingHalfSent s a = true) ∧ s.InSession 0) s
      (visited (step smallServer zeroSha1) s returning) s' := by
    refine (path_of_run hrest).strengthen (fun hok => hok.1) (fun hr hok => ?_) hrun
    exact ⟨hok.1, hok.2.inSession (inv_of_run (fun _ _ h => h.1) hr)⟩
  have hcount : ((run (step smallServer zeroSha1)
      (fun s a => Orderly s a ∧ nothingHalfSent s a = true) (.init smallServer blankBuffers)
      deserted).map fun s => decide ((s.conns 0).closed = true ∧
        total (computeSteps (s.conns 0).computeidx 0)
          (visited (step smallServer zeroSha1) s returning) = 4 ∧
        total (submitSteps (s.conns 0).submitidx 0)
          (visited (step smallServer zeroSha1) s returning) = 8)) = some true := by decide +kernel
  rw [hs, Option.map_some, Option.some.injEq] at hcount
  obtain ⟨hcl, hcompute, hsubmit⟩ := of_decide_eq_true hcount
  obtain ⟨hbound, -⟩ := object_returns hrun (by decide) hcl
  obtain ⟨hcompute', hsubmit'⟩ := hbound _ s' hpath
  exact ⟨s, _, s', hrun, hpath, hcl, hcompute, hsubmit, hcompute', hsubmit'⟩

end Piotbench.Server
