import Piotbench.Client.Thread

/-!
# Stopping between two requests

The runs of a thread of the client, against peers that answer complete requests only. Seen from
one connection a run of the thread is a run of its dialogue (`ThreadRun.dialogue`), and what holds
there holds of every connection: whole requests on the wire, a total that comes down once at most,
and everything answered when the thread leaves its loop (`whole_requests`).
-/

namespace Piotbench.Client

open Server Transition

/-- A thread, with all the bytes sent and all the bytes received on its connections. -/
structure Wired where
  thread : ClientThread
  wire : Nat → List Byte
  heard : Nat → List Byte

def Wired.init (nrRequests : Nat) : Wired := ⟨.init nrRequests, fun _ => [], fun _ => []⟩

/-- The bytes that a step sends on connection `i`. -/
def sentOn (t : ClientThread) (i : Nat) (a : ThreadAction) : List Byte :=
  match a.on t i with
  | some b => bytesOut (t.worker i) b
  | none => []

/-- The bytes that a step receives on connection `i`. -/
def heardOn (t : ClientThread) (i : Nat) (a : ThreadAction) : List Byte :=
  match a.on t i with
  | some b => bytesIn b
  | none => []

def wiredStep (nrConnections : Nat) (w : Wired) (a : ThreadAction) : Option Wired :=
  (threadStep nrConnections w.thread a).map fun t =>
    ⟨t, fun i => w.wire i ++ sentOn w.thread i a, fun i => w.heard i ++ heardOn w.thread i a⟩

/-- No peer sends more than one response for every complete request. -/
def PeersOk (nrConnections : Nat) (w : Wired) (a : ThreadAction) : Prop :=
  ∀ i < nrConnections, answered (w.wire i) (w.heard i ++ heardOn w.thread i a)

instance (nrConnections : Nat) (w : Wired) (a : ThreadAction) :
    Decidable (PeersOk nrConnections w a) :=
  inferInstanceAs (Decidable (∀ i < nrConnections, _))

/-- The thread comes from `w` to `w'`. -/
abbrev ThreadPath (nrConnections : Nat) : Wired → Wired → Prop :=
  Reachable (wiredStep nrConnections) (PeersOk nrConnections)

/-- The runs of a thread. -/
abbrev ThreadRun (nrConnections nrRequests : Nat) : Wired → Prop :=
  ThreadPath nrConnections (.init nrRequests)

/-- The dialogue on connection `i`. -/
def Wired.dialogue (w : Wired) (i : Nat) : Dialogue := ⟨w.thread.worker i, w.wire i, w.heard i⟩

section Run

variable {nrConnections nrRequests : Nat} {w w' : Wired}

/-- A step of the thread, seen from one connection: nothing happens, or a step of its dialogue. -/
theorem wiredStep_dialogue {a : ThreadAction} (hstep : wiredStep nrConnections w a = some w')
    (i : Nat) :
    (a.on w.thread i = none ∧ w'.dialogue i = w.dialogue i) ∨
      ∃ b, a.on w.thread i = some b ∧ (w.dialogue i).step b = some (w'.dialogue i) := by
  obtain ⟨t', ht, rfl⟩ := Option.map_eq_some_iff.mp hstep
  have hworker := threadStep_worker ht i
  cases hon : a.on w.thread i with
  | none =>
    left
    simp only [hon] at hworker
    refine ⟨rfl, ?_⟩
    simp only [Wired.dialogue, sentOn, heardOn, hon, List.append_nil, hworker]
  | some b =>
    right
    simp only [hon] at hworker
    refine ⟨b, rfl, ?_⟩
    simp only [Wired.dialogue, Dialogue.step, sentOn, heardOn, hon, hworker, Option.map_some]

/-- A run of the thread, seen from one connection. -/
theorem ThreadPath.dialogue (h : ThreadPath nrConnections w w') {i : Nat}
    (hi : i < nrConnections) :
    Reachable Dialogue.step Dialogue.PeerOk (w.dialogue i) (w'.dialogue i) := by
  apply h.project fun w => w.dialogue i
  intro w a w' hpeers hstep
  rcases wiredStep_dialogue hstep i with ⟨-, hsame⟩ | ⟨b, hon, hdialogue⟩
  · exact .inl hsame
  · have hpeer := hpeers i hi
    simp only [heardOn, hon] at hpeer
    exact .inr ⟨b, hpeer, hdialogue⟩

theorem ThreadRun.dialogueOk (hnr : 1 ≤ nrRequests) (h : ThreadRun nrConnections nrRequests w)
    {i : Nat} (hi : i < nrConnections) : DialogueOk nrRequests (w.dialogue i) :=
  (ThreadPath.dialogue h hi).invariant (dialogueOk_init hnr)
    fun _ hok hpeer hstep => dialogueOk_step hok hpeer hstep

/-! ## A connection that has sent its total -/

/-- From then on nothing is sent, and the total stays. -/
theorem settled_run {d d' : Dialogue} (h : DialogueOk nrRequests d)
    (hrun : Reachable Dialogue.step Dialogue.PeerOk d d')
    (hlast : d.cl.conn.status.sent = d.cl.conn.status.total) :
    d'.cl.conn.status.total = d.cl.conn.status.total ∧ d'.wire = d.wire := by
  have hkept : DialogueOk nrRequests d' ∧
      d'.cl.conn.status.sent = d'.cl.conn.status.total ∧
      d'.cl.conn.status.total = d.cl.conn.status.total ∧ d'.wire = d.wire := by
    refine hrun.invariant (I := fun d' => DialogueOk nrRequests d' ∧
      d'.cl.conn.status.sent = d'.cl.conn.status.total ∧
      d'.cl.conn.status.total = d.cl.conn.status.total ∧ d'.wire = d.wire)
      ⟨h, hlast, rfl, rfl⟩ ?_
    rintro d₁ a d₂ - ⟨hok, hlast₁, htotal, hwire⟩ hpeer hstep
    have hok₂ := dialogueOk_step hok hpeer hstep
    obtain ⟨cl, hcl, rfl⟩ := Option.map_eq_some_iff.mp hstep
    obtain ⟨hsent, htotal₂, hout⟩ := clientStep_settled hok.ok hcl hlast₁
    refine ⟨hok₂, ?_, htotal₂.trans htotal, ?_⟩
    · exact hsent.trans (hlast₁.trans htotal₂.symm)
    · show d₁.wire ++ bytesOut d₁.cl a = d.wire
      rw [hout, List.append_nil, hwire]
  exact hkept.2.2

/-- A total that is not what it was is what has been sent. -/
theorem settled_of_ne {d d' : Dialogue} (h : DialogueOk nrRequests d)
    (h' : DialogueOk nrRequests d') (hrun : Reachable Dialogue.step Dialogue.PeerOk d d')
    (hne : d'.cl.conn.status.total ≠ d.cl.conn.status.total) :
    d'.cl.conn.status.total = d'.cl.conn.status.sent ∧ d'.cl.conn.sendbuf.left = 0 := by
  rcases h'.total with htotal' | hsettled
  · rcases h.total with htotal | ⟨hsent, -⟩
    · exact absurd (htotal'.trans htotal.symm) hne
    · exact absurd (settled_run h hrun hsent.symm).1 hne
  · exact hsettled

/-! ## Leaving the loop -/

/-- Behind the loop, unless `epoll_wait` has failed, no connection has responses to come. -/
def Inactive (nrConnections : Nat) (t : ClientThread) : Prop :=
  t.pc = .left → t.ret = 0 →
    ∀ i < nrConnections, (t.conns i).status.total ≤ (t.conns i).status.received

theorem connStep_pc {t t' : ClientThread} {i : Nat} {rest : List ThreadEvent} {a : ClientAction}
    (hstep : connStep t i rest a = some t') : t'.pc ≠ .left := by
  obtain ⟨cl, -, rfl⟩ := Option.map_eq_some_iff.mp hstep
  show (if _ then _ else _) ≠ ThreadPc.left
  split
  · simp
  · split <;> simp

theorem inactive_step {t t' : ClientThread} {a : ThreadAction} (h : Inactive nrConnections t)
    (hstep : threadStep nrConnections t a = some t') : Inactive nrConnections t' := by
  intro hleft hret
  cases threadStep_cases hstep with
  | stop => exact h hleft hret
  | stay | eintr | events | done => cases hleft
  | fail => cases hret
  | leave hpc hidle =>
    -- the loop is left because no connection is active
    intro i hi
    have hnone := List.countP_eq_zero.mp hidle i (List.mem_range.mpr hi)
    exact Nat.le_of_not_lt (by simpa using hnone)
  | event hpc hconn | conn hpc hb hconn => exact absurd hleft (connStep_pc hconn)

theorem ThreadRun.inactive (h : ThreadRun nrConnections nrRequests w) :
    Inactive nrConnections w.thread := by
  refine h.invariant (I := fun w => Inactive nrConnections w.thread) ?_ ?_
  · intro hleft
    cases hleft
  · intro w a w' _ hinactive _ hstep
    obtain ⟨t', ht, rfl⟩ := Option.map_eq_some_iff.mp hstep
    exact inactive_step hinactive ht

end Run

/-! ## Whole requests -/

/-- **Every run of a thread of the client**, whatever `send`, `recv` and `epoll_wait` return and
whenever it is asked to stop: what is on the wire of a connection is a prefix of the requests, and
the counters count; a total that changes has come down to what was sent, between two requests, and
does not change again; once everything is sent nothing more is; and a thread that leaves its loop
without an error has had an answer to everything. -/
theorem whole_requests {nrConnections nrRequests : Nat} (hnr : 1 ≤ nrRequests) {w : Wired}
    (hw : ThreadRun nrConnections nrRequests w) :
    (∀ i < nrConnections,
      (∃ k, w.wire i <+: requests k) ∧
      (w.thread.conns i).status.sent = (w.wire i).length / sizeofRequest ∧
      (w.thread.conns i).status.received = (w.heard i).length / sizeofResponse) ∧
    (∀ w₁ w₂, ThreadPath nrConnections w w₁ → ThreadPath nrConnections w₁ w₂ →
      ∀ i < nrConnections,
        (w₁.thread.conns i).status.total ≠ (w.thread.conns i).status.total →
        (w₁.thread.conns i).status.total = (w₁.thread.conns i).status.sent ∧
        (w₁.thread.conns i).sendbuf.left = 0 ∧
        (w₂.thread.conns i).status.total = (w₁.thread.conns i).status.total) ∧
    (∀ w₁, ThreadPath nrConnections w w₁ → ∀ i < nrConnections,
      (w.thread.conns i).status.sent = (w.thread.conns i).status.total →
      w₁.wire i = w.wire i) ∧
    (w.thread.pc = .left → w.thread.ret = 0 → ∀ i < nrConnections,
      (w.thread.conns i).status.sent = (w.thread.conns i).status.received ∧
      (w.thread.conns i).status.received = (w.thread.conns i).status.total ∧
      (w.thread.conns i).sendbuf.left = 0) := by
  refine ⟨?_, ?_, ?_, ?_⟩
  · intro i hi
    have hok := hw.dialogueOk hnr hi
    exact ⟨⟨_, hok.onWire⟩, hok.sent, hok.received⟩
  · intro w₁ w₂ h₁ h₂ i hi hne
    have hok := hw.dialogueOk hnr hi
    have hok₁ := ThreadRun.dialogueOk hnr (hw.trans h₁) hi
    obtain ⟨htotal, hidle⟩ := settled_of_ne hok hok₁ (h₁.dialogue hi) hne
    exact ⟨htotal, hidle, (settled_run hok₁ (h₂.dialogue hi) htotal.symm).1⟩
  · intro w₁ h₁ i hi hlast
    exact (settled_run (hw.dialogueOk hnr hi) (h₁.dialogue hi) hlast).2
  · intro hleft hret i hi
    exact (hw.dialogueOk hnr hi).finished (hw.inactive hleft hret i hi)

/-- A request that goes out in two pieces, a stop in between, and the response. -/
def stopped : List ThreadAction :=
  [.loopTop, .epollWait (.events [.conn 0 epollOut]), .nextEvent true, .conn .outputTop,
    .conn (.send (.sent 1000)), .stop, .conn .outputTop, .conn (.send (.sent 24)),
    .conn .outputTop, .conn (.afterOutput true), .nextEvent true, .loopTop,
    .epollWait (.events [.wake, .conn 0 epollIn]), .nextEvent true, .loopTop,
    .epollWait (.events [.conn 0 epollIn]), .nextEvent true, .conn .inputTop,
    .conn (.recv (.data (List.replicate 24 7))), .conn .inputTop, .conn (.afterInput true),
    .nextEvent true, .loopTop]

theorem whole_requests_stopped : ∃ w, ThreadRun 1 5 w ∧
    (w.thread.conns 0).status.sent = 1 ∧ (w.thread.conns 0).status.received = 1 ∧
    (w.thread.conns 0).status.total = 1 ∧ (w.thread.conns 0).sendbuf.left = 0 := by
  have hrun := exists_reachable_of_run stopped
    (fun w => decide (w.thread.pc = .left ∧ w.thread.ret = 0 ∧
      (w.thread.conns 0).status.sent = 1))
    (by decide +kernel : (run (wiredStep 1) (PeersOk 1) (.init 5) stopped).map _ = some true)
  obtain ⟨w, hw, hp⟩ := hrun
  obtain ⟨hleft, hret, hsent⟩ := of_decide_eq_true hp
  obtain ⟨hreceived, htotal, hidle⟩ :=
    (whole_requests (by decide) hw).2.2.2 hleft hret 0 (by decide)
  exact ⟨w, hw, by omega, by omega, by omega, hidle⟩

end Piotbench.Client
