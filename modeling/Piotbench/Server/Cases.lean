import Piotbench.Server.System

/-!
# What one step can do

`step` is written the way the source is, one function per piece of code. `Step` is the same
relation cut into its cases, each with the conditions under which the code takes that branch and
the state it leads to, and `step_cases` says that there are no others. Every invariant of the
development is proved by going through `Step`; none of them unfolds `step`.

The branches of the IO worker that change nothing but its own position are one case, `ioLocal`,
with the list of such moves in `IoMove`.
-/

namespace Piotbench.Server

/-- Moves of an IO worker, within one handler call on connection `c`, that touch no shared data. -/
inductive IoMove (cfg : ServerConfig) (s : ServerContext) (k : Nat) (c : ConnId) :
    IoPc → Action → IoPc → Prop
  | resumeResponse {input b} (hb : (s.conns c).sendbuf = some b) :
      IoMove cfg s k c (.response c input) (.responseTop k) (.send c input b)
  | noResponse {input} (hb : (s.conns c).sendbuf = none) (hq : (s.conns c).sendQueue = []) :
      IoMove cfg s k c (.response c input) (.responseTop k) (.afterResponse c input)
  | sendAgain {input b} (hopen : s.kernel.isOpen (s.conns c).fd = true) :
      IoMove cfg s k c (.send c input b) (.responseSend k .eagain) (.afterResponse c input)
  | sendError {input b} :
      IoMove cfg s k c (.send c input b) (.responseSend k .error) (.finish c input)
  | resumeRequest {b} (hb : (s.conns c).recvbuf = some b) :
      IoMove cfg s k c (.request c) (.requestTop k) (.recv c b)
  | readahead (hb : (s.conns c).recvbuf = none)
      (hr : cfg.load.readahead < ulongSub (s.conns c).received (s.conns c).sent) :
      IoMove cfg s k c (.request c) (.requestTop k) .wait
  | noBuffer (hb : (s.conns c).recvbuf = none) (he : s.emptyBuffers = []) :
      IoMove cfg s k c (.request c) (.requestTop k) .wait
  | missBuffer (hb : (s.conns c).recvbuf = none) :
      IoMove cfg s k c (.request c) (.requestMiss k) .wait
  | recvAgain {b} (hopen : s.kernel.isOpen (s.conns c).fd = true) :
      IoMove cfg s k c (.recv c b) (.requestRecv k .eagain) .wait
  | recvEof {b} (hopen : s.kernel.isOpen (s.conns c).fd = true) :
      IoMove cfg s k c (.recv c b) (.requestRecv k .eof) (.finish c false)
  | recvError {b} :
      IoMove cfg s k c (.recv c b) (.requestRecv k .error) (.finish c false)
  | finishRefused {input} (hlock : (s.conns c).lock = true) :
      IoMove cfg s k c (.finish c input) (.finishTrylock k) (.afterResponse c input)

/-- Changes of an IO worker's own state. -/
inductive IoLocal (cfg : ServerConfig) (s : ServerContext) (k : Nat) :
    Action → IoWorker → Prop
  | fail (hw : s.io k = ⟨.wait, []⟩) : IoLocal cfg s k (.epollFail k) ⟨.exited, []⟩
  | dispatch {c events rest} (hw : s.io k = ⟨.wait, (c, events) :: rest⟩) :
      IoLocal cfg s k (.event k) ⟨.dispatch c events, rest⟩
  | move {c a pc'} (hm : IoMove cfg s k c (s.io k).pc a pc') :
      IoLocal cfg s k a ⟨pc', (s.io k).events⟩

/-- The cases of `step`. -/
inductive Step (cfg : ServerConfig) (sha1 : Sha1) (s : ServerContext) :
    Action → ServerContext → Prop
  /-- A worker finds its queue empty. -/
  | stay {a} (ha : (∃ w, a = .acceptTake w) ∨ (∃ i, a = .computeGet i) ∨ ∃ j, a = .submitGet j) :
      Step cfg sha1 s a s
  | ioLocal {k a w} (hl : IoLocal cfg s k a w) :
      Step cfg sha1 s a { s with io := Function.update s.io k w }
  | epollWait {k batch} (hw : s.io k = ⟨.wait, []⟩) (hnd : (batch.map (·.1)).Nodup)
      (hreg : batch.all (s.kernel.reports k)) :
      Step cfg sha1 s (.epollWait k batch)
        { s with io := Function.update s.io k ⟨.wait, s.kernel.deliver batch⟩ }
  | acceptTake {a c rest} (hpc : s.accept a = .idle) (hq : s.emptyConnections = c :: rest) :
      Step cfg sha1 s (.acceptTake a)
        { s with emptyConnections := rest, accept := Function.update s.accept a (.took c) }
  | acceptRefused {a c ok} (hpc : s.accept a = .took c) :
      Step cfg sha1 s (.acceptInit a none ok)
        { s with accept := Function.update s.accept a (.failed c) }
  | accepted {a c fd ok} (hpc : s.accept a = .took c) (hfd : s.kernel.isOpen fd = false)
      (hio : cfg.threads.io ≠ 0) (hsubmit : cfg.threads.submit ≠ 0)
      (hcompute : cfg.threads.compute ≠ 0) {kern : Kernel} {err : Bool}
      (hres : EpollSet { s.kernel with isOpen := Function.update s.kernel.isOpen fd true } c
        (acceptedConnection cfg s.next fd (s.conns c)) epollIn ok kern err) :
      Step cfg sha1 s (.acceptInit a (some fd) ok)
        { s with
          next := s.next + 1
          kernel := kern
          conns := Function.update s.conns c
            { acceptedConnection cfg s.next fd (s.conns c) with epollState := epollIn }
          accept := Function.update s.accept a (if err then .failed c else .idle) }
  | ioLock {k c a pc'} (hlock : (s.conns c).lock = false)
      (hpc : (∃ input, (s.io k).pc = .lockResponse c input ∧ pc' = .settle c input ∧
          a = .responseLock k) ∨
        (∃ b, (s.io k).pc = .lockRequest c b ∧ pc' = .deliver c b ∧ a = .requestLock k) ∨
        (∃ input, (s.io k).pc = .finish c input ∧ pc' = .teardown c input ∧
          a = .finishTrylock k)) :
      Step cfg sha1 s a
        ({ s with conns := Function.update s.conns c { s.conns c with lock := true } }.goto k pc')
  | dequeue {k c input b rest} (hpc : (s.io k).pc = .response c input)
      (hb : (s.conns c).sendbuf = none) (hq : (s.conns c).sendQueue = b :: rest) :
      Step cfg sha1 s (.responseTop k)
        ({ s with
          bufs := Function.update s.bufs b
            { s.bufs b with conn := c, left := sizeofResponse, ptr := resOffset }
          conns := Function.update s.conns c
            { s.conns c with sendQueue := rest, sendbuf := some b } }.goto k (.send c input b))
  | sendPart {k c input b n pc'} (hpc : (s.io k).pc = .send c input b)
      (hopen : s.kernel.isOpen (s.conns c).fd = true) (hn : n ≤ (s.bufs b).left)
      (hpc' : pc' = .afterResponse c input ∨ pc' = .response c input)
      (hpart : n < min (s.bufs b).left cfg.load.maxIoSize ∨ (s.bufs b).left - n ≠ 0) :
      Step cfg sha1 s (.responseSend k (.sent n))
        ({ s with
          bufs := Function.update s.bufs b
            { s.bufs b with left := (s.bufs b).left - n, ptr := (s.bufs b).ptr + n } }.goto k pc')
  | sendLast {k c input b n} (hpc : (s.io k).pc = .send c input b)
      (hopen : s.kernel.isOpen (s.conns c).fd = true) (hn : n = (s.bufs b).left)
      (hlast : ¬ n < min (s.bufs b).left cfg.load.maxIoSize) :
      Step cfg sha1 s (.responseSend k (.sent n))
        ({ s with
          bufs := Function.update s.bufs b
            { s.bufs b with left := (s.bufs b).left - n, ptr := (s.bufs b).ptr + n }
          conns := Function.update s.conns c
            { s.conns c with sent := (s.conns c).sent + 1, sendbuf := none } }.goto k
          (.recycle c input b))
  | recycle {k c input b} (hpc : (s.io k).pc = .recycle c input b) :
      Step cfg sha1 s (.responseRecycle k)
        ({ s with emptyBuffers := s.emptyBuffers ++ [b] }.goto k (.lockResponse c input))
  | settleKeep {k c input ok} (hpc : (s.io k).pc = .settle c input)
      (hne : (s.conns c).processed ≠ (s.conns c).sent) :
      Step cfg sha1 s (.responseSettle k ok)
        ({ s with conns := Function.update s.conns c { s.conns c with lock := false } }.goto k
          (.response c input))
  | settleDisarm {k c input ok} (hpc : (s.io k).pc = .settle c input)
      (heq : (s.conns c).processed = (s.conns c).sent) {kern : Kernel} {err : Bool}
      (hres : EpollSet s.kernel c (s.conns c) ((s.conns c).epollState &&& ~~~epollOut) ok
        kern err) :
      Step cfg sha1 s (.responseSettle k ok)
        ({ s with
          kernel := kern
          conns := Function.update s.conns c
            { s.conns c with
              epollState := (s.conns c).epollState &&& ~~~epollOut, lock := false } }.goto k
          (if err then .wait else .response c input))
  | takeBuffer {k c b rest} (hpc : (s.io k).pc = .request c)
      (hb : (s.conns c).recvbuf = none)
      (hr : ¬ cfg.load.readahead < ulongSub (s.conns c).received (s.conns c).sent)
      (hq : s.emptyBuffers = b :: rest) :
      Step cfg sha1 s (.requestTop k)
        ({ s with
          emptyBuffers := rest
          bufs := Function.update s.bufs b
            { s.bufs b with conn := c, left := sizeofRequest, ptr := 0 }
          conns := Function.update s.conns c { s.conns c with recvbuf := some b } }.goto k
          (.recv c b))
  | recvData {k c b bytes} (hpc : (s.io k).pc = .recv c b)
      (hopen : s.kernel.isOpen (s.conns c).fd = true) (hpos : 0 < bytes.length)
      (hlen : bytes.length ≤ (s.bufs b).left) :
      Step cfg sha1 s (.requestRecv k (.data bytes))
        ({ s with
          bufs := Function.update s.bufs b
            { s.bufs b with
              msg := Bytes.blit (s.bufs b).msg (s.bufs b).ptr bytes
              left := (s.bufs b).left - bytes.length
              ptr := (s.bufs b).ptr + bytes.length } }.goto k
          (if (s.bufs b).left - bytes.length = 0 then .lockRequest c b else .request c))
  | deliver {k c b} (hpc : (s.io k).pc = .deliver c b) :
      Step cfg sha1 s (.requestDeliver k)
        ({ s with
          conns := Function.update s.conns c
            { s.conns c with
              received := (s.conns c).received + 1, recvbuf := none, lock := false }
          computeInbox := Function.update s.computeInbox (s.conns c).computeidx
            (s.computeInbox (s.conns c).computeidx ++ [b]) }.goto k (.request c))
  | finishRelease {k c input} (hpc : (s.io k).pc = .teardown c input)
      (heq : (s.conns c).sent + (s.conns c).sendQueue.length = (s.conns c).received) :
      Step cfg sha1 s (.finishBody k)
        ({ s with
          emptyBuffers := s.emptyBuffers ++ (s.conns c).sendbuf.toList
            ++ (s.conns c).recvbuf.toList ++ (s.conns c).sendQueue
          kernel := s.kernel.close (s.conns c).fd
          emptyConnections := s.emptyConnections ++ [c]
          conns := Function.update s.conns c
            { s.conns c with
              sendQueue := []
              sent := (s.conns c).sent + (s.conns c).sendQueue.length
              closed := true
              lock := true } }.goto k (.afterResponse c input))
  | finishDelegate {k c input} (hpc : (s.io k).pc = .teardown c input)
      (hne : (s.conns c).sent + (s.conns c).sendQueue.length ≠ (s.conns c).received) :
      Step cfg sha1 s (.finishBody k)
        ({ s with
          emptyBuffers := s.emptyBuffers ++ (s.conns c).sendbuf.toList
            ++ (s.conns c).recvbuf.toList ++ (s.conns c).sendQueue
          kernel := s.kernel.close (s.conns c).fd
          conns := Function.update s.conns c
            { s.conns c with
              sendQueue := []
              sent := (s.conns c).sent + (s.conns c).sendQueue.length
              closed := true
              lock := false } }.goto k (.afterResponse c input))
  | computeGet {i b rest} (hpc : s.compute i = .idle) (hq : s.computeInbox i = b :: rest) :
      Step cfg sha1 s (.computeGet i)
        { s with
          computeInbox := Function.update s.computeInbox i rest
          compute := Function.update s.compute i (.got b) }
  | computeRun {i b clock msg} (hpc : s.compute i = .got b)
      (hmsg : computeRequest sha1 cfg.load.computeDur clock (s.bufs b).msg = some msg) :
      Step cfg sha1 s (.computeRun i clock)
        { s with
          bufs := Function.update s.bufs b { s.bufs b with msg := msg }
          submitterInbox := Function.update s.submitterInbox (s.conns (s.bufs b).conn).submitidx
            (s.submitterInbox (s.conns (s.bufs b).conn).submitidx ++ [b])
          compute := Function.update s.compute i .idle }
  | submitGet {j b rest} (hpc : s.submit j = .idle) (hq : s.submitterInbox j = b :: rest) :
      Step cfg sha1 s (.submitGet j)
        { s with
          submitterInbox := Function.update s.submitterInbox j rest
          submit := Function.update s.submit j (.got b (s.bufs b).conn) }
  | submitRefused {j b c} (hpc : s.submit j = .got b c) (hlock : (s.conns c).lock = true) :
      Step cfg sha1 s (.submitTrylock j)
        { s with submit := Function.update s.submit j (.refused b c) }
  | submitBack {j b c} (hpc : s.submit j = .refused b c) :
      Step cfg sha1 s (.submitPutBack j)
        { s with
          submitterInbox := Function.update s.submitterInbox j (s.submitterInbox j ++ [b])
          submit := Function.update s.submit j .idle }
  | submitLock {j b c} (hpc : s.submit j = .got b c) (hlock : (s.conns c).lock = false) :
      Step cfg sha1 s (.submitTrylock j)
        { s with
          conns := Function.update s.conns c { s.conns c with lock := true }
          submit := Function.update s.submit j (.locked b c) }
  | dispose {j b c ok} (hpc : s.submit j = .locked b c) (hcl : (s.conns c).closed = true) :
      Step cfg sha1 s (.submitSection j ok)
        { s with
          conns := Function.update s.conns c
            { s.conns c with processed := (s.conns c).processed + 1, lock := false }
          emptyBuffers := s.emptyBuffers ++ [b]
          submit := Function.update s.submit j (.compare c) }
  | enqueue {j b c ok} (hpc : s.submit j = .locked b c) (hcl : (s.conns c).closed = false)
      {kern : Kernel} {err : Bool}
      (hres : EpollSet s.kernel c
        { s.conns c with
          processed := (s.conns c).processed + 1, sendQueue := (s.conns c).sendQueue ++ [b] }
        ((s.conns c).epollState ||| epollOut) ok kern err) :
      Step cfg sha1 s (.submitSection j ok)
        { s with
          kernel := kern
          conns := Function.update s.conns c
            { s.conns c with
              processed := (s.conns c).processed + 1
              sendQueue := (s.conns c).sendQueue ++ [b]
              epollState := (s.conns c).epollState ||| epollOut
              lock := false }
          submit := Function.update s.submit j (if err then .exited else .idle) }
  | submitRelease {j c} (hpc : s.submit j = .compare c)
      (heq : (s.conns c).processed = (s.conns c).received) :
      Step cfg sha1 s (.submitCompare j)
        { s with
          emptyConnections := s.emptyConnections ++ [c]
          submit := Function.update s.submit j .idle }
  | submitNext {j c} (hpc : s.submit j = .compare c)
      (hne : (s.conns c).processed ≠ (s.conns c).received) :
      Step cfg sha1 s (.submitCompare j) { s with submit := Function.update s.submit j .idle }

/-! ## There are no other cases -/

variable {cfg : ServerConfig} {sha1 : Sha1} {s s' : ServerContext}

theorem IoMove.step {k : Nat} {c : ConnId} {a : Action} {pc pc' : IoPc} (hpc : (s.io k).pc = pc)
    (h : IoMove cfg s k c pc a pc') : Step cfg sha1 s a (s.goto k pc') := by
  subst hpc
  exact .ioLocal (.move h)

theorem handleAcceptInit_cases {a : Nat} {c : ConnId} {accepted : Option Fd} {ok : Bool}
    (hpc : s.accept a = .took c) (h : handleAcceptInit cfg s a c accepted ok = some s') :
    Step cfg sha1 s (.acceptInit a accepted ok) s' := by
  unfold handleAcceptInit at h
  cases accepted with
  | none =>
    cases h
    exact .acceptRefused hpc
  | some fd =>
    simp only at h
    split at h
    · cases h
    · next hg =>
      simp only [not_or, Bool.not_eq_true] at hg
      obtain ⟨hfd, hio, hsubmit, hcompute⟩ := hg
      rw [epollSetConnState_eq] at h
      cases h
      exact .accepted hpc hfd hio hsubmit hcompute (epollSetConnState_eq ..)

theorem ioLock_cases {k : Nat} {c : ConnId} {a : Action} {pc' : IoPc}
    (hpc : (∃ input, (s.io k).pc = .lockResponse c input ∧ pc' = .settle c input ∧
          a = .responseLock k) ∨
        (∃ b, (s.io k).pc = .lockRequest c b ∧ pc' = .deliver c b ∧ a = .requestLock k) ∨
        (∃ input, (s.io k).pc = .finish c input ∧ pc' = .teardown c input ∧
          a = .finishTrylock k))
    (h : ioLock s k c pc' = some s') : Step cfg sha1 s a s' := by
  unfold ioLock at h
  split at h
  · cases h
  · next hlock =>
    cases h
    exact .ioLock (Bool.not_eq_true _ ▸ hlock) hpc

/-- The actions that take `conn->lock` in an IO worker. -/
theorem ioLock_action {k : Nat} {c : ConnId} {a : Action} {pc' : IoPc}
    (hpc : (∃ input, (s.io k).pc = .lockResponse c input ∧ pc' = .settle c input ∧
          a = .responseLock k) ∨
        (∃ b, (s.io k).pc = .lockRequest c b ∧ pc' = .deliver c b ∧ a = .requestLock k) ∨
        (∃ input, (s.io k).pc = .finish c input ∧ pc' = .teardown c input ∧
          a = .finishTrylock k)) :
    a = .responseLock k ∨ a = .requestLock k ∨ a = .finishTrylock k := by
  rcases hpc with ⟨_, _, _, ha⟩ | ⟨_, _, _, ha⟩ | ⟨_, _, _, ha⟩
  · exact .inl ha
  · exact .inr (.inl ha)
  · exact .inr (.inr ha)

theorem handleResponseTop_cases {k : Nat} {c : ConnId} {input : Bool}
    (hpc : (s.io k).pc = .response c input) :
    Step cfg sha1 s (.responseTop k) (handleResponseTop s k c input) := by
  unfold handleResponseTop
  dsimp only
  split
  · next b hb => exact IoMove.step hpc (.resumeResponse hb)
  · next hb =>
    split
    · next hq => exact IoMove.step hpc (.noResponse hb hq)
    · next b rest hq => exact .dequeue hpc hb hq

theorem handleResponseSend_cases {k : Nat} {c : ConnId} {input : Bool} {b : BufId}
    {res : SendResult} (hpc : (s.io k).pc = .send c input b)
    (h : handleResponseSend cfg s k c input b res = some s') :
    Step cfg sha1 s (.responseSend k res) s' := by
  unfold handleResponseSend at h
  cases res with
  | eagain =>
    simp only at h
    split at h
    · next hopen =>
      cases h
      exact IoMove.step hpc (.sendAgain hopen)
    · cases h
  | error =>
    cases h
    exact IoMove.step hpc .sendError
  | sent n =>
    simp only at h
    split at h
    · next hg =>
      obtain ⟨hopen, hn⟩ := hg
      have hleft : n ≤ (s.bufs b).left := by omega
      split at h
      · next hpart =>
        cases h
        exact .sendPart hpc hopen hleft (.inl rfl) (.inl hpart)
      · next hfull =>
        split at h
        · next hrest =>
          cases h
          exact .sendPart hpc hopen hleft (.inr rfl) (.inr hrest)
        · next hrest =>
          cases h
          exact .sendLast hpc hopen (by omega) hfull
    · cases h

theorem handleResponseSettle_cases {k : Nat} {c : ConnId} {input ok : Bool}
    (hpc : (s.io k).pc = .settle c input) :
    Step cfg sha1 s (.responseSettle k ok) (handleResponseSettle s k c input ok) := by
  unfold handleResponseSettle
  dsimp only
  split
  · next heq =>
    rw [epollSetConnState_eq]
    exact .settleDisarm hpc heq (epollSetConnState_eq ..)
  · next hne => exact .settleKeep hpc hne

theorem handleRequestTop_cases {k : Nat} {c : ConnId} (hpc : (s.io k).pc = .request c) :
    Step cfg sha1 s (.requestTop k) (handleRequestTop cfg s k c) := by
  unfold handleRequestTop
  dsimp only
  split
  · next b hb => exact IoMove.step hpc (.resumeRequest hb)
  · next hb =>
    split
    · next hr => exact IoMove.step hpc (.readahead hb hr)
    · next hr =>
      split
      · next he => exact IoMove.step hpc (.noBuffer hb he)
      · next b rest hq => exact .takeBuffer hpc hb hr hq

theorem handleRequestMiss_cases {k : Nat} {c : ConnId} (hpc : (s.io k).pc = .request c)
    (h : handleRequestMiss cfg s k c = some s') : Step cfg sha1 s (.requestMiss k) s' := by
  unfold handleRequestMiss at h
  dsimp only at h
  split at h
  · next hg =>
    cases h
    exact IoMove.step hpc (.missBuffer hg.1)
  · cases h

theorem handleRequestRecv_cases {k : Nat} {c : ConnId} {b : BufId} {res : RecvResult}
    (hpc : (s.io k).pc = .recv c b) (h : handleRequestRecv cfg s k c b res = some s') :
    Step cfg sha1 s (.requestRecv k res) s' := by
  unfold handleRequestRecv at h
  cases res with
  | data bytes =>
    simp only at h
    split at h
    · next hg =>
      obtain ⟨hopen, hpos, hlen⟩ := hg
      cases h
      exact .recvData hpc hopen hpos (by omega)
    · cases h
  | eof =>
    simp only at h
    split at h
    · next hopen =>
      cases h
      exact IoMove.step hpc (.recvEof hopen)
    · cases h
  | eagain =>
    simp only at h
    split at h
    · next hopen =>
      cases h
      exact IoMove.step hpc (.recvAgain hopen)
    · cases h
  | error =>
    cases h
    exact IoMove.step hpc .recvError

theorem finishTrylock_cases {k : Nat} {c : ConnId} {input : Bool}
    (hpc : (s.io k).pc = .finish c input) :
    Step cfg sha1 s (.finishTrylock k) (finishTrylock s k c input) := by
  unfold finishTrylock
  split
  · next hlock => exact IoMove.step hpc (.finishRefused hlock)
  · next hlock =>
    exact .ioLock (Bool.not_eq_true _ ▸ hlock) (.inr (.inr ⟨input, hpc, rfl, rfl⟩))

theorem finishBody_cases {k : Nat} {c : ConnId} {input : Bool}
    (hpc : (s.io k).pc = .teardown c input) :
    Step cfg sha1 s (.finishBody k) (finishBody s k c input) := by
  unfold finishBody
  dsimp only
  by_cases heq : (s.conns c).sent + (s.conns c).sendQueue.length = (s.conns c).received
  · rw [if_pos heq, decide_eq_true heq]
    exact .finishRelease hpc heq
  · rw [if_neg heq, decide_eq_false heq]
    exact .finishDelegate hpc heq

theorem submitterSection_cases {j : Nat} {b : BufId} {c : ConnId} {ok : Bool}
    (hpc : s.submit j = .locked b c) :
    Step cfg sha1 s (.submitSection j ok) (submitterSection s j b c ok) := by
  unfold submitterSection
  split
  · next hcl => exact .dispose hpc hcl
  · next hcl =>
    unfold submitterQueue
    dsimp only
    rw [epollSetConnState_eq]
    exact .enqueue hpc (Bool.not_eq_true _ ▸ hcl) (epollSetConnState_eq ..)

/-- **Every step is one of the cases.** -/
theorem step_cases {a : Action} (h : step cfg sha1 s a = some s') : Step cfg sha1 s a s' := by
  cases a with
  | acceptTake a =>
    simp only [step] at h
    split at h
    · next hpc =>
      cases h
      unfold handleAcceptTake
      split
      · exact .stay (.inl ⟨_, rfl⟩)
      · next c rest hq => exact .acceptTake hpc hq
    · cases h
  | acceptInit a accepted ok =>
    simp only [step] at h
    split at h
    · next c hpc => exact handleAcceptInit_cases hpc h
    · cases h
  | epollWait k batch =>
    simp only [step] at h
    split at h
    · next hw =>
      unfold ioEpollWait at h
      split at h
      · next hg =>
        cases h
        exact .epollWait hw hg.2.1 hg.2.2
      · cases h
    · cases h
  | epollFail k =>
    simp only [step] at h
    split at h
    · next hw =>
      cases h
      have hw' : (s.goto k .exited) = { s with io := Function.update s.io k ⟨.exited, []⟩ } := by
        simp [ServerContext.goto, hw]
      exact hw' ▸ .ioLocal (.fail hw)
    · cases h
  | event k =>
    simp only [step] at h
    split at h
    · next c events rest hw =>
      cases h
      exact .ioLocal (.dispatch hw)
    · cases h
  | responseTop k =>
    simp only [step] at h
    split at h
    · next c input hpc => cases h; exact handleResponseTop_cases hpc
    · cases h
  | responseSend k res =>
    simp only [step] at h
    split at h
    · next c input b hpc => exact handleResponseSend_cases hpc h
    · cases h
  | responseRecycle k =>
    simp only [step] at h
    split at h
    · next c input b hpc => cases h; exact .recycle hpc
    · cases h
  | responseLock k =>
    simp only [step] at h
    split at h
    · next c input hpc => exact ioLock_cases (.inl ⟨input, hpc, rfl, rfl⟩) h
    · cases h
  | responseSettle k ok =>
    simp only [step] at h
    split at h
    · next c input hpc => cases h; exact handleResponseSettle_cases hpc
    · cases h
  | requestTop k =>
    simp only [step] at h
    split at h
    · next c hpc => cases h; exact handleRequestTop_cases hpc
    · cases h
  | requestMiss k =>
    simp only [step] at h
    split at h
    · next c hpc => exact handleRequestMiss_cases hpc h
    · cases h
  | requestRecv k res =>
    simp only [step] at h
    split at h
    · next c b hpc => exact handleRequestRecv_cases hpc h
    · cases h
  | requestLock k =>
    simp only [step] at h
    split at h
    · next c b hpc => exact ioLock_cases (.inr (.inl ⟨b, hpc, rfl, rfl⟩)) h
    · cases h
  | requestDeliver k =>
    simp only [step] at h
    split at h
    · next c b hpc => cases h; exact .deliver hpc
    · cases h
  | finishTrylock k =>
    simp only [step] at h
    split at h
    · next c input hpc => cases h; exact finishTrylock_cases hpc
    · cases h
  | finishBody k =>
    simp only [step] at h
    split at h
    · next c input hpc => cases h; exact finishBody_cases hpc
    · cases h
  | computeGet i =>
    simp only [step] at h
    split at h
    · next hpc =>
      cases h
      unfold computeWorkerGet
      split
      · exact .stay (.inr (.inl ⟨_, rfl⟩))
      · next b rest hq => exact .computeGet hpc hq
    · cases h
  | computeRun i clock =>
    simp only [step] at h
    split at h
    · next b hpc =>
      obtain ⟨msg, hmsg, rfl⟩ := Option.map_eq_some_iff.mp h
      exact .computeRun hpc hmsg
    · cases h
  | submitGet j =>
    simp only [step] at h
    split at h
    · next hpc =>
      cases h
      unfold submitterGet
      split
      · exact .stay (.inr (.inr ⟨_, rfl⟩))
      · next b rest hq => exact .submitGet hpc hq
    · cases h
  | submitTrylock j =>
    simp only [step] at h
    split at h
    · next b c hpc =>
      cases h
      unfold submitterTrylock
      split
      · next hlock => exact .submitRefused hpc hlock
      · next hlock => exact .submitLock hpc (Bool.not_eq_true _ ▸ hlock)
    · cases h
  | submitPutBack j =>
    simp only [step] at h
    split at h
    · next b c hpc =>
      cases h
      exact .submitBack hpc
    · cases h
  | submitSection j ok =>
    simp only [step] at h
    split at h
    · next b c hpc => cases h; exact submitterSection_cases hpc
    · cases h
  | submitCompare j =>
    simp only [step] at h
    split at h
    · next c hpc =>
      cases h
      unfold submitterCompare
      split
      · next heq => exact .submitRelease hpc heq
      · next hne => exact .submitNext hpc hne
    · cases h

/-! ## Cases by action -/

/-- The IO worker that takes an action. -/
def Action.ioWorker : Action → Option Nat
  | .epollWait k _ | .epollFail k | .event k | .responseTop k | .responseSend k _
  | .responseRecycle k | .responseLock k | .responseSettle k _ | .requestTop k | .requestMiss k
  | .requestRecv k _ | .requestLock k | .requestDeliver k | .finishTrylock k
  | .finishBody k => some k
  | .acceptTake _ | .acceptInit _ _ _ | .computeGet _ | .computeRun _ _ | .submitGet _
  | .submitTrylock _ | .submitPutBack _ | .submitSection _ _ | .submitCompare _ => none

theorem IoMove.ioWorker {k : Nat} {c : ConnId} {a : Action} {pc pc' : IoPc}
    (h : IoMove cfg s k c pc a pc') : a.ioWorker = some k := by
  cases h <;> rfl

theorem IoLocal.ioWorker {k : Nat} {a : Action} {w : IoWorker} (h : IoLocal cfg s k a w) :
    a.ioWorker = some k := by
  cases h with
  | fail | dispatch => rfl
  | move hm => exact hm.ioWorker

theorem ioLock_ioWorker {k : Nat} {a : Action}
    (h : a = .responseLock k ∨ a = .requestLock k ∨ a = .finishTrylock k) :
    a.ioWorker = some k := by
  rcases h with rfl | rfl | rfl <;> rfl

/-- What `handle_accept` does with a new descriptor. -/
theorem Step.accepted_cases {w : Nat} {fd : Fd} {ok : Bool} {c : ConnId}
    (hs : Step cfg sha1 s (.acceptInit w (some fd) ok) s') (hpc : s.accept w = .took c) :
    s.kernel.isOpen fd = false ∧ ∃ kern err,
      EpollSet { s.kernel with isOpen := Function.update s.kernel.isOpen fd true } c
        (acceptedConnection cfg s.next fd (s.conns c)) epollIn ok kern err ∧
      s' = { s with
        next := s.next + 1
        kernel := kern
        conns := Function.update s.conns c
          { acceptedConnection cfg s.next fd (s.conns c) with epollState := epollIn }
        accept := Function.update s.accept w (if err then .failed c else .idle) } := by
  cases hs with
  | stay ha => simp at ha
  | ioLocal hl => exact absurd hl.ioWorker (by simp [Action.ioWorker])
  | ioLock _ hio => simp at hio
  | accepted hpc' hfd _ _ _ hres =>
    rw [hpc] at hpc'
    cases hpc'
    exact ⟨hfd, _, _, hres, rfl⟩

theorem IoMove.not_finishBody {k k' : Nat} {c : ConnId} {a : Action} {pc pc' : IoPc}
    (h : IoMove cfg s k c pc a pc') : a ≠ .finishBody k' := by
  cases h <;> simp

theorem IoLocal.not_finishBody {k : Nat} {a : Action} {w : IoWorker}
    (h : IoLocal cfg s k a w) (k' : Nat) : a ≠ .finishBody k' := by
  cases h with
  | fail | dispatch => simp
  | move hm => exact hm.not_finishBody

/-- What the body of `finish_connection` does, in either branch. -/
theorem Step.finish_cases {k : Nat} {c : ConnId} {input : Bool}
    (hs : Step cfg sha1 s (.finishBody k) s') (hpc : (s.io k).pc = .teardown c input) :
    ∃ pool lock, s' = { s with
      emptyBuffers := s.emptyBuffers ++ (s.conns c).sendbuf.toList
        ++ (s.conns c).recvbuf.toList ++ (s.conns c).sendQueue
      kernel := s.kernel.close (s.conns c).fd
      emptyConnections := pool
      conns := Function.update s.conns c
        { s.conns c with
          sendQueue := []
          sent := (s.conns c).sent + (s.conns c).sendQueue.length
          closed := true
          lock := lock } }.goto k (.afterResponse c input) := by
  cases hs with
  | stay ha => simp at ha
  | ioLocal hl => exact absurd rfl (hl.not_finishBody k)
  | ioLock _ hio => simp at hio
  | finishRelease hpc' | finishDelegate hpc' =>
    rw [hpc] at hpc'
    cases hpc'
    exact ⟨_, _, rfl⟩

end Piotbench.Server
