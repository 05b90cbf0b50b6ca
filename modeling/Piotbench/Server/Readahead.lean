import Piotbench.Server.Answering

/-!
# The readahead bound

`handle_request` compares `received - sent` with the configured readahead when it takes a new
buffer, and counts the request several calls later, when it is complete. In between `sent` only
grows, so the bound taken at the start holds at the end, one request on.

The comparison is made modulo `2 ^ 64`. It is the comparison of the numbers because `sent` never
passes `received`, which the accounts of the session say.
-/

namespace Piotbench.Server

open Transition

variable {cfg : ServerConfig} {sha1 : Sha1} {s s' : ServerContext} {a : Action} {c : ConnId}

/-- In an open session `sent` counts the responses sent completely. -/
theorem sent_step (hs : Step cfg sha1 s a s') (hin : s.InSession c)
    (hcl : (s'.conns c).closed = false) :
    (s'.conns c).sent = (s.conns c).sent + (answered s c a).length := by
  cases hs with
  | stay ha => rcases ha with ⟨_, rfl⟩ | ⟨_, rfl⟩ | ⟨_, rfl⟩ <;> rfl
  | ioLocal hl => simp [hl.answered]
  | @ioLock k c' a pc' _ hio =>
    have hquiet : answered s c a = [] := by
      rcases ioLock_action hio with rfl | rfl | rfl <;> rfl
    rw [hquiet]
    apply field_update (·.sent)
    rfl
  | @accepted w c' fd ok hpc =>
    have hne : c ≠ c' := (hin.ne (mem_parked_took hpc)).symm
    simp [answered, hne]
  | @sendPart k c' input b n pc' hpc _ hn _ hpart =>
    have hne : n ≠ (s.bufs b).left := by omega
    simp [answered, hpc, hne]
  | @sendLast k c' input b n hpc _ hn =>
    by_cases hcc : c = c'
    · simp [answered, hpc, hn, hcc]
    · simp [answered, hpc, hcc, Ne.symm hcc]
  | @finishRelease k c' input hpc | @finishDelegate k c' input hpc =>
    -- the connection that is torn down is not the one that stays open
    have hcc : c ≠ c' := by
      rintro rfl
      simp at hcl
    simp [answered, hcc]
  | dequeue | settleKeep | settleDisarm | takeBuffer | deliver | submitLock | dispose | enqueue =>
    apply field_update (·.sent)
    rfl
  | _ => rfl

/-- A buffer is taken only when the comparison with the readahead lets it. -/
theorem readahead_of_take (hs : Step cfg sha1 s a s') (hin : s.InSession c)
    (hnone : (s.conns c).recvbuf = none) (hsome : (s'.conns c).recvbuf ≠ none) :
    ulongSub (s.conns c).received (s.conns c).sent ≤ cfg.load.readahead := by
  have hsame : (s'.conns c).recvbuf ≠ (s.conns c).recvbuf := by
    rw [hnone]
    exact hsome
  cases hs with
  | @takeBuffer k c' b rest hpc hb hr =>
    by_cases hcc : c = c'
    · subst hcc
      exact Nat.le_of_not_lt hr
    · exact absurd (by simp [hcc]) hsame
  | stay ha => exact absurd rfl hsame
  | @accepted w c' fd ok hpc =>
    have hne : c ≠ c' := (hin.ne (mem_parked_took hpc)).symm
    exact absurd (by simp [hne]) hsame
  | @deliver k c' b hpc =>
    by_cases hcc : c = c'
    · subst hcc
      exact absurd (by simp) hsome
    · exact absurd (by simp [hcc]) hsame
  | ioLock | dequeue | sendLast | settleKeep | settleDisarm | finishRelease | finishDelegate
  | submitLock | dispose | enqueue =>
    apply absurd _ hsame
    apply field_update (·.recvbuf)
    rfl
  | _ => exact absurd rfl hsame

/-- `unsigned long` subtraction of counters that differ by little. -/
theorem ulongSub_of_le {x y : Nat} (hle : y ≤ x) (hsmall : x - y < UInt64.size) :
    ulongSub x y = x - y := by
  have hsize : UInt64.size = 18446744073709551616 := rfl
  rw [hsize] at hsmall
  simp only [ulongSub, hsize]
  omega

/-- The counters of an open session, and what is on the way. -/
theorem Inv.outstanding (h : Inv cfg s) (hin : s.InSession c)
    (hcl : (s.conns c).closed = false) :
    (s.conns c).received = (s.conns c).sent + ((s.computing c).length + (s.submitting c).length
      + (s.conns c).sendQueue.length + (s.conns c).sendbuf.toList.length) := by
  have hflow := (h.accounts c hin).flow
  have hout := (h.accounts c hin).output hcl
  omega

/-! ## The bound -/

/-- How far a session has read ahead. -/
structure Ahead (cfg : ServerConfig) (s : ServerContext) (c : ConnId) : Prop where
  bound : (s.conns c).received ≤ (s.conns c).sent + cfg.load.readahead + 1
  taking : (s.conns c).recvbuf ≠ none →
    (s.conns c).received ≤ (s.conns c).sent + cfg.load.readahead

theorem ahead_step {t t' : Traced} (hra : cfg.load.readahead < UInt32.size)
    (h : OpenStep cfg sha1 c t a t') (hold : Ahead cfg t.srv c) : Ahead cfg t'.srv c := by
  have hrec := received_step h.step h.session
  have hsent := sent_step h.step h.session h.opened'
  obtain ⟨hbound, htaking⟩ := hold
  cases input_cases h.inv h.step h.session h.opened' with
  | quiet _ hdel hrecv =>
    rw [hdel, List.length_nil] at hrec
    constructor
    · omega
    · intro hne
      have := htaking (hrecv ▸ hne)
      omega
  | take _ hdel hrecv hrecv' =>
    rw [hdel, List.length_nil] at hrec
    have hguard := readahead_of_take h.step h.session hrecv (by simp [hrecv'])
    -- the bound before the step keeps the subtraction from wrapping
    have hsub : ulongSub (t.srv.conns c).received (t.srv.conns c).sent
        = (t.srv.conns c).received - (t.srv.conns c).sent := by
      apply ulongSub_of_le
      · have hout := h.inv.outstanding h.session h.opened
        omega
      · have hsize : UInt32.size = 4294967296 := rfl
        have hsize' : UInt64.size = 18446744073709551616 := rfl
        omega
    constructor
    · omega
    · intro _
      omega
  | data _ hdel hrecv =>
    rw [hdel, List.length_nil] at hrec
    have := htaking (by simp [hrecv])
    constructor
    · omega
    · intro _
      omega
  | deliver _ hdel hrecv hrecv' =>
    rw [hdel, List.length_singleton] at hrec
    have := htaking (by simp [hrecv])
    constructor
    · omega
    · intro hne
      exact absurd hrecv' hne

/-- **Readahead.** In an open session of an orderly run, `sent` never passes `received`, so the
subtraction in `handle_request` does not wrap; the difference is at most the readahead plus one, and
at most the readahead while a request is being received; and no more than the readahead plus one
buffers are with the session, wherever they are. `readahead` is an `unsigned int`. -/
theorem readahead_bound (hra : cfg.load.readahead < UInt32.size) {bufs : BufId → ServerBuffer}
    (h : Run cfg sha1 Orderly bufs s) (hin : s.InSession c)
    (hcl : (s.conns c).closed = false) :
    (s.conns c).sent ≤ (s.conns c).received ∧
      ulongSub (s.conns c).received (s.conns c).sent = (s.conns c).received - (s.conns c).sent ∧
      (s.conns c).received - (s.conns c).sent ≤ cfg.load.readahead + 1 ∧
      ((s.conns c).recvbuf ≠ none →
        (s.conns c).received - (s.conns c).sent ≤ cfg.load.readahead) ∧
      ((s.conns c).recvbuf.toList ++ s.computing c ++ s.submitting c ++ (s.conns c).sendQueue
        ++ (s.conns c).sendbuf.toList).length ≤ cfg.load.readahead + 1 := by
  obtain ⟨t, ht, rfl⟩ := h.trace
  have hinv := inv_of_run (fun _ _ => id) h
  have hout := hinv.outstanding hin hcl
  obtain ⟨hbound, htaking⟩ : Ahead cfg t.srv c := by
    apply open_invariant (P := fun t c => Ahead cfg t.srv c) (fun _ _ => id) _ _ ht hin hcl
    · intro t c n _ _ hrecv hbuf
      constructor
      · omega
      · exact fun hne => absurd hbuf hne
    · exact fun t a t' c hs _ hold => ahead_step hra hs hold
  refine ⟨by omega, ?_, by omega, fun hne => ?_, ?_⟩
  · apply ulongSub_of_le
    · omega
    · have hsize : UInt32.size = 4294967296 := rfl
      have hsize' : UInt64.size = 18446744073709551616 := rfl
      omega
  · have := htaking hne
    omega
  · simp only [List.length_append]
    cases hb : (t.srv.conns c).recvbuf with
    | none =>
      rw [Option.toList_none, List.length_nil]
      omega
    | some b =>
      have := htaking (by simp [hb])
      rw [Option.toList_some, List.length_singleton]
      omega

/-- With readahead 1 a session holds two buffers: one response is about to be sent, one request is
at compute. -/
theorem readahead_bound_respond : ∃ s, Run smallServer zeroSha1 Orderly blankBuffers s ∧
    (s.conns 0).received = 2 ∧ (s.conns 0).sent = 0 ∧
    (s.conns 0).received - (s.conns 0).sent ≤ smallServer.load.readahead + 1 := by
  have hrun := exists_reachable_of_run respond
    (fun t => decide ((t.srv.io 0).pc = .send 0 false 0 ∧ (t.srv.conns 0).received = 2 ∧
      (t.srv.conns 0).sent = 0))
    (by decide +kernel : (run (tstep smallServer zeroSha1) (fun t a => Orderly t.srv a)
      (.init smallServer blankBuffers) respond).map _ = some true)
  obtain ⟨t, ht, hp⟩ := hrun
  obtain ⟨hpc, hrecv, hsent⟩ := of_decide_eq_true hp
  have hop := (inv_of_trace (fun _ _ => id) ht).openAt (k := 0) (c := 0) (by simp [hpc, IoPc.conn])
  exact ⟨t.srv, Trace.run ht, hrecv, hsent,
    (readahead_bound (by decide) (Trace.run ht) hop.session hop.closed).2.2.1⟩

end Piotbench.Server
