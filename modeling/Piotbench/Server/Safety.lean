import Piotbench.Server.Accounts

/-!
# The invariant holds in every orderly run

The start state has it, each group survives one step, and so it holds wherever a run gets whose
steps are all `Orderly`.
-/

namespace Piotbench.Server

open Places Transition

variable {cfg : ServerConfig} {sha1 : Sha1}

/-- The runs of the server from `create_server` on whose steps all meet `ok`. -/
abbrev Run (cfg : ServerConfig) (sha1 : Sha1) (ok : ServerContext → Action → Prop)
    (bufs : BufId → ServerBuffer) : ServerContext → Prop :=
  Reachable (step cfg sha1) ok (.init cfg bufs)

section Init

variable (cfg : ServerConfig) (bufs : BufId → ServerBuffer)

/-- At the start all buffers are in the pool. -/
theorem owned_init : (ServerContext.init cfg bufs).owned
    = Function.update (fun _ => []) .emptyBuffers (List.range cfg.alloc.buffers) := by
  funext p
  cases p <;> simp [ServerContext.owned, ServerContext.init, ServerConnection.init,
    ServerConnection.zero, ComputePc.hand, SubmitPc.hand, IoPc.hand]

/-- At the start all connection objects are in the pool. -/
theorem parked_init : (ServerContext.init cfg bufs).parked
    = Function.update (fun _ => []) .emptyConnections (List.range cfg.alloc.sessions) := by
  funext p
  cases p <;> simp [ServerContext.parked, ServerContext.init, AcceptPc.object]

theorem inv_init : Inv cfg (.init cfg bufs) where
  owned := by
    rw [owned_init]
    exact (Partition.pool List.nodup_range _).congr fun _ => List.mem_range
  parked := by
    have hmem : ∀ p, ∀ c ∈ (ServerContext.init cfg bufs).parked p, c < cfg.alloc.sessions := by
      intro p c hc
      rw [parked_init, Function.update_apply] at hc
      split at hc
      · exact List.mem_range.mp hc
      · cases hc
    refine ⟨?_, ?_, fun _ _ hpc => (by cases hpc), fun _ _ => rfl⟩
    · rw [parked_init]
      exact (Partition.pool List.nodup_range _).toExclusive
    · intro p c hc
      exact ⟨rfl, fun _ => ⟨rfl, rfl⟩⟩
  inFlight :=
    { compute := fun _ _ hb => by cases hb
      submit := fun _ _ hb => by cases hb
      hand := fun _ _ _ hpc => by cases hpc
      compare := fun _ _ hpc => by cases hpc
      queue := fun _ _ hb => by cases hb
      recvbuf := fun _ _ _ hb => by cases hb }
  watched _ _ hi := by cases hi
  sessions c hin hcl := by
    have hc : c < cfg.alloc.sessions := by
      simpa [ServerContext.init, ServerConnection.init] using hcl
    exact absurd (List.mem_range.mpr hc) (hin.notParked .emptyConnections)
  workers _ := ⟨List.nodup_nil, fun _ hc => (by cases hc), trivial⟩
  accounts _ _ := .fresh rfl rfl ⟨rfl, rfl, rfl⟩ ⟨rfl, rfl⟩

end Init

/-- **One orderly step keeps the invariant.** -/
theorem inv_step {s s' : ServerContext} {a : Action} (h : Inv cfg s) (ho : Orderly s a)
    (hstep : step cfg sha1 s a = some s') : Inv cfg s' := by
  have hs := step_cases hstep
  exact
    { owned := owned_step h hs
      parked := parked_step h ho hs
      inFlight := inFlight_step h hs
      watched := fun _ _ hi => watched_step h hs hi
      sessions := fun _ hin hcl => sessions_step h hs hin hcl
      workers := workers_step h ho hs
      accounts := fun _ hin => accounts_step h hs hin }

/-- **The invariant holds in every state of an orderly run.** -/
theorem inv_of_run {ok : ServerContext → Action → Prop} (hok : ∀ s a, ok s a → Orderly s a)
    {bufs : BufId → ServerBuffer} {s : ServerContext} (h : Run cfg sha1 ok bufs s) : Inv cfg s :=
  h.invariant (inv_init cfg bufs) fun _ hi ho hs => inv_step hi (hok _ _ ho) hs

end Piotbench.Server
