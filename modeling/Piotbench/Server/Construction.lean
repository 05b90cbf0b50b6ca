import Piotbench.Server.Startup

/-!
# How far `create_server` gets

`constructServer_meets` follows `create_server` through all its phases at once: when it is done the
context is `started` and the configuration has kept to the sizes of the arrays; when a step fails
the context is as `leftAt` says; and where it ends in a fault, `malloc` has failed or an array was
too small.
-/

namespace Piotbench.Server

open Stage

/-- What the sizes of the arrays leave room for. -/
structure Limits (cfg : ServerConfig) (path : List Byte) : Prop where
  path : path.length < sunPathMax
  threads : ∀ g, cfg.nrThreads g ≤ threadGroupMax

/-- What has fitted its arrays by the time a step fails. -/
def Fitted (cfg : ServerConfig) : StartStep → Prop
  | .context | .queue _ => False
  | .socket | .bind | .epoll _ => True
  | .connection _ | .buffer _ =>
    cfg.threads.compute ≤ serverMaxThreads ∧ cfg.threads.submit ≤ serverMaxThreads
  | .group g | .thread g _ =>
    (cfg.threads.compute ≤ serverMaxThreads ∧ cfg.threads.submit ≤ serverMaxThreads) ∧
      ∀ g' ∈ g.before, cfg.nrThreads g' ≤ threadGroupMax

/-- A step that fails leaves this behind. -/
structure LeftAt (ok : StartStep → Bool) (cfg : ServerConfig) (e : StartStep) (s : ServerSetup) :
    Prop where
  left : s = leftAt cfg e
  fitted : Fitted cfg e
  failed : ok e = false

/-- A fault has one of these reasons: `malloc` fails, or an array is too small. -/
def FaultOk (ok : StartStep → Bool) (cfg : ServerConfig) (path : List Byte) (f : Fault) : Prop :=
  f = .nullQueue ∧ (∃ q, ok (.queue q) = false) ∨
    (∃ i size, f = .outOfBounds i size) ∧ ¬Limits cfg path

variable {ok : StartStep → Bool} {cfg : ServerConfig} {path : List Byte}

/-- An access to an array. -/
theorem checked_meets {S E : Type} {i size : Nat} {res : Result S E Fault} {Q : S → Prop}
    {R : E → S → Prop} {X : Fault → Prop} (hin : i < size → res.Meets Q R X)
    (hout : size ≤ i → X (.outOfBounds i size)) : (checked i size res).Meets Q R X := by
  unfold checked
  split
  · next hi => exact hin hi
  · next hi => exact hout (Nat.le_of_not_lt hi)

/-- A loop that goes beyond an array has been asked for too many threads. -/
theorem faultOk_of_le {g : Group} {i size : Nat} (hi : i < cfg.nrThreads g)
    (hsize : threadGroupMax ≤ size) (hout : size ≤ i) :
    FaultOk ok cfg path (.outOfBounds i size) := by
  refine .inr ⟨⟨_, _, rfl⟩, ?_⟩
  intro hlimits
  have hmax := hlimits.threads g
  omega

/-! ## The phases -/

theorem bindServerSocket_meets :
    (bindServerSocket ok path .init).Meets
      (fun s => s = .polling 0 0 ∧ path.length < sunPathMax) (LeftAt ok cfg)
      (FaultOk ok cfg path) := by
  unfold bindServerSocket bindAddress
  split
  · split
    · next f hlong =>
      split at hlong
      · cases hlong
      · next hpath =>
        cases hlong
        exact .inr ⟨⟨_, _, rfl⟩, fun hlimits => hpath hlimits.path⟩
    · next hshort =>
      split at hshort
      · next hpath =>
        split
        · refine ⟨?_, hpath⟩
          simp [ServerSetup.polling, ServerSetup.init]
        · next hfail => exact ⟨rfl, trivial, Bool.eq_false_iff.mpr hfail⟩
      · cases hshort
  · next hfail => exact ⟨rfl, trivial, Bool.eq_false_iff.mpr hfail⟩

/-- The next element of an array that is filled from its start. -/
theorem update_below {α : Type} (f : Nat → α) (d : α) (i : Nat) :
    Function.update (fun j => if j < i then f j else d) i (f i) =
      fun j => if j < i + 1 then f j else d := by
  funext j
  by_cases hj : j = i
  · subst hj
    simp
  · rw [Function.update_of_ne hj]
    have hlt : j < i + 1 ↔ j < i := by omega
    simp only [hlt]

theorem setupServerEpoll_meets :
    (setupServerEpoll ok cfg (.polling 0 0)).Meets
      (fun s => s = .polling cfg.threads.io cfg.threads.io) (LeftAt ok cfg)
      (FaultOk ok cfg path) := by
  unfold setupServerEpoll
  refine .forUpTo (fun i s => s = ServerSetup.polling cfg.threads.io i) ?_ ?_
  · simp [ServerSetup.polling]
  · rintro i hi s rfl
    split
    · apply checked_meets
      · intro _
        show _ = ServerSetup.polling cfg.threads.io (i + 1)
        simp only [ServerSetup.polling]
        rw [update_below (fun j => some (ServerFd.epoll j))]
      · exact faultOk_of_le (g := .io) hi (by decide)
    · next hfail => exact ⟨rfl, trivial, Bool.eq_false_iff.mpr hfail⟩

/-- A null pointer is behind a fault in `alloc_one_queue`. -/
theorem allocOneQueue_meets {q : QueueName} {s : ServerSetup} {Q : ServerSetup → Prop}
    (hQ : Q { s with queues := Function.update s.queues q (some []) }) :
    (allocOneQueue ok q s).Meets Q (LeftAt ok cfg) (FaultOk ok cfg path) := by
  unfold allocOneQueue
  split
  · exact hQ
  · next hfail => exact .inl ⟨rfl, q, Bool.eq_false_iff.mpr hfail⟩

/-- With the queue roots, and nothing in them. -/
def ServerSetup.rooted (cfg : ServerConfig) (compute submit : Nat) : ServerSetup :=
  { ServerSetup.polling cfg.threads.io cfg.threads.io with
    queues := queueRoots compute submit [] [] }

section QueueRoots

variable (n m i : Nat) (conns : List ConnId) (bufs : List BufId)

theorem queueRoots_init :
    Function.update (Function.update ServerSetup.init.queues .emptyConnections (some []))
      .emptyBuffers (some []) = queueRoots 0 0 [] [] := by
  funext q
  cases q <;> simp [Function.update, queueRoots, ServerSetup.init]

theorem queueRoots_emptyConnections (conns' : List ConnId) :
    Function.update (queueRoots n m conns bufs) .emptyConnections (some conns') =
      queueRoots n m conns' bufs := by
  funext q
  cases q <;> simp [Function.update, queueRoots]

theorem queueRoots_emptyBuffers (bufs' : List BufId) :
    Function.update (queueRoots n m conns bufs) .emptyBuffers (some bufs') =
      queueRoots n m conns bufs' := by
  funext q
  cases q <;> simp [Function.update, queueRoots]

theorem queueRoots_computeInbox :
    Function.update (queueRoots i m conns bufs) (.computeInbox i) (some []) =
      queueRoots (i + 1) m conns bufs := by
  funext q
  cases q with
  | computeInbox j =>
    have hbelow := congrFun (update_below (fun _ => some ([] : List Nat)) none i) j
    simpa [Function.update, queueRoots] using hbelow
  | emptyConnections | emptyBuffers | submitterInbox => simp [Function.update, queueRoots]

theorem queueRoots_submitterInbox :
    Function.update (queueRoots n i conns bufs) (.submitterInbox i) (some []) =
      queueRoots n (i + 1) conns bufs := by
  funext q
  cases q with
  | submitterInbox j =>
    have hbelow := congrFun (update_below (fun _ => some ([] : List Nat)) none i) j
    simpa [Function.update, queueRoots] using hbelow
  | emptyConnections | emptyBuffers | computeInbox => simp [Function.update, queueRoots]

end QueueRoots

theorem allocServerQueues_meets :
    (allocServerQueues ok cfg (.polling cfg.threads.io cfg.threads.io)).Meets
      (fun s => s = .stocked cfg [] [] ∧ cfg.threads.compute ≤ serverMaxThreads ∧
        cfg.threads.submit ≤ serverMaxThreads) (LeftAt ok cfg) (FaultOk ok cfg path) := by
  unfold allocServerQueues
  refine .andThen (allocOneQueue_meets rfl) ?_
  rintro s rfl
  refine .andThen (Q := fun s => s = ServerSetup.rooted cfg 0 0) (allocOneQueue_meets ?_) ?_
  · simp only [ServerSetup.rooted, ServerSetup.polling, queueRoots_init]
  rintro s rfl
  refine .andThen (Q := fun s => s = ServerSetup.rooted cfg cfg.threads.compute 0 ∧
    cfg.threads.compute ≤ serverMaxThreads) ?_ ?_
  · refine .forUpTo (fun i s => s = ServerSetup.rooted cfg i 0 ∧ i ≤ serverMaxThreads)
      ⟨rfl, Nat.zero_le _⟩ ?_
    rintro i hi s ⟨rfl, -⟩
    apply checked_meets
    · intro hlt
      refine allocOneQueue_meets ⟨?_, hlt⟩
      simp only [ServerSetup.rooted, queueRoots_computeInbox]
    · exact faultOk_of_le (g := .compute) hi (by decide)
  · rintro s ⟨rfl, hcompute⟩
    refine .forUpTo (fun i s => s = ServerSetup.rooted cfg cfg.threads.compute i ∧
      cfg.threads.compute ≤ serverMaxThreads ∧ i ≤ serverMaxThreads)
      ⟨rfl, hcompute, Nat.zero_le _⟩ ?_
    rintro i hi s ⟨rfl, -⟩
    apply checked_meets
    · intro hlt
      refine allocOneQueue_meets ⟨?_, hcompute, hlt⟩
      simp only [ServerSetup.rooted, queueRoots_submitterInbox]
    · exact faultOk_of_le (g := .submit) hi (by decide)

theorem setupServerPrealloc_meets
    (hinbox : cfg.threads.compute ≤ serverMaxThreads ∧ cfg.threads.submit ≤ serverMaxThreads) :
    (setupServerPrealloc ok cfg (.stocked cfg [] [])).Meets
      (fun s => s = .spawned cfg [] []) (LeftAt ok cfg) (FaultOk ok cfg path) := by
  unfold setupServerPrealloc
  refine .andThen
    (Q := fun s => s = ServerSetup.stocked cfg (List.range cfg.alloc.sessions) []) ?_ ?_
  · refine .forUpTo (fun i s => s = ServerSetup.stocked cfg (List.range i) []) rfl ?_
    rintro i - s rfl
    split
    · show _ = ServerSetup.stocked cfg (List.range (i + 1)) []
      simp only [ServerSetup.stocked, queuePut, queueRoots_emptyConnections, List.range_succ]
    · next hfail => exact ⟨rfl, hinbox, Bool.eq_false_iff.mpr hfail⟩
  · rintro s rfl
    refine .forUpTo (fun i s => s = ServerSetup.stocked cfg (List.range cfg.alloc.sessions)
      (List.range i)) rfl ?_
    rintro i - s rfl
    split
    · show _ = ServerSetup.stocked cfg (List.range cfg.alloc.sessions) (List.range (i + 1))
      simp only [ServerSetup.stocked, queuePut, queueRoots_emptyBuffers, List.range_succ]
    · next hfail => exact ⟨rfl, hinbox, Bool.eq_false_iff.mpr hfail⟩

/-! ## The thread groups -/

theorem threadsUpTo_succ (g : Group) (i : Nat) :
    threadsUpTo g (i + 1) = threadsUpTo g i ++ [⟨g, i⟩] := by
  simp [threadsUpTo, List.range_succ]

/-- The next group is added to those that are there. -/
theorem threadGroupCreate_meets {g : Group} (hfit : Fitted cfg (.group g)) :
    (threadGroupCreate ok g (cfg.nrThreads g)
        (.spawned cfg g.before (cfg.threadsOf g.before))).Meets
      (fun s => s = .spawned cfg (g.before ++ [g]) (cfg.threadsOf (g.before ++ [g])) ∧
        cfg.nrThreads g ≤ threadGroupMax) (LeftAt ok cfg) (FaultOk ok cfg path) := by
  unfold threadGroupCreate
  split
  · refine .withLocal (fun p => p = (.spawned cfg g.before
      (cfg.threadsOf g.before ++ threadsUpTo g (cfg.nrThreads g)),
      .upTo g (cfg.nrThreads g) (cfg.nrThreads g)) ∧ cfg.nrThreads g ≤ threadGroupMax) ?_ ?_
    · refine .forUpTo (fun i p => p = (ServerSetup.spawned cfg g.before
        (cfg.threadsOf g.before ++ threadsUpTo g i), ThreadGroup.upTo g (cfg.nrThreads g) i) ∧
        i ≤ threadGroupMax) ⟨?_, Nat.zero_le _⟩ ?_
      · simp [threadsUpTo, ThreadGroup.upTo]
      · rintro i hi p ⟨rfl, -⟩
        apply checked_meets
        · intro hlt
          split
          · refine ⟨?_, hlt⟩
            simp only [ServerSetup.spawned, ThreadGroup.upTo, threadsUpTo_succ,
              List.append_assoc, update_below (fun j => some (ThreadId.mk g j))]
          · next hfail => exact ⟨rfl, hfit, Bool.eq_false_iff.mpr hfail⟩
        · exact faultOk_of_le hi (Nat.le_refl _)
    · rintro p ⟨rfl, hmax⟩
      refine ⟨?_, hmax⟩
      have hrunning : cfg.threadsOf (g.before ++ [g]) =
          cfg.threadsOf g.before ++ threadsUpTo g (cfg.nrThreads g) := by
        simp [ServerConfig.threadsOf]
      rw [hrunning]
      simp only [ServerSetup.spawned, ServerSetup.mk.injEq, true_and, and_true]
      funext g'
      by_cases hg : g' = g
      · subst hg
        simp
      · simp [hg]
  · next hfail => exact ⟨rfl, hfit, Bool.eq_false_iff.mpr hfail⟩

theorem spawnServerThreads_meets (hpath : path.length < sunPathMax)
    (hinbox : cfg.threads.compute ≤ serverMaxThreads ∧ cfg.threads.submit ≤ serverMaxThreads) :
    (spawnServerThreads ok cfg (.spawned cfg [] [])).Meets
      (fun s => s = .started cfg ∧ Limits cfg path) (LeftAt ok cfg) (FaultOk ok cfg path) := by
  unfold spawnServerThreads
  refine .andThen (threadGroupCreate_meets (g := .compute) ⟨hinbox, by simp [Group.before]⟩) ?_
  rintro s ⟨rfl, hcompute⟩
  refine .andThen (threadGroupCreate_meets (g := .submit) ⟨hinbox, ?_⟩) ?_
  · simpa [Group.before] using hcompute
  rintro s ⟨rfl, hsubmit⟩
  refine .andThen (threadGroupCreate_meets (g := .io) ⟨hinbox, ?_⟩) ?_
  · simpa [Group.before] using ⟨hcompute, hsubmit⟩
  rintro s ⟨rfl, hio⟩
  refine (threadGroupCreate_meets (g := .accept) ⟨hinbox, ?_⟩).imp ?_ (fun _ _ h => h) fun _ h => h
  · simpa [Group.before] using ⟨hcompute, hsubmit, hio⟩
  rintro s ⟨rfl, haccept⟩
  refine ⟨rfl, hpath, fun g => ?_⟩
  cases g with
  | compute => exact hcompute
  | submit => exact hsubmit
  | io => exact hio
  | accept => exact haccept

/-- **`create_server`**, whatever fails. -/
theorem constructServer_meets (ok : StartStep → Bool) (cfg : ServerConfig) (path : List Byte) :
    (constructServer ok cfg path .init).Meets
      (fun s => s = .started cfg ∧ Limits cfg path) (LeftAt ok cfg) (FaultOk ok cfg path) := by
  unfold constructServer setupServerIo
  refine .andThen (Q := fun s => s = .polling cfg.threads.io cfg.threads.io ∧
    path.length < sunPathMax) ?_ ?_
  · refine .andThen bindServerSocket_meets ?_
    rintro s ⟨rfl, hpath⟩
    exact setupServerEpoll_meets.imp (fun _ h => ⟨h, hpath⟩) (fun _ _ h => h) fun _ h => h
  · rintro s ⟨rfl, hpath⟩
    refine .andThen allocServerQueues_meets ?_
    rintro s ⟨rfl, hinbox⟩
    refine .andThen (setupServerPrealloc_meets hinbox) ?_
    rintro s rfl
    exact spawnServerThreads_meets hpath hinbox

end Piotbench.Server
