import Piotbench.Command.Tables
import Piotbench.Server.Cleanup

/-!
# Which configurations are safe

Nothing checks the numbers that `parse_command_args` accepts against the arrays they are used for.
`ServerSafe` and `ClientSafe` say that everything indexed or divided by them is in range, and that
the path fits an address; `config_safe_iff` says for which arguments that is so.
-/

namespace Piotbench.Command

open Server Bytes Scanf Stage

/-! ## Addresses -/

/-- `sun_path` in `init_client_conn`: zero, and then `strncpy` with the size of the array. -/
def connectAddress (path : List Byte) : List Byte :=
  (path ++ List.replicate sunPathMax 0).take sunPathMax

/-- The path fits an address with its terminator, the same one on both sides. -/
def AddressOk (path : List Byte) : Prop :=
  bindAddress path = .ok (connectAddress path) ∧ 0 ∈ connectAddress path

theorem addressOk_iff {path : List Byte} : AddressOk path ↔ path.length < sunPathMax := by
  constructor
  · rintro ⟨hbind, -⟩
    unfold bindAddress at hbind
    split at hbind
    · next hpath => exact hpath
    · cases hbind
  · intro hpath
    have haddr : connectAddress path =
        path ++ List.replicate (sunPathMax - path.length) 0 := by
      rw [connectAddress, List.take_append, List.take_of_length_le (Nat.le_of_lt hpath),
        List.take_replicate, Nat.min_eq_left (Nat.sub_le _ _)]
    rw [AddressOk, bindAddress, if_pos hpath, haddr]
    refine ⟨rfl, List.mem_append_right _ ?_⟩
    exact List.mem_replicate.mpr ⟨Nat.sub_ne_zero_of_lt hpath, rfl⟩

/-! ## What the server does with its configuration -/

/-- An index into an array. -/
def elementOf (i size : Nat) : Except Fault Nat :=
  if i < size then .ok i else .error (.outOfBounds i size)

/-- The `%` operator. -/
def modulo (a n : Nat) : Except Fault Nat :=
  if n = 0 then .error .divideByZero else .ok (a % n)

/-- The array that a worker of a group is given its element of, by `group_info.current`. -/
def workerElement (g : Group) (current : Nat) : Except Fault Nat :=
  match g with
  | .io => elementOf current serverMaxThreads
  | .compute => elementOf current serverMaxThreads
  | .submit => elementOf current serverMaxThreads
  | .accept => .ok current

/-- `handle_accept`: the indices of a session, and the elements of `epoll_fds`, `submitter_inbox`
and `compute_inbox` that they stand for. -/
def sessionIndices (cfg : ServerConfig) (next : Nat) : Except Fault (Nat × Nat × Nat) := do
  let ioidx ← modulo next cfg.threads.io
  let submitidx ← modulo (next + 1) cfg.threads.submit
  let computeidx ← modulo (next + 1) cfg.threads.compute
  let io ← elementOf ioidx serverMaxThreads
  let submit ← elementOf submitidx serverMaxThreads
  let compute ← elementOf computeidx serverMaxThreads
  return (io, submit, compute)

theorem elementOf_ok {i size j : Nat} : elementOf i size = .ok j ↔ i < size ∧ i = j := by
  unfold elementOf
  split
  · next hi => simp [hi]
  · next hi => simp [hi]

theorem modulo_ok {a n r : Nat} : modulo a n = .ok r ↔ n ≠ 0 ∧ a % n = r := by
  unfold modulo
  split
  · next hn => simp [hn]
  · next hn => simp [hn]

theorem bind_ok {α β : Type} {x : Except Fault α} {f : α → Except Fault β} {b : β} :
    (x >>= f) = .ok b ↔ ∃ a, x = .ok a ∧ f a = .ok b := by
  cases x with
  | error e => simp [bind, Except.bind]
  | ok a => simp [bind, Except.bind]

/-- When nothing goes wrong the indices are the fields that `handle_accept` sets. -/
theorem sessionIndices_ok {cfg : ServerConfig} {next : Nat} {indices : Nat × Nat × Nat} :
    sessionIndices cfg next = .ok indices ↔
      (cfg.threads.io ≠ 0 ∧ cfg.threads.submit ≠ 0 ∧ cfg.threads.compute ≠ 0) ∧
      (next % cfg.threads.io < serverMaxThreads ∧
        (next + 1) % cfg.threads.submit < serverMaxThreads ∧
        (next + 1) % cfg.threads.compute < serverMaxThreads) ∧
      ∀ fd conn, indices = ((acceptedConnection cfg next fd conn).ioidx,
        (acceptedConnection cfg next fd conn).submitidx,
        (acceptedConnection cfg next fd conn).computeidx) := by
  simp only [sessionIndices, bind_ok, modulo_ok, elementOf_ok, acceptedConnection]
  constructor
  · rintro ⟨io, ⟨hio, rfl⟩, submit, ⟨hsubmit, rfl⟩, compute, ⟨hcompute, rfl⟩, _, ⟨hio', rfl⟩, _,
      ⟨hsubmit', rfl⟩, _, ⟨hcompute', rfl⟩, hres⟩
    cases hres
    exact ⟨⟨hio, hsubmit, hcompute⟩, ⟨hio', hsubmit', hcompute'⟩, fun _ _ => rfl⟩
  · rintro ⟨⟨hio, hsubmit, hcompute⟩, ⟨hio', hsubmit', hcompute'⟩, hindices⟩
    rw [hindices 0 .zero]
    exact ⟨_, ⟨hio, rfl⟩, _, ⟨hsubmit, rfl⟩, _, ⟨hcompute, rfl⟩, _, ⟨hio', rfl⟩, _,
      ⟨hsubmit', rfl⟩, _, ⟨hcompute', rfl⟩, rfl⟩

/-- Everything that the server indexes or divides with its configuration is in range, whatever
fails, and the path fits an address. -/
structure ServerSafe (m : Nat → Byte) : Prop where
  start : ∀ ok i size,
    createServer ok (serverConfig m) (socketPath m) ≠ .fault (.outOfBounds i size)
  workers : ∀ g, ∀ i < (serverConfig m).nrThreads g, ∃ j, workerElement g i = .ok j
  sessions : ∀ next, ∃ indices, sessionIndices (serverConfig m) next = .ok indices
  address : AddressOk (socketPath m)

/-! ### The start -/

/-- What `destroy_server` does after a failure: a null pointer, or it gets to the end. -/
theorem destroyServer_leftAt {cfg : ServerConfig} {e : StartStep} (hfit : Fitted cfg e)
    (i size : Nat) : destroyServer cfg (leftAt cfg e) ≠ .fault (.outOfBounds i size) := by
  have hdone : ∀ s conns bufs, s.GroupsOk cfg →
      (cfg.threads.compute ≤ serverMaxThreads ∧ cfg.threads.submit ≤ serverMaxThreads) →
      s.queues .emptyConnections = some conns → s.queues .emptyBuffers = some bufs →
      destroyServer cfg s ≠ .fault (.outOfBounds i size) := by
    intro s conns bufs hgroups hinbox hconns hbufs heq
    obtain ⟨s', hs', -⟩ := destroyServer_done hgroups hinbox hconns hbufs
    rw [hs'] at heq
    cases heq
  cases e with
  | context | queue => exact hfit.elim
  | socket | bind | epoll =>
    -- a null pointer comes first
    rw [leftAt, destroyServer_fault (fun _ => rfl) rfl]
    simp
  | connection | buffer => exact hdone _ _ _ (fun _ => .inl rfl) hfit rfl rfl
  | group g | thread g => exact hdone _ _ _ (groupsOk_spawned hfit.2 _) hfit.1 rfl rfl

/-- **The start** keeps to its arrays exactly when the numbers do. -/
theorem createServer_inBounds_iff {cfg : ServerConfig} {path : List Byte} :
    (∀ ok i size, createServer ok cfg path ≠ .fault (.outOfBounds i size)) ↔ Limits cfg path := by
  constructor
  · intro hsafe
    by_contra hlimits
    -- when every call succeeds, only an array that is too small can stop `create_server`
    have hmeets := constructServer_meets (fun _ => true) cfg path
    cases hres : constructServer (fun _ => true) cfg path .init with
    | done s =>
      rw [hres] at hmeets
      exact hlimits hmeets.2
    | failed e s =>
      rw [hres] at hmeets
      exact absurd hmeets.failed (by simp)
    | fault f =>
      rw [hres] at hmeets
      rcases hmeets with ⟨-, q, hq⟩ | ⟨⟨i, size, rfl⟩, -⟩
      · cases hq
      · exact hsafe (fun _ => true) i size (by simp [createServer, hres])
  · intro hlimits ok i size hfault
    unfold createServer at hfault
    split at hfault
    · have hmeets := constructServer_meets ok cfg path
      cases hres : constructServer ok cfg path .init with
      | done s =>
        rw [hres] at hfault
        cases hfault
      | failed e s =>
        rw [hres] at hmeets hfault
        obtain ⟨rfl, hfit, -⟩ := hmeets
        have hne := destroyServer_leftAt hfit i size
        simp only at hfault
        split at hfault
        · cases hfault
        · exact hne hfault
      | fault f =>
        rw [hres] at hmeets hfault
        rcases hmeets with ⟨rfl, -⟩ | ⟨-, hno⟩
        · cases hfault
        · exact hno hlimits
    · cases hfault

theorem serverSafe_iff {m : Nat → Byte} : ServerSafe m ↔
    Limits (serverConfig m) (socketPath m) ∧ (serverConfig m).threads.io ≠ 0 ∧
      (serverConfig m).threads.submit ≠ 0 ∧ (serverConfig m).threads.compute ≠ 0 := by
  constructor
  · intro h
    -- the first session already divides by all three numbers
    obtain ⟨indices, hindices⟩ := h.sessions 0
    exact ⟨createServer_inBounds_iff.mp h.start, (sessionIndices_ok.mp hindices).1⟩
  · rintro ⟨hlimits, hio, hsubmit, hcompute⟩
    have hmax : threadGroupMax ≤ serverMaxThreads := by decide
    refine ⟨createServer_inBounds_iff.mpr hlimits, ?_, ?_, addressOk_iff.mpr hlimits.path⟩
    · intro g i hi
      have hin : i < serverMaxThreads :=
        Nat.lt_of_lt_of_le hi (Nat.le_trans (hlimits.threads g) hmax)
      cases g with
      | io | compute | submit => exact ⟨i, elementOf_ok.mpr ⟨hin, rfl⟩⟩
      | accept => exact ⟨i, rfl⟩
    · intro next
      have hmod : ∀ a n, n ≠ 0 → n ≤ threadGroupMax → a % n < serverMaxThreads := by
        intro a n hn hle
        have hlt := Nat.mod_lt a (Nat.pos_of_ne_zero hn)
        omega
      exact ⟨(next % _, (next + 1) % _, (next + 1) % _), sessionIndices_ok.mpr
        ⟨⟨hio, hsubmit, hcompute⟩,
        ⟨hmod _ _ hio (hlimits.threads .io), hmod _ _ hsubmit (hlimits.threads .submit),
          hmod _ _ hcompute (hlimits.threads .compute)⟩, fun _ _ => rfl⟩⟩

/-! ## What the client does with its configuration -/

/-- `MAX_CLIENT_THREADS`. -/
def maxClientThreads : Nat := 128

/-- The loop of `init_client` over `client_threads`; `ok` says for which threads
`init_client_thread` succeeds. -/
def initClientThreads (ok : Nat → Bool) (nrThreads : Nat) : Unit → Result Unit Nat Fault :=
  forUpTo nrThreads fun i s =>
    checked i maxClientThreads (if ok i then .done s else .failed i s)

/-- Everything that the client indexes with its configuration is in range, and the path fits an
address. -/
structure ClientSafe (m : Nat → Byte) : Prop where
  start : ∀ ok f, initClientThreads ok (clientConfig m).nrThreads () ≠ .fault f
  address : AddressOk (clientConfig m).serverPath

theorem initClientThreads_meets (ok : Nat → Bool) (n : Nat) :
    (initClientThreads ok n ()).Meets (fun _ => n ≤ maxClientThreads) (fun i _ => ok i = false)
      fun _ => maxClientThreads < n := by
  refine .forUpTo (fun i _ => i ≤ maxClientThreads) (Nat.zero_le _) fun i hi s _ => ?_
  apply checked_meets
  · intro hlt
    split
    · exact hlt
    · next hfail => exact Bool.eq_false_iff.mpr hfail
  · intro hout
    exact Nat.lt_of_le_of_lt hout hi

theorem initClientThreads_inBounds_iff {n : Nat} :
    (∀ ok f, initClientThreads ok n () ≠ .fault f) ↔ n ≤ maxClientThreads := by
  constructor
  · intro hsafe
    have hmeets := initClientThreads_meets (fun _ => true) n
    cases hres : initClientThreads (fun _ => true) n () with
    | done s =>
      rw [hres] at hmeets
      exact hmeets
    | failed i s =>
      rw [hres] at hmeets
      cases hmeets
    | fault f => exact absurd hres (hsafe _ f)
  · intro hn ok f hfault
    have hmeets := initClientThreads_meets ok n
    rw [hfault] at hmeets
    exact absurd hn (Nat.not_le_of_lt hmeets)

theorem clientSafe_iff {m : Nat → Byte} : ClientSafe m ↔
    (clientConfig m).nrThreads ≤ maxClientThreads ∧
      (clientConfig m).serverPath.length < sunPathMax := by
  rw [← initClientThreads_inBounds_iff, ← addressOk_iff]
  exact ⟨fun h => ⟨h.start, h.address⟩, fun h => ⟨h.1, h.2⟩⟩

/-! ## The arguments -/

/-- The arguments keep to the sizes of the server's arrays. -/
structure ServerLimits (argv : List CString) : Prop where
  io : 1 ≤ ServerParams.threadsIo.uint argv ∧ ServerParams.threadsIo.uint argv ≤ threadGroupMax
  compute : 1 ≤ ServerParams.threadsCompute.uint argv ∧
    ServerParams.threadsCompute.uint argv ≤ threadGroupMax
  submit : 1 ≤ ServerParams.threadsSubmit.uint argv ∧
    ServerParams.threadsSubmit.uint argv ≤ threadGroupMax
  accept : ServerParams.threadsAccept.uint argv ≤ threadGroupMax
  path : (ServerParams.socketPath.string argv).length < sunPathMax

/-- The arguments keep to the sizes of the client's arrays. -/
structure ClientLimits (argv : List CString) : Prop where
  threads : ClientParams.nrThreads.uint argv ≤ maxClientThreads
  path : (ClientParams.serverPath.string argv).length < sunPathMax

section Arguments

variable {junk : Nat → Nat → Byte} {argv : List CString} {cfg m : Nat → Byte}

theorem serverConfig_eq (h : parseCommandArgs junk argv cfg serverParams = .ok m) :
    socketPath m = ServerParams.socketPath.string argv ∧
      (serverConfig m).threads = ⟨ServerParams.threadsIo.uint argv,
        ServerParams.threadsAccept.uint argv, ServerParams.threadsSubmit.uint argv,
        ServerParams.threadsCompute.uint argv⟩ := by
  have huint : ∀ p ∈ serverParams, p.conv ≠ .str → uintAt m p.offset = p.uint argv :=
    fun p hp hconv => parseParams_uint serverParams_ok h hp hconv
  refine ⟨parseParams_string serverParams_ok h (p := ServerParams.socketPath) ?_ rfl, ?_⟩
  · exact List.mem_cons_self
  · have hio := huint ServerParams.threadsIo (by simp [serverParams]) (by decide)
    have haccept := huint ServerParams.threadsAccept (by simp [serverParams]) (by decide)
    have hsubmit := huint ServerParams.threadsSubmit (by simp [serverParams]) (by decide)
    have hcompute := huint ServerParams.threadsCompute (by simp [serverParams]) (by decide)
    rw [← hio, ← haccept, ← hsubmit, ← hcompute]
    rfl

theorem clientConfig_eq (h : parseCommandArgs junk argv cfg clientParams = .ok m) :
    (clientConfig m).serverPath = ClientParams.serverPath.string argv ∧
      (clientConfig m).nrThreads = ClientParams.nrThreads.uint argv := by
  refine ⟨parseParams_string clientParams_ok h (p := ClientParams.serverPath) ?_ rfl,
    parseParams_uint clientParams_ok h (p := ClientParams.nrThreads) ?_ (by decide)⟩
  · exact List.mem_cons_self
  · simp [clientParams]

end Arguments

/-- **Configuration safety**: arguments that are accepted are safe exactly when the last ones that
name them, or the defaults, keep to the sizes of the arrays. -/
theorem config_safe_iff (junk : Nat → Nat → Byte) (argv : List CString) (cfg m : Nat → Byte) :
    (parseCommandArgs junk argv cfg serverParams = .ok m →
      (ServerSafe m ↔ ServerLimits argv)) ∧
    (parseCommandArgs junk argv cfg clientParams = .ok m →
      (ClientSafe m ↔ ClientLimits argv)) := by
  constructor
  · intro h
    obtain ⟨hpath, hthreads⟩ := serverConfig_eq h
    rw [serverSafe_iff, hthreads, hpath]
    constructor
    · rintro ⟨hlimits, hio, hsubmit, hcompute⟩
      have hmax : ∀ g, (serverConfig m).nrThreads g ≤ threadGroupMax := hlimits.threads
      refine ⟨⟨Nat.pos_of_ne_zero hio, ?_⟩, ⟨Nat.pos_of_ne_zero hcompute, ?_⟩,
        ⟨Nat.pos_of_ne_zero hsubmit, ?_⟩, ?_, hlimits.path⟩
      · simpa [ServerConfig.nrThreads, hthreads] using hmax .io
      · simpa [ServerConfig.nrThreads, hthreads] using hmax .compute
      · simpa [ServerConfig.nrThreads, hthreads] using hmax .submit
      · simpa [ServerConfig.nrThreads, hthreads] using hmax .accept
    · intro h
      refine ⟨⟨h.path, fun g => ?_⟩, Nat.ne_of_gt h.io.1, Nat.ne_of_gt h.submit.1,
        Nat.ne_of_gt h.compute.1⟩
      cases g with
      | io => simpa [ServerConfig.nrThreads, hthreads] using h.io.2
      | compute => simpa [ServerConfig.nrThreads, hthreads] using h.compute.2
      | submit => simpa [ServerConfig.nrThreads, hthreads] using h.submit.2
      | accept => simpa [ServerConfig.nrThreads, hthreads] using h.accept
  · intro h
    obtain ⟨hpath, hthreads⟩ := clientConfig_eq h
    rw [clientSafe_iff, hpath, hthreads]
    exact ⟨fun h => ⟨h.1, h.2⟩, fun h => ⟨h.threads, h.path⟩⟩

/-- A string of the command line. -/
def arg (s : String) (h : 0 ∉ ascii s := by decide) : CString := ⟨ascii s, h⟩

/-- The arguments are accepted. -/
theorem exists_parsed (argv : List CString) (params : List Param)
    (h : (parseCommandArgs (fun _ _ => 0) argv (fun _ => 0) params).isOk = true) :
    ∃ m, parseCommandArgs (fun _ _ => 0) argv (fun _ => 0) params = .ok m := by
  cases hres : parseCommandArgs (fun _ _ => 0) argv (fun _ => 0) params with
  | error e =>
    rw [hres] at h
    cases h
  | ok m => exact ⟨m, rfl⟩

/-- 64 compute threads are safe. -/
theorem config_safe_iff_compute : ∃ m, ServerSafe m ∧
    parseCommandArgs (fun _ _ => 0) [arg "server", arg "--threads.compute=64"] (fun _ => 0)
      serverParams = .ok m := by
  obtain ⟨m, hm⟩ := exists_parsed [arg "server", arg "--threads.compute=64"] serverParams
      (by decide +kernel)
  exact ⟨m, ((config_safe_iff _ _ _ m).1 hm).mpr ⟨by decide +kernel, by decide +kernel,
    by decide +kernel, by decide +kernel, by decide +kernel⟩, hm⟩

/-- 65 compute threads, no IO thread and 129 client threads are all accepted, and none of them is
safe. -/
theorem accepted_unsafe :
    (∃ m, parseCommandArgs (fun _ _ => 0) [arg "server", arg "--threads.compute=65"] (fun _ => 0)
      serverParams = .ok m ∧ ¬ServerSafe m) ∧
    (∃ m, parseCommandArgs (fun _ _ => 0) [arg "server", arg "--threads.io=0"] (fun _ => 0)
      serverParams = .ok m ∧ ¬ServerSafe m) ∧
    ∃ m, parseCommandArgs (fun _ _ => 0) [arg "client", arg "--nr_threads=129"] (fun _ => 0)
      clientParams = .ok m ∧ ¬ClientSafe m := by
  refine ⟨?_, ?_, ?_⟩
  · obtain ⟨m, hm⟩ := exists_parsed [arg "server", arg "--threads.compute=65"] serverParams
      (by decide +kernel)
    refine ⟨m, hm, fun hsafe => ?_⟩
    have hmax := (serverSafe_iff.mp hsafe).1.threads .compute
    rw [ServerConfig.nrThreads, (serverConfig_eq hm).2] at hmax
    exact absurd hmax (by decide +kernel)
  · obtain ⟨m, hm⟩ := exists_parsed [arg "server", arg "--threads.io=0"] serverParams
      (by decide +kernel)
    refine ⟨m, hm, fun hsafe => ?_⟩
    have hio := (serverSafe_iff.mp hsafe).2.1
    rw [(serverConfig_eq hm).2] at hio
    exact absurd (by decide +kernel) hio
  · obtain ⟨m, hm⟩ := exists_parsed [arg "client", arg "--nr_threads=129"] clientParams
      (by decide +kernel)
    refine ⟨m, hm, fun hsafe => ?_⟩
    have hmax := (clientSafe_iff.mp hsafe).1
    rw [(clientConfig_eq hm).2] at hmax
    exact absurd hmax (by decide +kernel)

end Piotbench.Command
