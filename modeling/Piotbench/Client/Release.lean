import Mathlib.Data.List.Basic
import Piotbench.Client.Setup

/-!
# What a failed `init_client` leaves open

`initClient_meets` follows `init_client` through its loops: when it is done every connection has
been set up, and when a step fails the sockets that are left open are those of descriptor 0 among
the connections that had been set up before. Together with `cleanup_client` after the workers have
finished, this is `client_cleanup_iff`.
-/

namespace Piotbench.Client

open Server Stage
open Command (maxClientThreads)

variable {calls : SetupCalls} {nrThreads nrConnections : Nat} {s : ClientSetup}

/-! ## While the client is set up -/

/-- With the first `i` threads set up. -/
structure Threads (calls : SetupCalls) (nrConnections i : Nat) (s : ClientSetup) : Prop where
  init : ∀ a, s.init a = decide (a < i)
  conns : ∀ a < i, ∀ b < nrConnections, s.conns a b = ⟨calls.fd a b, true⟩
  setUp : ∀ a < i, ∀ b < nrConnections, calls.conns a = true ∧ calls.connected a b = true

/-- Between two threads. -/
structure Stocked (calls : SetupCalls) (nrConnections i : Nat) (s : ClientSetup) : Prop where
  threads : Threads calls nrConnections i s
  opened : s.opened = calls.fds nrConnections i
  closed : s.closed = []
  allocated : s.allocated = List.range i
  freed : s.freed = []

/-- In thread `i`, with its first `j` connections set up. The sockets in `shut` have been opened
after those, and closed again. -/
structure Connecting (calls : SetupCalls) (nrConnections i j : Nat) (shut : List Int)
    (s : ClientSetup) : Prop where
  threads : Threads calls nrConnections i s
  here : calls.conns i = true
  connected : ∀ b < j, s.conns i b = ⟨calls.fd i b, true⟩ ∧ calls.connected i b = true
  blank : ∀ b, j ≤ b → (s.conns i b).isOpen = false
  opened : s.opened = calls.fds nrConnections i ++ (List.range j).map (calls.fd i) ++ shut
  closed : s.closed = shut
  allocated : s.allocated = List.range (i + 1)
  freed : s.freed = []

/-- Only the threads that are set up matter. -/
theorem Threads.congr {i : Nat} {s' : ClientSetup} (h : Threads calls nrConnections i s)
    (hinit : ∀ a, s'.init a = decide (a < i)) (hconns : ∀ a < i, s'.conns a = s.conns a) :
    Threads calls nrConnections i s' := by
  refine ⟨hinit, fun a ha b hb => ?_, h.setUp⟩
  rw [hconns a ha]
  exact h.conns a ha b hb

/-- A connection that is not open yet; what was opened for it has been closed again. -/
theorem Connecting.unconnected {i j : Nat} {conn : Endpoint} {shut : List Int} {s' : ClientSetup}
    (h : Connecting calls nrConnections i j [] s) (hconn : conn.isOpen = false)
    (hconns : s'.conns = (s.setConn i j conn).conns) (hinit : s'.init = s.init)
    (hopened : s'.opened = s.opened ++ shut) (hclosed : s'.closed = s.closed ++ shut)
    (hallocated : s'.allocated = s.allocated) (hfreed : s'.freed = s.freed) :
    Connecting calls nrConnections i j shut s' := by
  refine ⟨h.threads.congr ?_ ?_, h.here, ?_, ?_, ?_, ?_, ?_, ?_⟩
  · rw [hinit]
    exact h.threads.init
  · intro a ha
    rw [hconns]
    exact setConn_ne s j conn (Nat.ne_of_lt ha)
  · intro b hb
    rw [hconns, setConn_conns, if_neg (Nat.ne_of_lt hb)]
    exact h.connected b hb
  · intro b hb
    rw [hconns, setConn_conns]
    split
    · exact hconn
    · exact h.blank b hb
  · rw [hopened, h.opened, List.append_nil]
  · rw [hclosed, h.closed, List.nil_append]
  · rw [hallocated, h.allocated]
  · rw [hfreed, h.freed]

/-- A connection that is set up. -/
theorem Connecting.next {i j : Nat} {s' : ClientSetup}
    (h : Connecting calls nrConnections i j [] s) (hconnected : calls.connected i j = true)
    (hconns : s'.conns = (s.setConn i j ⟨calls.fd i j, true⟩).conns) (hinit : s'.init = s.init)
    (hopened : s'.opened = s.opened ++ [calls.fd i j]) (hclosed : s'.closed = s.closed)
    (hallocated : s'.allocated = s.allocated) (hfreed : s'.freed = s.freed) :
    Connecting calls nrConnections i (j + 1) [] s' := by
  refine ⟨h.threads.congr ?_ ?_, h.here, ?_, ?_, ?_, ?_, ?_, ?_⟩
  · rw [hinit]
    exact h.threads.init
  · intro a ha
    rw [hconns]
    exact setConn_ne s j _ (Nat.ne_of_lt ha)
  · intro b hb
    rw [hconns, setConn_conns]
    split
    · next hb' =>
      subst hb'
      exact ⟨rfl, hconnected⟩
    · next hb' =>
      have hlt : b < j := by omega
      exact h.connected b hlt
  · intro b hb
    have hne : b ≠ j := by omega
    rw [hconns, setConn_conns, if_neg hne]
    exact h.blank b (by omega)
  · rw [hopened, h.opened, List.range_succ, List.map_append]
    simp
  · rw [hclosed, h.closed]
  · rw [hallocated, h.allocated]
  · rw [hfreed, h.freed]

/-- A connection is set up, or `shut` again after a failure. -/
theorem initClientConn_meets {i j : Nat} (h : Connecting calls nrConnections i j [] s) :
    (initClientConn calls i j s).Meets
      (Connecting calls nrConnections i (j + 1) [])
      (fun _ s' => calls.connected i j = false ∧
        ∃ shut, Connecting calls nrConnections i j shut s')
      (fun _ => False) := by
  have hj : (s.conns i j).isOpen = false := h.blank j (Nat.le_refl j)
  unfold initClientConn
  cases hsocket : calls.socket i j with
  | none =>
    have hclosed : ({ s.conns i j with fd := -1 } : Endpoint).isOpen = false := hj
    refine ⟨by simp [SetupCalls.connected, hsocket], [], ?_⟩
    exact h.unconnected hclosed rfl rfl (List.append_nil _).symm (List.append_nil _).symm rfl rfl
  | some fd =>
    have hfd : calls.fd i j = fd := by rw [SetupCalls.fd, hsocket]
    have hclosed : ({ s.conns i j with fd := fd } : Endpoint).isOpen = false := hj
    simp only
    split
    · next hconnect =>
      split
      · next hnonblock =>
        have hconnected : calls.connected i j = true := by
          simp [SetupCalls.connected, hsocket, hconnect, hnonblock]
        refine h.next hconnected ?_ rfl ?_ rfl rfl rfl
        · -- the descriptor is stored first, and stays
          rw [hfd]
          simp only [ClientSetup.setConn, Function.update_self, Function.update_idem]
        · rw [hfd]
          rfl
      · next hnonblock =>
        refine ⟨by simp [SetupCalls.connected, hnonblock], [(fd : Int)], ?_⟩
        exact h.unconnected hclosed rfl rfl rfl rfl rfl rfl
    · next hconnect =>
      refine ⟨by simp [SetupCalls.connected, hconnect], [(fd : Int)], ?_⟩
      exact h.unconnected hclosed rfl rfl rfl rfl rfl rfl

/-! ## When a step fails -/

/-- After the failing thread has been cleaned up: `mine` are the sockets of those of its
connections that had been set up. -/
structure Failing (calls : SetupCalls) (nrThreads nrConnections i : Nat) (mine shut : List Int)
    (s : ClientSetup) : Prop where
  threads : Threads calls nrConnections i s
  le : i ≤ nrThreads
  opened : s.opened = calls.fds nrConnections i ++ mine ++ shut
  closed : s.closed = shut ++ mine.filter (0 < ·)
  freed : (s.freed ++ List.range i).Perm s.allocated
  mem : ∀ fd, fd ∈ calls.fds nrConnections i ++ mine ↔ ∃ a < nrThreads, ∃ b < nrConnections,
    calls.SetUp nrConnections a b ∧ fd = calls.fd a b

theorem mem_fds {i : Nat} {fd : Int} : fd ∈ calls.fds nrConnections i ↔
    ∃ a < i, ∃ b < nrConnections, fd = calls.fd a b := by
  simp only [SetupCalls.fds, List.mem_flatMap, List.mem_range, List.mem_map, eq_comm]

/-- The connections of the first `i` threads, and the first `j` of thread `i`, are those that are
set up, when something fails there. -/
theorem mem_setUp {i j : Nat} (hcontext : calls.context = true) (hi : i ≤ nrThreads)
    (hin : 0 < j → i < nrThreads) (hj : j ≤ nrConnections)
    (hbefore : ∀ a < i, ∀ b < nrConnections, calls.conns a = true ∧ calls.connected a b = true)
    (hhere : ∀ b < j, calls.conns i = true ∧ calls.connected i b = true)
    (hstop : ∀ a < nrThreads, ∀ b < nrConnections, calls.SetUp nrConnections a b →
      a < i ∨ a = i ∧ b < j) (fd : Int) :
    fd ∈ calls.fds nrConnections i ++ (List.range j).map (calls.fd i) ↔
      ∃ a < nrThreads, ∃ b < nrConnections, calls.SetUp nrConnections a b ∧ fd = calls.fd a b := by
  simp only [List.mem_append, mem_fds, List.mem_map, List.mem_range]
  constructor
  · rintro (⟨a, ha, b, hb, rfl⟩ | ⟨b, hb, rfl⟩)
    · refine ⟨a, by omega, b, hb, ⟨hcontext, ?_, ?_⟩, rfl⟩
      · intro a' ha'
        exact hbefore a' (by omega)
      · intro b' hb'
        exact hbefore a ha b' (by omega)
    · refine ⟨i, hin (by omega), b, by omega, ⟨hcontext, hbefore, ?_⟩, rfl⟩
      intro b' hb'
      exact hhere b' (by omega)
  · rintro ⟨a, ha, b, hb, hsetUp, rfl⟩
    rcases hstop a ha b hb hsetUp with hlt | ⟨rfl, hlt⟩
    · exact .inl ⟨a, hlt, b, hb, rfl⟩
    · exact .inr ⟨b, hlt, rfl⟩

/-- What `cleanup_client_thread` closes of a thread whose first `j` connections are open. -/
theorem closes_of_open {i j n : Nat} (fd : Nat → Int) (hj : j ≤ n)
    (hconns : ∀ b < j, s.conns i b = ⟨fd b, true⟩)
    (hblank : ∀ b, j ≤ b → b < n → (s.conns i b).isOpen = false) :
    s.closes n i = ((List.range j).map fd).filter (0 < ·) := by
  have hall : ∀ k ≤ j, s.closes k i = ((List.range k).map fd).filter (0 < ·) := by
    intro k
    induction k with
    | zero => intro _; rfl
    | succ k ih =>
      intro hk
      rw [closes_succ, ih (by omega), hconns k (by omega), List.range_succ, List.map_append,
        List.filter_append]
      by_cases hpos : 0 < fd k <;> simp [hpos]
  have hrest : ∀ k, j ≤ k → k ≤ n → s.closes k i = s.closes j i := by
    intro k hjk
    induction k, hjk using Nat.le_induction with
    | base => intro _; rfl
    | succ k hjk ih =>
      intro hk
      rw [closes_succ, ih (by omega), if_neg, List.append_nil]
      simp [hblank k hjk (by omega)]
  rw [hrest n hj (Nat.le_refl n), hall j (Nat.le_refl j)]

/-- `init_client_thread` before its loop. -/
theorem Stocked.connecting {i : Nat} (h : Stocked calls nrConnections i s)
    (hconns : calls.conns i = true) :
    Connecting calls nrConnections i 0 []
      { s with
        conns := Function.update s.conns i fun _ => ⟨0, false⟩
        allocated := s.allocated ++ [i] } where
  threads := h.threads.congr h.threads.init fun _ ha => Function.update_of_ne (Nat.ne_of_lt ha) ..
  here := hconns
  connected b hb := absurd hb (Nat.not_lt_zero b)
  blank b _ := by simp
  opened := by simp [h.opened]
  closed := h.closed
  allocated := by simp [h.allocated, List.range_succ]
  freed := h.freed

/-- The failing thread is cleaned up. -/
theorem Connecting.failing {i j : Nat} {shut : List Int}
    (h : Connecting calls nrConnections i j shut s) (hcontext : calls.context = true)
    (hi : i < nrThreads) (hj : j < nrConnections) (hstop : calls.connected i j = false) :
    ∃ mine, Failing calls nrThreads nrConnections i mine shut
      (cleanupClientThread nrConnections s i) := by
  have hcleaned := cleanupClientThread_cleaned nrConnections s i
  have hcloses := closes_of_open (calls.fd i) (Nat.le_of_lt hj) (fun b hb => (h.connected b hb).1)
    fun b hb _ => h.blank b hb
  refine ⟨(List.range j).map (calls.fd i), ?_, Nat.le_of_lt hi, ?_, ?_, ?_, ?_⟩
  · refine h.threads.congr (fun a => ?_) fun a ha => hcleaned.conns a (Nat.ne_of_lt ha)
    rw [hcleaned.init]
    by_cases ha : a = i
    · subst ha
      simp
    · rw [Function.update_of_ne ha, h.threads.init a]
  · rw [hcleaned.opened, h.opened]
  · rw [hcleaned.closed, h.closed, hcloses]
  · rw [hcleaned.freed, h.freed, hcleaned.allocated, h.allocated, List.range_succ]
    exact List.perm_append_comm
  · refine mem_setUp hcontext (Nat.le_of_lt hi) (fun _ => hi) (Nat.le_of_lt hj) h.threads.setUp
      (fun b hb => ⟨h.here, (h.connected b hb).2⟩) fun a _ b _ hsetUp => ?_
    -- what comes behind the connection that fails is not set up
    by_contra hno
    have hconnected : calls.connected i j = true := by
      rcases Nat.lt_trichotomy a i with hlt | rfl | hgt
      · exact absurd (.inl hlt) hno
      · exact (hsetUp.here j (by omega)).2
      · exact (hsetUp.before i hgt j hj).2
    rw [hstop] at hconnected
    cases hconnected

/-- **`init_client_thread`.** -/
theorem initClientThread_meets {i : Nat} (h : Stocked calls nrConnections i s)
    (hcontext : calls.context = true) (hi : i < nrThreads) :
    (initClientThread calls nrConnections i s).Meets (Stocked calls nrConnections (i + 1))
      (fun _ s' => ∃ i' mine shut, Failing calls nrThreads nrConnections i' mine shut s')
      (fun _ => False) := by
  unfold initClientThread
  split
  · next hconns =>
    refine .andThen (Q := Connecting calls nrConnections i nrConnections []) ?_ ?_
    · apply Result.Meets.onFailure
      refine .forUpTo (fun j => Connecting calls nrConnections i j []) (h.connecting hconns) ?_
      intro j hj s' hs'
      refine (initClientConn_meets hs').imp (fun _ hnext => hnext) ?_ fun _ hf => hf
      rintro _ s'' ⟨hstop, shut, hshut⟩
      obtain ⟨mine, hfailing⟩ := hshut.failing hcontext hi hj hstop
      exact ⟨i, mine, shut, hfailing⟩
    · intro s' hs'
      refine ⟨⟨?_, ?_, ?_⟩, ?_, hs'.closed, hs'.allocated, hs'.freed⟩
      · intro a
        by_cases ha : a = i
        · subst ha
          simp
        · have hlt : a < i + 1 ↔ a < i := by omega
          simp [ha, hs'.threads.init a, hlt]
      · intro a ha b hb
        by_cases hai : a = i
        · subst hai
          exact (hs'.connected b hb).1
        · exact hs'.threads.conns a (by omega) b hb
      · intro a ha b hb
        by_cases hai : a = i
        · subst hai
          exact ⟨hs'.here, (hs'.connected b hb).2⟩
        · exact hs'.threads.setUp a (by omega) b hb
      · show s'.opened = _
        rw [hs'.opened, SetupCalls.fds, SetupCalls.fds, List.range_succ, List.flatMap_append]
        simp
  · next hconns =>
    refine ⟨i, [], [], h.threads, Nat.le_of_lt hi, ?_, ?_, ?_, ?_⟩
    · simp [h.opened]
    · simp [h.closed]
    · simp [h.freed, h.allocated]
    · have hmem := mem_setUp (j := 0) hcontext (Nat.le_of_lt hi) (fun _ => hi) (Nat.zero_le _)
        h.threads.setUp (fun b hb => absurd hb (Nat.not_lt_zero b)) fun a _ b hb hsetUp => ?_
      · exact hmem
      · by_contra hno
        have hone : calls.conns i = true := by
          rcases Nat.lt_trichotomy a i with hlt | rfl | hgt
          · exact absurd (.inl hlt) hno
          · exact (hsetUp.here b (Nat.le_refl b)).1
          · exact (hsetUp.before i hgt b hb).1
        exact hconns hone

/-- The whole of `init_client`, before its `cleanup_client`. -/
theorem initThreads_meets (hcontext : calls.context = true) (hmax : nrThreads ≤ maxClientThreads) :
    (andThen
      (forUpTo nrThreads fun i s =>
        checked i maxClientThreads (initClientThread calls nrConnections i s))
      (initBarrier calls) .zero).Meets (Stocked calls nrConnections nrThreads)
      (fun _ s' => ∃ i mine shut, Failing calls nrThreads nrConnections i mine shut s')
      (fun _ => False) := by
  refine .andThen (Q := Stocked calls nrConnections nrThreads) ?_ ?_
  · refine .forUpTo (fun i => Stocked calls nrConnections i) ?_ ?_
    · refine ⟨⟨fun a => ?_, fun a ha => ?_, fun a ha => ?_⟩, rfl, rfl, rfl, rfl⟩
      · simp [ClientSetup.zero]
      · exact absurd ha (Nat.not_lt_zero a)
      · exact absurd ha (Nat.not_lt_zero a)
    · intro i hi s hs
      apply checked_meets
      · intro _
        exact initClientThread_meets hs hcontext hi
      · intro hout
        exact absurd (Nat.lt_of_lt_of_le hi hmax) (Nat.not_lt_of_le hout)
  · intro s hs
    unfold initBarrier
    split
    · exact hs
    · refine ⟨nrThreads, [], [], hs.threads, Nat.le_refl _, ?_, ?_, ?_, ?_⟩
      · simp [hs.opened]
      · simp [hs.closed]
      · simp [hs.freed, hs.allocated]
      · exact mem_setUp (j := 0) hcontext (Nat.le_refl _) (fun h => absurd h (Nat.lt_irrefl 0))
          (Nat.zero_le _) hs.threads.setUp (fun b hb => absurd hb (Nat.not_lt_zero b))
          fun a ha _ _ _ => .inl ha

/-! ## `cleanup_client` -/

/-- What `cleanup_client` closes of the threads that are set up. -/
theorem Threads.closes {i : Nat} (h : Threads calls nrConnections i s) :
    ((List.range i).flatMap (s.closes nrConnections)) =
      (calls.fds nrConnections i).filter (0 < ·) := by
  rw [SetupCalls.fds, List.filter_flatMap]
  apply List.flatMap_congr
  intro a ha
  exact closes_of_open (calls.fd a) (Nat.le_refl _) (h.conns a (List.mem_range.mp ha))
    fun b hb hb' => absurd hb' (Nat.not_lt_of_le hb)

/-- The threads that `cleanup_client` cleans up. -/
theorem Threads.filter_init {i : Nat} (h : Threads calls nrConnections i s) (hi : i ≤ nrThreads) :
    (List.range nrThreads).filter s.init = List.range i := by
  have hinit : s.init = fun a => decide (a < i) := funext h.init
  rw [hinit]
  induction nrThreads, hi using Nat.le_induction with
  | base =>
    apply List.filter_eq_self.mpr
    intro a ha
    simpa using ha
  | succ n hn ih =>
    rw [List.range_succ, List.filter_append, ih]
    simp [Nat.not_lt_of_le hn]

/-- A filter keeps everything, in some order, if everything passes. -/
theorem filter_perm_iff {l : List Int} :
    (l.filter (0 < ·)).Perm l ↔ ∀ fd ∈ l, 0 < fd := by
  constructor
  · intro hperm fd hfd
    simpa using (List.mem_filter.mp (hperm.symm.subset hfd)).2
  · intro hall
    rw [List.filter_eq_self.mpr fun fd hfd => by simpa using hall fd hfd]

theorem fd_pos_iff {i j : Nat} (h : calls.connected i j = true) :
    0 < calls.fd i j ↔ calls.socket i j ≠ some 0 := by
  unfold SetupCalls.connected at h
  unfold SetupCalls.fd
  cases hsocket : calls.socket i j with
  | none => simp [hsocket] at h
  | some fd =>
    rw [ne_eq, Option.some.injEq]
    exact Int.natCast_pos.trans Nat.pos_iff_ne_zero

/-- Everything that has been opened is closed, and everything allocated freed. -/
structure CleanedUp (s : ClientSetup) : Prop where
  closed : s.closed.Perm s.opened
  freed : s.freed.Perm s.allocated

theorem Failing.cleaned_iff {i : Nat} {mine shut : List Int}
    (h : Failing calls nrThreads nrConnections i mine shut s) :
    CleanedUp (cleanupClient nrThreads nrConnections s) ↔
      ∀ a < nrThreads, ∀ b < nrConnections, calls.SetUp nrConnections a b →
        calls.socket a b ≠ some 0 := by
  have hcleaned := cleanupClient_cleaned nrThreads nrConnections s
  have hinit := h.threads.filter_init h.le
  have hclosed : (cleanupClient nrThreads nrConnections s).closed.Perm
      ((calls.fds nrConnections i ++ mine).filter (0 < ·) ++ shut) := by
    rw [hcleaned.closed, hinit, h.threads.closes, h.closed, List.filter_append]
    refine (List.perm_append_comm).trans ?_
    rw [List.append_assoc]
    exact List.perm_append_comm.append_left _
  have hperm : (cleanupClient nrThreads nrConnections s).closed.Perm
      (cleanupClient nrThreads nrConnections s).opened ↔
      ∀ fd ∈ calls.fds nrConnections i ++ mine, 0 < fd := by
    have hshut : ((calls.fds nrConnections i ++ mine).filter (0 < ·) ++ shut).Perm
        (calls.fds nrConnections i ++ mine ++ shut) ↔
          ((calls.fds nrConnections i ++ mine).filter (0 < ·)).Perm
            (calls.fds nrConnections i ++ mine) := List.perm_append_right_iff shut
    rw [hcleaned.opened, h.opened, ← filter_perm_iff, ← hshut]
    exact ⟨hclosed.symm.trans, hclosed.trans⟩
  have hfreed : (cleanupClient nrThreads nrConnections s).freed.Perm
      (cleanupClient nrThreads nrConnections s).allocated := by
    rw [hcleaned.freed, hcleaned.allocated, hinit]
    exact h.freed
  constructor
  · intro hup a ha b hb hsetUp
    have hpos := hperm.mp hup.closed _ ((h.mem _).mpr ⟨a, ha, b, hb, hsetUp, rfl⟩)
    exact (fd_pos_iff (hsetUp.here b (Nat.le_refl b)).2).mp hpos
  · intro hzero
    refine ⟨hperm.mpr fun fd hfd => ?_, hfreed⟩
    obtain ⟨a, ha, b, hb, hsetUp, rfl⟩ := (h.mem fd).mp hfd
    exact (fd_pos_iff (hsetUp.here b (Nat.le_refl b)).2).mpr (hzero a ha b hb hsetUp)

/-! ## After the workers -/

theorem workersClose_conns (finished : List (Nat × Nat)) (s : ClientSetup) (i j : Nat) :
    (workersClose finished s).conns i j =
      if (i, j) ∈ finished then ⟨-1, (s.conns i j).isOpen⟩ else s.conns i j := by
  induction finished generalizing s with
  | nil => rfl
  | cons p finished ih =>
    have hone : ∀ conn : Endpoint, (s.setConn p.1 p.2 conn).conns i j =
        if (i, j) = p then conn else s.conns i j := by
      intro conn
      by_cases hi : i = p.1
      · subst hi
        rw [setConn_conns]
        by_cases hj : j = p.2
        · subst hj
          simp
        · have hne : (p.1, j) ≠ p := fun heq => hj (congrArg (·.2) heq)
          rw [if_neg hj, if_neg hne]
      · have hne : (i, j) ≠ p := fun heq => hi (congrArg (·.1) heq)
        rw [setConn_ne s p.2 conn hi, if_neg hne]
    refine (ih _).trans ?_
    simp only [hone, List.mem_cons]
    by_cases hp : (i, j) = p
    · subst hp
      simp
    · simp [hp]

theorem workersClose_init (finished : List (Nat × Nat)) (s : ClientSetup) :
    (workersClose finished s).init = s.init ∧ (workersClose finished s).freed = s.freed ∧
      (workersClose finished s).allocated = s.allocated := by
  induction finished generalizing s with
  | nil => exact ⟨rfl, rfl, rfl⟩
  | cons p finished ih => exact ih _

/-- What is closed of a thread of which the workers have closed some. -/
theorem filter_map_open (fd : Nat → Int) (done : Nat → Prop) [DecidablePred done] (n : Nat) :
    ((List.range n).map fun b => if done b then -1 else fd b).filter (0 < ·) =
      (((List.range n).filter fun b => ¬ done b).map fd).filter (0 < ·) := by
  induction n with
  | zero => rfl
  | succ n ih =>
    rw [List.range_succ, List.map_append, List.filter_append, ih, List.filter_append,
      List.map_append, List.filter_append]
    by_cases hdone : done n <;> simp [hdone]

/-- `cleanup_client` closes what the workers have left open, each socket once, and frees the
`conns` of every thread. -/
structure ClosesRemaining (calls : SetupCalls) (nrThreads nrConnections : Nat)
    (finished : List (Nat × Nat)) (s s' : ClientSetup) : Prop where
  closed : ∃ l, s'.closed = s.closed ++ l ∧
    l.Perm (calls.remaining nrThreads nrConnections finished)
  freed : s'.freed.Perm s'.allocated

theorem Stocked.cleaned_iff (h : Stocked calls nrConnections nrThreads s)
    (finished : List (Nat × Nat)) :
    ClosesRemaining calls nrThreads nrConnections finished (workersClose finished s)
        (cleanupClient nrThreads nrConnections (workersClose finished s)) ↔
      ∀ i < nrThreads, ∀ j < nrConnections, (i, j) ∉ finished → calls.socket i j ≠ some 0 := by
  obtain ⟨hinit, hfreed, hallocated⟩ := workersClose_init finished s
  have hcleaned := cleanupClient_cleaned nrThreads nrConnections (workersClose finished s)
  have hfilter := h.threads.filter_init (Nat.le_refl nrThreads)
  have hcloses : ((List.range nrThreads).flatMap ((workersClose finished s).closes nrConnections)) =
      (calls.remaining nrThreads nrConnections finished).filter (0 < ·) := by
    rw [SetupCalls.remaining, List.filter_flatMap]
    apply List.flatMap_congr
    intro i hi
    rw [← filter_map_open (calls.fd i) (fun j => (i, j) ∈ finished)]
    refine closes_of_open _ (Nat.le_refl _) (fun j hj => ?_)
      fun j hj hj' => absurd hj' (Nat.not_lt_of_le hj)
    rw [workersClose_conns, h.threads.conns i (List.mem_range.mp hi) j hj]
    split <;> rfl
  have hclosed := hcleaned.closed
  have hdone := hcleaned.freed
  rw [hinit, hfilter, hcloses] at hclosed
  rw [hinit, hfilter, hfreed, h.freed, List.nil_append] at hdone
  have hpos : ∀ i < nrThreads, ∀ j < nrConnections,
      (0 < calls.fd i j ↔ calls.socket i j ≠ some 0) := fun i hi j hj =>
    fd_pos_iff (h.threads.setUp i hi j hj).2
  have hmem : ∀ fd, fd ∈ calls.remaining nrThreads nrConnections finished ↔
      ∃ i < nrThreads, ∃ j < nrConnections, (i, j) ∉ finished ∧ calls.fd i j = fd := by
    intro fd
    simp only [SetupCalls.remaining, List.mem_flatMap, List.mem_range, List.mem_map,
      List.mem_filter, decide_eq_true_eq, and_assoc]
  constructor
  · rintro ⟨⟨l, hl, hperm⟩, -⟩ i hi j hj hopen
    obtain rfl := List.append_cancel_left (hclosed.symm.trans hl)
    exact (hpos i hi j hj).mp (filter_perm_iff.mp hperm _ ((hmem _).mpr ⟨i, hi, j, hj, hopen, rfl⟩))
  · intro hzero
    refine ⟨⟨_, hclosed, filter_perm_iff.mpr fun fd hfd => ?_⟩, ?_⟩
    · obtain ⟨i, hi, j, hj, hopen, rfl⟩ := (hmem fd).mp hfd
      exact (hpos i hi j hj).mpr (hzero i hi j hj hopen)
    · rw [hdone, hcleaned.allocated, hallocated, h.allocated]

/-- **Cleaning up the client**, whatever fails and whatever the workers have closed: when
`init_client` returns `NULL` every socket it has opened has been closed once, and every array it
has allocated freed once, exactly if no connection set up by then has descriptor 0; when it
succeeds `cleanup_client` closes the sockets that the workers leave open, once each, exactly if
none of them is 0. -/
theorem client_cleanup_iff (calls : SetupCalls) {nrThreads : Nat} (nrConnections : Nat)
    (hmax : nrThreads ≤ maxClientThreads) :
    (initClient calls nrThreads nrConnections).Meets
      (fun s => ∀ finished,
        ClosesRemaining calls nrThreads nrConnections finished (workersClose finished s)
            (cleanupClient nrThreads nrConnections (workersClose finished s)) ↔
          ∀ i < nrThreads, ∀ j < nrConnections, (i, j) ∉ finished → calls.socket i j ≠ some 0)
      (fun _ s => CleanedUp s ↔
        ∀ i < nrThreads, ∀ j < nrConnections, calls.SetUp nrConnections i j →
          calls.socket i j ≠ some 0)
      (fun _ => False) := by
  unfold initClient
  split
  · next hcontext =>
    apply Result.Meets.onFailure
    refine (initThreads_meets hcontext hmax).imp (fun s hs => hs.cleaned_iff) ?_ fun _ hf => hf
    rintro _ s ⟨i, mine, shut, hfailing⟩
    exact hfailing.cleaned_iff
  · next hcontext =>
    refine ⟨fun _ i _ j _ hsetUp => absurd hsetUp.context hcontext, fun _ => ⟨?_, ?_⟩⟩
    · exact List.Perm.nil
    · exact List.Perm.nil

/-- Two connections in one thread, of which the second cannot be connected. -/
def refusedCalls (fd : Fd) : SetupCalls where
  context := true
  conns _ := true
  socket _ j := if j = 0 then some fd else some (fd + 1)
  connect _ j := j = 0
  setnonblock _ _ := true
  barrier := true

theorem client_cleanup_refused :
    (initClient (refusedCalls 3) 1 2).Meets (fun _ => False) (fun _ s => CleanedUp s)
      (fun _ => False) := by
  have hfails : ∃ e s, initClient (refusedCalls 3) 1 2 = .failed e s := ⟨_, _, rfl⟩
  obtain ⟨e, s, hs⟩ := hfails
  have hiff := client_cleanup_iff (refusedCalls 3) 2 (by decide : 1 ≤ maxClientThreads)
  rw [hs] at hiff ⊢
  refine hiff.mpr fun i _ j _ _ => ?_
  by_cases hj : j = 0 <;> simp [refusedCalls, hj]

/-- The first socket is descriptor 0, and it stays open. -/
theorem not_cleanedUp_refused :
    (initClient (refusedCalls 0) 1 2).Meets (fun _ => False) (fun _ s => ¬ CleanedUp s)
      (fun _ => False) := by
  intro hup
  exact absurd hup.closed (by decide)

end Piotbench.Client
