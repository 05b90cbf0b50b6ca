import Piotbench.Client.Main

/-!
# The start of the client

`start_client` creates the threads one after another, sets `ti` for each, and then comes to the
barrier as the last one. In every run of `run_client` nobody gets past the barrier, and no
connection is touched, before all threads have been created and have arrived and `ti` is set for
every one; and when a thread cannot be created nobody ever gets past it (`start_barrier`).
-/

namespace Piotbench.Client

open Transition Command Barrier

variable {cfg : ClientConfig} {p p' : ClientProgram} {a : ProgramAction} {t : Nat}

/-! ## Runs -/

/-- The clock is monotonic, and shows less than `2 ^ 64` nanoseconds. -/
def Timed (p : ClientProgram) : ProgramAction → Prop
  | .prepare _ ts | .run _ _ ts | .clock ts => p.now ≤ ts.ns ∧ ts.ns < UInt64.size
  | .create _ | .store | .arrive _ | .pass _ | .mainArrive | .mainPass | .initEpoll _ _ _
  | .close _ | .ret _ | .wrap _ | .count | .report | .read | .reported | .stop | .wake | .join _
  | .stats | .cleanup => True

/-- What `thread_join` reads out of the freed `thread_info_t` is what the thread has left there. -/
def intact (p : ClientProgram) : ProgramAction → Bool
  | .join value =>
    match p.pc with
    | .join i _ =>
      match p.phase i with
      | .done ret => value = ret
      | .absent | .created | .waiting | .worker _ => true
    | _ => true
  | _ => true

instance (p : ClientProgram) : (a : ProgramAction) → Decidable (Timed p a)
  | .prepare .. | .run .. | .clock .. => inferInstanceAs (Decidable (_ ∧ _))
  | .create _ | .store | .arrive _ | .pass _ | .mainArrive | .mainPass | .initEpoll _ _ _
  | .close _ | .ret _ | .wrap _ | .count | .report | .read | .reported | .stop | .wake | .join _
  | .stats | .cleanup => .isTrue trivial

abbrev ProgramRun (cfg : ClientConfig) : ClientProgram → Prop :=
  Reachable (programStep cfg) Timed (.init cfg)

/-- The runs in which freed memory keeps its contents until it is read. -/
abbrev IntactRun (cfg : ClientConfig) : ClientProgram → Prop :=
  Reachable (programStep cfg) (fun p a => Timed p a ∧ intact p a = true) (.init cfg)

theorem IntactRun.program (h : IntactRun cfg p) : ProgramRun cfg p :=
  Reachable.strengthen (fun _ hok => hok.1) h

/-! ## The threads inside -/

/-- The clock of the threads is not ahead of the main thread's. -/
structure TimeOk (p : ClientProgram) : Prop where
  sys : p.sys.now ≤ p.now
  now : p.now < UInt64.size

theorem systemStep_now {s s' : ClientSystem} {b : SystemAction}
    (h : systemStep cfg s b = some s') :
    s'.now = s.now ∨ ∃ t a ts, b = .thread t a ts ∧ s'.now = ts.ns := by
  cases b with
  | stop =>
    cases h
    exact .inl rfl
  | thread t a ts =>
    simp only [systemStep] at h
    split at h
    · obtain ⟨w, -, rfl⟩ := Option.map_eq_some_iff.mp h
      exact .inr ⟨t, a, ts, rfl, rfl⟩
    · cases h
  | report =>
    simp only [systemStep] at h
    split at h
    · cases h
      exact .inl rfl
    · cases h
      exact .inl rfl
    · cases h
  | read =>
    obtain ⟨main, -, rfl⟩ := Option.map_eq_some_iff.mp h
    exact .inl rfl

/-- A step of the program is one of the system of threads, or leaves that as it is. -/
theorem ProgramStep.sys (hs : ProgramStep cfg p a p') :
    p'.sys = p.sys ∨ (∃ t b ts, a = .run t b ts ∧ p'.now = ts.ns ∧ p.phase t = .worker .loop ∧
        systemStep cfg p.sys (.thread t b ts) = some p'.sys) ∨
      p'.now = p.now ∧ (p.pc = .report ∧ systemStep cfg p.sys .report = some p'.sys ∨
        p.pc = .reading ∧ systemStep cfg p.sys .read = some p'.sys ∨
        p.pc = .stop ∧ systemStep cfg p.sys .stop = some p'.sys) := by
  cases hs with
  | run hphase hsys => exact .inr (.inl ⟨_, _, _, rfl, rfl, hphase, hsys⟩)
  | report hpc hsys => exact .inr (.inr ⟨rfl, .inl ⟨hpc, hsys⟩⟩)
  | read hpc hsys => exact .inr (.inr ⟨rfl, .inr (.inl ⟨hpc, hsys⟩)⟩)
  | stop hpc hsys => exact .inr (.inr ⟨rfl, .inr (.inr ⟨hpc, hsys⟩)⟩)
  | _ => exact .inl rfl

/-- The clock only goes forward. -/
theorem ProgramStep.now_le (hs : ProgramStep cfg p a p') (ht : Timed p a) : p.now ≤ p'.now := by
  cases hs with
  | prepare | run | clock => exact ht.1
  | _ => exact Nat.le_refl _

theorem timeOk_step (h : TimeOk p) (hs : ProgramStep cfg p a p') (ht : Timed p a) : TimeOk p' where
  sys := by
    rcases hs.sys with hsame | ⟨t, b, ts, rfl, hnow, -, hsys⟩ | ⟨hnow, hmain⟩
    · rw [hsame]
      exact Nat.le_trans h.sys (hs.now_le ht)
    · rcases systemStep_now hsys with hkept | ⟨_, _, _, hb, hts⟩
      · rw [hkept]
        exact Nat.le_trans h.sys (hs.now_le ht)
      · cases hb
        rw [hts, hnow]
    · -- neither a report nor the end of the time looks at the threads' clock
      have hkept : p'.sys.now = p.sys.now := by
        rcases hmain with ⟨-, hsys⟩ | ⟨-, hsys⟩ | ⟨-, hsys⟩ <;>
          rcases systemStep_now hsys with hkept | ⟨_, _, _, hb, -⟩ <;>
          first | exact hkept | cases hb
      rw [hnow, hkept]
      exact h.sys
  now := by
    cases hs with
    | prepare | run | clock => exact ht.2
    | _ => exact h.now

theorem timeOk_of_run (h : ProgramRun cfg p) : TimeOk p :=
  h.invariant ⟨Nat.le_refl 0, Nat.zero_lt_of_ne_zero nofun⟩ fun _ hok ht hs =>
    timeOk_step hok (program_cases hs) ht

/-- The thread has come to the barrier. -/
def ThreadPhase.arrived : ThreadPhase → Bool
  | .absent | .created => false
  | .waiting | .worker _ | .done _ => true

/-- It has got past it. -/
def ThreadPhase.passed : ThreadPhase → Bool
  | .absent | .created | .waiting => false
  | .worker _ | .done _ => true

/-- The main thread has come to the barrier. An error of `start_client` is -1. -/
def RunPc.arrived : RunPc → Bool
  | .prepare | .create _ | .store _ | .barrier => false
  | .waiting | .count _ _ | .report | .reading | .deadline | .stop | .sleep | .join _ _
  | .stats => true
  | .cleanup err | .returned err => err ≠ -1

def RunPc.passed : RunPc → Bool
  | .waiting => false
  | pc => pc.arrived

/-- For how many threads `ti` is set. -/
def RunPc.stored (cfg : ClientConfig) : RunPc → Nat
  | .prepare => 0
  | .create i | .store i => i
  | .barrier | .waiting | .count _ _ | .report | .reading | .deadline | .stop | .sleep | .join _ _
  | .stats => cfg.nrThreads
  | .cleanup err | .returned err => if err = -1 then 0 else cfg.nrThreads

/-- How many threads have been created at most. -/
def RunPc.created (cfg : ClientConfig) : RunPc → Nat
  | .prepare => 0
  | .create i => i
  | .store i => i + 1
  | .barrier | .waiting | .count _ _ | .report | .reading | .deadline | .stop | .sleep | .join _ _
  | .stats | .cleanup _ | .returned _ => cfg.nrThreads

/-- What the main thread relies on where it stands: the thread it has created, and the values that
an error can have. -/
def ClientProgram.PcOk (cfg : ClientConfig) (p : ClientProgram) : RunPc → Prop
  | .create i => i < cfg.nrThreads
  | .store i => i < cfg.nrThreads ∧ p.phase i ≠ .absent
  | .join _ err => err = 0 ∨ err = 1
  | .cleanup err | .returned err => err = -1 ∨ err = 0 ∨ err = 1
  | .prepare | .barrier | .waiting | .count _ _ | .report | .reading | .deadline | .stop | .sleep
  | .stats => True

structure Launched (cfg : ClientConfig) (p : ClientProgram) : Prop where
  created : ∀ t, p.phase t ≠ .absent → t < p.pc.created cfg
  exist : ∀ t, p.ti t = true → p.phase t ≠ .absent
  stored : ∀ t < p.pc.stored cfg, p.ti t = true
  pc : p.PcOk cfg p.pc
  counts : Counts p.arrived cfg.nrThreads p.phase ThreadPhase.arrived p.pc.arrived
  opened : (∃ t, (p.phase t).passed = true) ∨ p.pc.passed = true → p.arrived = cfg.nrThreads + 1
  /-- Nothing happens before. -/
  sys : p.arrived ≠ cfg.nrThreads + 1 → p.sys = .init cfg

theorem nextCreate_cases (cfg : ClientConfig) (i : Nat) :
    nextCreate cfg i = .create i ∧ i < cfg.nrThreads ∨
      nextCreate cfg i = .barrier ∧ cfg.nrThreads ≤ i := by
  unfold nextCreate
  split
  · next hi => exact .inl ⟨rfl, hi⟩
  · next hi => exact .inr ⟨rfl, Nat.le_of_not_lt hi⟩

/-- What a move of the main thread does to what has been started. -/
theorem MainMove.launched {pc pc' : RunPc} (hm : MainMove cfg p pc a pc') (h : p.PcOk cfg pc) :
    pc.created cfg ≤ pc'.created cfg ∧ pc'.stored cfg ≤ pc.stored cfg ∧
      pc'.arrived = pc.arrived ∧ p.PcOk cfg pc' ∧
      (pc'.passed = true → pc.passed = true ∨ p.arrived = cfg.nrThreads + 1) := by
  cases hm with
  | refused => exact ⟨Nat.zero_le _, Nat.le_refl _, rfl, .inl rfl, nofun⟩
  | createFailed => exact ⟨Nat.le_of_lt h, Nat.zero_le _, rfl, .inl rfl, nofun⟩
  | pass hopen =>
    exact ⟨Nat.le_refl _, Nat.le_refl _, rfl, trivial, fun _ => .inr (of_decide_eq_true hopen)⟩
  | countAll => exact ⟨Nat.le_refl _, Nat.le_refl _, rfl, .inl rfl, fun _ => .inl rfl⟩
  | @joined i err value hi hti hret =>
    refine ⟨Nat.le_refl _, Nat.le_refl _, rfl, ?_, fun _ => .inl rfl⟩
    by_cases hvalue : value = 0
    · rw [if_pos hvalue]
      exact h
    · rw [if_neg hvalue]
      exact .inr rfl
  | @joinErr i err value hi herr =>
    obtain rfl : err = 1 := h.resolve_left herr
    exact ⟨Nat.le_refl _, Nat.le_refl _, rfl, .inr (.inr rfl), fun _ => .inl rfl⟩
  | stats => exact ⟨Nat.le_refl _, Nat.le_refl _, rfl, .inr (.inl rfl), fun _ => .inl rfl⟩
  | joinSkip | cleanup => exact ⟨Nat.le_refl _, Nat.le_refl _, rfl, h, .inl⟩
  | _ => exact ⟨Nat.le_refl _, Nat.le_refl _, rfl, trivial, fun _ => .inl rfl⟩

/-- A move of a thread behind the barrier. -/
theorem PhaseMove.behind {w : WorkerPhase} {phase : ThreadPhase} (hm : PhaseMove p t w a phase) :
    phase ≠ .absent ∧ phase.arrived = true ∧ phase.passed = true := by
  cases hm <;> exact ⟨nofun, rfl, rfl⟩

theorem setPhase_of_ne {u : Nat} {phase : ThreadPhase} (hu : u ≠ t) :
    (p.setPhase t phase).phase u = p.phase u := Function.update_of_ne hu ..

theorem setPhase_self {phase : ThreadPhase} : (p.setPhase t phase).phase t = phase :=
  Function.update_self ..

/-- A thread that is there stays. -/
theorem setPhase_exists {u : Nat} {phase : ThreadPhase} (hphase : phase ≠ .absent)
    (hu : p.phase u ≠ .absent) : (p.setPhase t phase).phase u ≠ .absent := by
  by_cases hut : u = t
  · subst hut
    rw [setPhase_self]
    exact hphase
  · rw [setPhase_of_ne hut]
    exact hu

theorem setPhase_passed {u : Nat} {phase : ThreadPhase} (hphase : phase.passed = false)
    (hu : ((p.setPhase t phase).phase u).passed = true) : (p.phase u).passed = true := by
  by_cases hut : u = t
  · subst hut
    rw [setPhase_self, hphase] at hu
    cases hu
  · rwa [setPhase_of_ne hut] at hu

/-- Between the phases of one thread, what the main thread relies on does not change. -/
theorem PcOk.setPhase {pc : RunPc} {phase : ThreadPhase} (hphase : phase ≠ .absent)
    (h : p.PcOk cfg pc) : (p.setPhase t phase).PcOk cfg pc := by
  cases pc with
  | store i => exact ⟨h.1, setPhase_exists hphase h.2⟩
  | _ => exact h

theorem launched_init (cfg : ClientConfig) : Launched cfg (.init cfg) where
  created _ h := absurd rfl h
  exist _ h := by cases h
  stored _ h := absurd h (Nat.not_lt_zero _)
  pc := trivial
  counts := .of_outside fun _ _ => rfl
  opened := by
    rintro (⟨t, ht⟩ | h)
    · cases ht
    · cases h
  sys _ := rfl

theorem Launched.created_setPhase {u : Nat} {phase : ThreadPhase} (h : Launched cfg p)
    (ht : p.phase t ≠ .absent) (hu : (p.setPhase t phase).phase u ≠ .absent) :
    u < p.pc.created cfg := by
  by_cases hut : u = t
  · subst hut
    exact h.created u ht
  · rw [setPhase_of_ne hut] at hu
    exact h.created u hu

/-- A step that moves an existing thread `t` and nobody else. -/
theorem Launched.setPhase {phase : ThreadPhase} (h : Launched cfg p) (ht : p.phase t ≠ .absent)
    (hphase : phase ≠ .absent) (harrived : phase.arrived = (p.phase t).arrived)
    (hpassed : phase.passed = true → p.arrived = cfg.nrThreads + 1) :
    Launched cfg (p.setPhase t phase) where
  created _ hu := h.created_setPhase ht hu
  exist u hu := setPhase_exists hphase (h.exist u hu)
  stored := h.stored
  pc := PcOk.setPhase hphase h.pc
  counts := h.counts.stay harrived
  opened := by
    rintro (⟨u, hu⟩ | hmain)
    · by_cases hut : u = t
      · subst hut
        rw [setPhase_self] at hu
        exact hpassed hu
      · rw [setPhase_of_ne hut] at hu
        exact h.opened (.inl ⟨u, hu⟩)
    · exact h.opened (.inr hmain)
  sys := h.sys

theorem Launched.below (h : Launched cfg p) (ht : p.phase t ≠ .absent) : t < cfg.nrThreads := by
  have hlt := h.created t ht
  have hpc := h.pc
  cases hp : p.pc with
  | prepare =>
    rw [hp] at hlt
    exact absurd hlt (Nat.not_lt_zero t)
  | create i =>
    rw [hp] at hlt hpc
    exact Nat.lt_trans hlt hpc
  | store i =>
    rw [hp] at hlt hpc
    exact Nat.lt_of_lt_of_le hlt hpc.1
  | _ =>
    rw [hp] at hlt
    exact hlt

/-- The start of the next thread, or the end of the loop. -/
theorem Launched.next {i : Nat} {ti : Nat → Bool} {start : Timespec} {now : Nat}
    (h : Launched cfg p) (hpc : p.pc.arrived = false) (hi : i ≤ cfg.nrThreads)
    (hcreated : p.pc.created cfg ≤ i) (hti : ∀ t, ti t = true → p.phase t ≠ .absent)
    (hstored : ∀ t < i, ti t = true) :
    Launched cfg { p with pc := nextCreate cfg i, ti := ti, start := start, now := now } := by
  have hnext : (nextCreate cfg i).arrived = false ∧ (nextCreate cfg i).passed = false ∧
      (nextCreate cfg i).created cfg = i ∧ (nextCreate cfg i).stored cfg = i ∧
      p.PcOk cfg (nextCreate cfg i) := by
    rcases nextCreate_cases cfg i with ⟨heq, hlt⟩ | ⟨heq, hle⟩
    · rw [heq]
      exact ⟨rfl, rfl, rfl, rfl, hlt⟩
    · rw [heq]
      obtain rfl : i = cfg.nrThreads := Nat.le_antisymm hi hle
      exact ⟨rfl, rfl, rfl, rfl, trivial⟩
  obtain ⟨harrived, hpassed, hnew, hold, hok⟩ := hnext
  refine ⟨fun t ht => ?_, hti, fun t ht => ?_, hok, ?_, ?_, h.sys⟩
  · show t < (nextCreate cfg i).created cfg
    rw [hnew]
    exact Nat.lt_of_lt_of_le (h.created t ht) hcreated
  · apply hstored
    rwa [← hold]
  · show Counts p.arrived cfg.nrThreads p.phase ThreadPhase.arrived (nextCreate cfg i).arrived
    rw [harrived, ← hpc]
    exact h.counts
  · rintro (ht | hmain)
    · exact h.opened (.inl ht)
    · exact absurd (hpassed.symm.trans hmain) Bool.false_ne_true

/-- Where one thread or the main thread is still to come, nobody has got past the barrier. -/
theorem Launched.not_full (h : Launched cfg p)
    (hout : p.pc.arrived = false ∨ ∃ t, p.phase t = .created) : p.arrived ≠ cfg.nrThreads + 1 := by
  intro hfull
  obtain ⟨hthreads, hmain⟩ := h.counts.full_iff.mp hfull
  rcases hout with hpc | ⟨t, ht⟩
  · rw [hmain] at hpc
    cases hpc
  · have hinside := hthreads t (h.below (by rw [ht]; nofun))
    rw [ht] at hinside
    cases hinside

/-- The main thread is in its loop, past the first test. -/
def RunPc.inLoop : RunPc → Bool
  | .report | .reading | .deadline | .stop | .sleep => true
  | _ => false

theorem inLoop_sets (cfg : ClientConfig) (p : ClientProgram) {pc : RunPc} (h : pc.inLoop = true) :
    pc.created cfg = cfg.nrThreads ∧ pc.stored cfg = cfg.nrThreads ∧ pc.arrived = true ∧
      pc.passed = true ∧ p.PcOk cfg pc := by
  cases pc <;> first | exact ⟨rfl, rfl, rfl, rfl, trivial⟩ | cases h

/-- A step of the main thread within its loop. -/
theorem Launched.loop {pc : RunPc} {sys : ClientSystem} {stopping : Bool} {now : Nat}
    (h : Launched cfg p) (hpc : p.pc.inLoop = true) (hpc' : pc.inLoop = true) :
    Launched cfg { p with pc := pc, sys := sys, stopping := stopping, now := now } := by
  obtain ⟨hcreated, hstored, harrived, hpassed, -⟩ := inLoop_sets cfg p hpc
  obtain ⟨hcreated', hstored', harrived', -, hok⟩ := inLoop_sets cfg p hpc'
  have hfull := h.opened (.inr hpassed)
  refine ⟨fun t ht => ?_, h.exist, fun t ht => ?_, hok, ?_, fun _ => hfull, fun hnot => ?_⟩
  · show t < pc.created cfg
    rw [hcreated', ← hcreated]
    exact h.created t ht
  · apply h.stored
    rw [hstored, ← hstored']
    exact ht
  · show Counts p.arrived cfg.nrThreads p.phase ThreadPhase.arrived pc.arrived
    rw [harrived', ← harrived]
    exact h.counts
  · exact absurd hfull hnot

/-- **One step of the program**, as far as the start goes. -/
theorem launched_step (h : Launched cfg p) (hs : ProgramStep cfg p a p') : Launched cfg p' := by
  cases hs with
  | @main _ pc hm =>
    obtain ⟨hcreated, hstored, harrived, hpc, hpassed⟩ := hm.launched h.pc
    refine ⟨fun t ht => Nat.lt_of_lt_of_le (h.created t ht) hcreated, h.exist,
      fun t ht => h.stored t (Nat.lt_of_lt_of_le ht hstored), hpc, ?_, ?_, h.sys⟩
    · show Counts p.arrived cfg.nrThreads p.phase ThreadPhase.arrived pc.arrived
      rw [harrived]
      exact h.counts
    · rintro (ht | hmain)
      · exact h.opened (.inl ht)
      · rcases hpassed hmain with hbefore | hfull
        · exact h.opened (.inr hbefore)
        · exact hfull
  | @phase t w _ phase hphase hm =>
    obtain ⟨habsent, harrived, -⟩ := hm.behind
    have hopen := h.opened (.inl ⟨t, by rw [hphase]; rfl⟩)
    refine h.setPhase ?_ habsent ?_ fun _ => hopen
    · rw [hphase]
      nofun
    · rw [harrived, hphase]
      rfl
  | prepare hpc =>
    apply h.next
    · rw [hpc]
      rfl
    · exact Nat.zero_le _
    · rw [hpc]
      exact Nat.le_refl 0
    · exact h.exist
    · exact fun t ht => absurd ht (Nat.not_lt_zero t)
  | @create i hpc =>
    have hi : p.PcOk cfg (.create i) := hpc ▸ h.pc
    -- thread `i` is new
    have habsent : p.phase i = .absent := by
      by_contra hthere
      have hlt := h.created i hthere
      rw [hpc] at hlt
      exact Nat.lt_irrefl i hlt
    refine ⟨fun t ht => ?_, fun t ht => setPhase_exists nofun (h.exist t ht), fun t ht => ?_,
      ⟨hi, ?_⟩, ?_, ?_, h.sys⟩
    · show t < i + 1
      by_cases hti : t = i
      · omega
      · have hlt := h.created t (by rwa [← setPhase_of_ne hti])
        rw [hpc] at hlt
        exact Nat.lt_succ_of_lt hlt
    · apply h.stored
      rw [hpc]
      exact ht
    · show (p.setPhase i .created).phase i ≠ .absent
      rw [setPhase_self]
      nofun
    · have hcounts := h.counts
      rw [hpc] at hcounts
      apply hcounts.stay
      rw [habsent]
      rfl
    · rintro (⟨u, hu⟩ | hmain)
      · exact h.opened (.inl ⟨u, setPhase_passed rfl hu⟩)
      · cases hmain
  | @store i hpc =>
    have hok : p.PcOk cfg (.store i) := hpc ▸ h.pc
    apply h.next
    · rw [hpc]
      rfl
    · exact hok.1
    · rw [hpc]
      exact Nat.le_refl _
    · intro t ht
      by_cases hti : t = i
      · rw [hti]
        exact hok.2
      · rw [Function.update_of_ne hti] at ht
        exact h.exist t ht
    · intro t ht
      by_cases hti : t = i
      · rw [hti, Function.update_self]
      · rw [Function.update_of_ne hti]
        apply h.stored
        rw [hpc]
        show t < i
        omega
  | @arrive t hphase =>
    have hnot := h.not_full (.inr ⟨t, hphase⟩)
    have hthere : p.phase t ≠ .absent := by
      rw [hphase]
      nofun
    have hout : (p.phase t).arrived = false := by
      rw [hphase]
      rfl
    refine ⟨fun u hu => h.created_setPhase hthere hu,
      fun u hu => setPhase_exists nofun (h.exist u hu), h.stored, PcOk.setPhase nofun h.pc,
      h.counts.arrive (h.below hthere) hout rfl, ?_, fun _ => h.sys hnot⟩
    rintro (⟨u, hu⟩ | hmain)
    · exact absurd (h.opened (.inl ⟨u, setPhase_passed rfl hu⟩)) hnot
    · exact absurd (h.opened (.inr hmain)) hnot
  | @pass t hphase hopen =>
    refine h.setPhase ?_ nofun ?_ fun _ => of_decide_eq_true hopen
    · rw [hphase]
      nofun
    · rw [hphase]
      rfl
  | mainArrive hpc =>
    have hout : p.pc.arrived = false := by
      rw [hpc]
      rfl
    have hnot := h.not_full (.inl hout)
    refine ⟨fun t ht => ?_, h.exist, fun t ht => ?_, trivial, ?_, ?_, fun _ => h.sys hnot⟩
    · have hlt := h.created t ht
      rwa [hpc] at hlt
    · apply h.stored
      rwa [hpc]
    · have hcounts := h.counts
      rw [hout] at hcounts
      exact hcounts.arriveMain
    · rintro (hthread | hmain)
      · exact absurd (h.opened (.inl hthread)) hnot
      · cases hmain
  | @run t b ts sys hphase hsys =>
    have hfull := h.opened (.inl ⟨t, by rw [hphase]; rfl⟩)
    exact ⟨h.created, h.exist, h.stored, h.pc, h.counts, fun _ => hfull,
      fun hnot => absurd hfull hnot⟩
  | report hpc hsys | stop hpc hsys => exact h.loop (by rw [hpc]; rfl) rfl
  | read hpc hsys =>
    have hloop : p.pc.inLoop = true := by
      rw [hpc]
      rfl
    exact h.loop hloop hloop
  | clock hpc hnext =>
    apply h.loop
    · rw [hpc]
      rfl
    · rcases hnext with rfl | ⟨rfl, -⟩ <;> rfl

theorem launched_of_run (h : ProgramRun cfg p) : Launched cfg p :=
  h.invariant (launched_init cfg) fun _ hok _ hs => launched_step hok (program_cases hs)

/-- **The start barrier.** In every run, somebody past the barrier, or anything at all done with a
connection, means that all threads have been created and have arrived with `ti` set for each, and
that the main thread has arrived. When `start_client` has failed, nobody is past the barrier, and
nothing has been done with any connection. -/
theorem start_barrier (h : ProgramRun cfg p) :
    ((∃ t, (p.phase t).passed = true) ∨ p.pc.passed = true ∨ p.sys ≠ .init cfg →
      p.pc.arrived = true ∧ ∀ t < cfg.nrThreads, p.ti t = true ∧ (p.phase t).arrived = true) ∧
    (p.pc = .cleanup (-1) ∨ p.pc = .returned (-1) →
      p.sys = .init cfg ∧ ∀ t, (p.phase t).passed = false) := by
  have hok := launched_of_run h
  constructor
  · intro hpassed
    have hfull : p.arrived = cfg.nrThreads + 1 := by
      rcases hpassed with hthread | hmain | hsys
      · exact hok.opened (.inl hthread)
      · exact hok.opened (.inr hmain)
      · by_contra hnot
        exact hsys (hok.sys hnot)
    obtain ⟨hthreads, hmain⟩ := hok.counts.full_iff.mp hfull
    refine ⟨hmain, fun t ht => ⟨hok.stored t ?_, hthreads t ht⟩⟩
    have hstored : p.pc.stored cfg = cfg.nrThreads := by
      cases hpc : p.pc with
      | cleanup err | returned err =>
        rw [hpc] at hmain
        exact if_neg (of_decide_eq_true hmain)
      | prepare | create | store | barrier =>
        rw [hpc] at hmain
        cases hmain
      | _ => rfl
    rwa [hstored]
  · intro hpc
    have hout : p.pc.arrived = false := by
      rcases hpc with hpc | hpc <;> rw [hpc] <;> rfl
    have hnot := hok.not_full (.inl hout)
    refine ⟨hok.sys hnot, fun t => ?_⟩
    by_contra hpassed
    exact hnot (hok.opened (.inl ⟨t, by simpa using hpassed⟩))

/-- Two threads with one connection each. -/
def twoThreadConfig : ClientConfig := ⟨ascii "/tmp/bench-server", 2, 1, 1, -1⟩

/-- The first thread waits at the barrier when the second cannot be created. -/
def failedStart : List ProgramAction :=
  [.prepare true ⟨1, 0⟩, .create true, .arrive 0, .store, .create false]

theorem start_barrier_failed : ∃ p, ProgramRun twoThreadConfig p ∧ p.pc = .cleanup (-1) ∧
    p.phase 0 = .waiting ∧ p.sys = .init twoThreadConfig ∧ ∀ t, (p.phase t).passed = false := by
  have hrun := exists_reachable_of_run failedStart
    (fun p => decide (p.pc = .cleanup (-1) ∧ p.phase 0 = .waiting))
    (by decide +kernel : (run (programStep twoThreadConfig) Timed (.init twoThreadConfig)
      failedStart).map _ = some true)
  obtain ⟨p, hp, hends⟩ := hrun
  obtain ⟨hpc, hphase⟩ := of_decide_eq_true hends
  obtain ⟨hsys, hpassed⟩ := (start_barrier hp).2 (.inl hpc)
  exact ⟨p, hp, hpc, hphase, hsys, hpassed⟩

end Piotbench.Client
