import Mathlib.Logic.Function.Basic
import Piotbench.Lib.History

/-!
# Spin locks below a system with atomic locks

A lock is a word that is set while somebody holds the lock. `lock` and `trylock` are not one access:
they read the word, and when it is clear try a compare-and-swap, which fails if somebody has been
faster. `lock` begins again then, and `trylock` gives up.

In a system `step` in which taking a lock is one action, `attempt` says which actions that is and
what the word is. `spinStep` is the system with the two accesses in its place: `seen t` says that
thread `t` has read the word as clear and stands at its compare-and-swap. Its runs show what runs of
the system above show (`Spinning.shows`): a `lock` takes effect at the compare-and-swap that
succeeds, and a `trylock` at its last access.
-/

namespace Spin

open Transition

variable {S T A L : Type} [DecidableEq T]

/-- What an action is to the locks; `held` is the word. -/
inductive Attempt
  | other
  | lock (held : Bool)
  | trylock (held : Bool)
  deriving DecidableEq

structure Spinning (S T : Type) where
  base : S
  seen : T → Bool

def Spinning.init (s : S) : Spinning S T := ⟨s, fun _ => false⟩

/-- Thread `t` is at its compare-and-swap, or is not. -/
def Spinning.look (s : Spinning S T) (t : T) (b : Bool) : Spinning S T :=
  { s with seen := Function.update s.seen t b }

/-- The thread is through with `lock` or `trylock`, and the system above goes on to `b`. -/
def Spinning.through (s : Spinning S T) (t : T) (b : S) : Spinning S T :=
  ⟨b, Function.update s.seen t false⟩

def spinStep (step : S → A → Option S) (thread : A → T) (attempt : S → A → Attempt)
    (s : Spinning S T) (a : A) : Option (Spinning S T) :=
  match attempt s.base a with
  | .other => (step s.base a).map fun b => { s with base := b }
  | .lock held =>
    if s.seen (thread a) then
      -- the compare-and-swap
      if held then some (s.look (thread a) false) else (step s.base a).map (s.through (thread a))
    else some (s.look (thread a) !held)
  | .trylock held =>
    if s.seen (thread a) || held then (step s.base a).map (s.through (thread a))
    else some (s.look (thread a) true)

/-- What an action shows, which taking a lock does not. -/
def spinLabel (label : S → A → Option L) (s : Spinning S T) (a : A) : Option L := label s.base a

variable {step : S → A → Option S} {thread : A → T} {attempt : S → A → Attempt}
  {s s' : Spinning S T} {a : A} {ok : S → A → Prop} {label : S → A → Option L} {s₀ : S}

/-- **One access** of a spinning thread is a step of the system above, or changes nothing there. -/
theorem spinStep_cases (h : spinStep step thread attempt s a = some s') :
    s'.base = s.base ∧ attempt s.base a ≠ .other ∨ step s.base a = some s'.base := by
  unfold spinStep at h
  split at h
  · obtain ⟨b, hb, rfl⟩ := Option.map_eq_some_iff.mp h
    exact .inr hb
  · next held hlock =>
    split at h
    · split at h
      · cases h
        exact .inl ⟨rfl, by rw [hlock]; nofun⟩
      · obtain ⟨b, hb, rfl⟩ := Option.map_eq_some_iff.mp h
        exact .inr hb
    · cases h
      exact .inl ⟨rfl, by rw [hlock]; nofun⟩
  · next held htry =>
    split at h
    · obtain ⟨b, hb, rfl⟩ := Option.map_eq_some_iff.mp h
      exact .inr hb
    · cases h
      exact .inl ⟨rfl, by rw [htry]; nofun⟩

/-- The runs with spin locks, conditions being about the system above. -/
abbrev SpinRun (step : S → A → Option S) (thread : A → T) (attempt : S → A → Attempt)
    (ok : S → A → Prop) (s₀ : S) : Spinning S T → Prop :=
  Reachable (spinStep step thread attempt) (fun s a => ok s.base a) (.init s₀)

/-- **A run with spin locks** is a run of the system above. -/
theorem SpinRun.base (h : SpinRun step thread attempt ok s₀ s) : Reachable step ok s₀ s.base := by
  apply h.project Spinning.base
  intro s a s' hok hstep
  rcases spinStep_cases hstep with ⟨hsame, -⟩ | habove
  · exact .inl hsame
  · exact .inr ⟨a, hok, habove⟩

/-- **Its history** is a history there, where taking a lock shows nothing. -/
theorem Spinning.shows (hquiet : ∀ s a, attempt s a ≠ .other → label s a = none) {h : List L}
    (hs : Shows (spinStep step thread attempt) (fun s a => ok s.base a) (spinLabel label)
      (.init s₀) h s) : Shows step ok label s₀ h s.base := by
  apply hs.simulate Spinning.base
  intro s a s' _ hok hstep
  rcases spinStep_cases hstep with ⟨hsame, hattempt⟩ | habove
  · exact .inl ⟨hquiet s.base a hattempt, hsame⟩
  · exact .inr ⟨a, hok, rfl, habove⟩

end Spin
