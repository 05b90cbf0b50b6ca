import Piotbench.Lib.Transition

/-!
# What a run shows

Some actions of a system can be seen from outside, such as the calls of its functions and their
returns, and others cannot. `label` says what an action shows, and the history of a run is the list
of what its actions show. A function `f` between two systems that takes every step to one step with
the same label, or to none when nothing is shown, takes runs to runs with the same history
(`Shows.simulate`).
-/

namespace Transition

variable {S T A B L : Type}

/-- Some run from `s₀` to `s`, every action taken meeting `ok`, has shown the history `h`. -/
inductive Shows (step : S → A → Option S) (ok : S → A → Prop) (label : S → A → Option L) (s₀ : S) :
    List L → S → Prop
  | refl : Shows step ok label s₀ [] s₀
  | tail {h : List L} {s s' : S} {a : A} :
      Shows step ok label s₀ h s → ok s a → step s a = some s' →
        Shows step ok label s₀ (h ++ (label s a).toList) s'

variable {step : S → A → Option S} {ok : S → A → Prop} {label : S → A → Option L} {s₀ : S}
  {stepT : T → B → Option T} {okT : T → B → Prop} {labelT : T → B → Option L}

theorem Shows.reachable {h : List L} {s : S} (hs : Shows step ok label s₀ h s) :
    Reachable step ok s₀ s := by
  induction hs with
  | refl => exact .refl
  | tail _ hok hstep ih => exact .tail ih hok hstep

/-- One step and its label are, seen through `f`, one step with the same label, or nothing. -/
def Simulates (stepT : T → B → Option T) (okT : T → B → Prop) (labelT : T → B → Option L)
    (label : S → A → Option L) (f : S → T) (s : S) (a : A) (s' : S) : Prop :=
  label s a = none ∧ f s' = f s ∨
    ∃ b, okT (f s) b ∧ labelT (f s) b = label s a ∧ stepT (f s) b = some (f s')

/-- **Simulation**: every history of the system is a history of the one that simulates it. -/
theorem Shows.simulate (f : S → T)
    (hstep : ∀ {s a s'}, Reachable step ok s₀ s → ok s a → step s a = some s' →
      Simulates stepT okT labelT label f s a s') {h : List L} {s : S}
    (hs : Shows step ok label s₀ h s) : Shows stepT okT labelT (f s₀) h (f s) := by
  induction hs with
  | refl => exact .refl
  | tail hrun hok hs ih =>
    rcases hstep hrun.reachable hok hs with ⟨hlabel, heq⟩ | ⟨b, hokT, hlabel, hsT⟩
    · rw [hlabel, heq, Option.toList_none, List.append_nil]
      exact ih
    · rw [← hlabel]
      exact .tail ih hokT hsT

/-- What a list of actions, executed, shows. -/
def shown (step : S → A → Option S) (label : S → A → Option L) : S → List A → List L
  | _, [] => []
  | s, a :: as => (label s a).toList ++ ((step s a).map (shown step label · as)).getD []

theorem Shows.append {h h' : List L} {s₁ s : S} (hs : Shows step ok label s₀ h s₁)
    (hs' : Shows step ok label s₁ h' s) : Shows step ok label s₀ (h ++ h') s := by
  induction hs' with
  | refl =>
    rw [List.append_nil]
    exact hs
  | tail _ hok hstep ih =>
    rw [← List.append_assoc]
    exact .tail ih hok hstep

theorem shows_of_run [∀ s a, Decidable (ok s a)] : ∀ {s s' : S} {as : List A},
    run step ok s as = some s' → Shows step ok label s (shown step label s as) s'
  | s, s', [], h => by
    simp only [run, Option.some.injEq] at h
    subst h
    exact .refl
  | s, s', a :: as, h => by
    simp only [run] at h
    split at h
    · next hok =>
      obtain ⟨s₁, hs₁, hrest⟩ := Option.bind_eq_some_iff.mp h
      have hone : Shows step ok label s (label s a).toList s₁ := Shows.refl.tail hok hs₁
      simp only [shown, hs₁, Option.map_some, Option.getD_some]
      exact hone.append (shows_of_run hrest)
    · cases h

/-- A concrete run and what it shows, checked by evaluation. -/
theorem exists_shows_of_run [∀ s a, Decidable (ok s a)] {s : S} (as : List A) {h : List L}
    (hrun : (run step ok s as).isSome = true) (hshown : shown step label s as = h) :
    ∃ s', Shows step ok label s h s' := by
  obtain ⟨s', hs'⟩ := Option.isSome_iff_exists.mp hrun
  exact ⟨s', hshown ▸ shows_of_run hs'⟩

end Transition
