/-!
# Programs that stop at a step that fails

A stage changes a state `S`; it is done, or it stops at a step `e : E` that has failed, with the
state as it was left, or it ends in a fault. `andThen` and `forUpTo` put stages together the way
`;` and a `for` loop do.

`(a s).Meets Q R X` is about the stage `a` that starts in `s`: `Q` holds when it is done, `R` of the
step that failed and of what is left behind, and `X` of a fault. The rules follow the program.
-/

namespace Stage

variable {S L E F : Type}

inductive Result (S E F : Type)
  | done (s : S)
  | failed (e : E) (s : S)
  | fault (f : F)

/-- A stage that goes on with `b` when `a` is done. -/
def andThen (a b : S → Result S E F) (s : S) : Result S E F :=
  match a s with
  | .done s' => b s'
  | .failed e s' => .failed e s'
  | .fault f => .fault f

/-- `for (i = 0; i < n; i++)`. -/
def forUpTo : Nat → (Nat → S → Result S E F) → S → Result S E F
  | 0, _, s => .done s
  | n + 1, body, s => andThen (forUpTo n body) (body n) s

/-- A stage with a local variable, which `k` puts into the state at the end. -/
def withLocal (l : L) (a : S × L → Result (S × L) E F) (k : S → L → S) (s : S) : Result S E F :=
  match a (s, l) with
  | .done s' => .done (k s'.1 s'.2)
  | .failed e s' => .failed e s'.1
  | .fault f => .fault f

/-- A stage that cleans up with `k` when it has failed: `goto out_cleanup`. -/
def onFailure (a : S → Result S E F) (k : S → S) (s : S) : Result S E F :=
  match a s with
  | .failed e s' => .failed e (k s')
  | res => res

/-- `Q` of the state that a stage leaves when it is done, `R` of the step that failed and the state
it was left in, `X` of a fault. -/
def Result.Meets (Q : S → Prop) (R : E → S → Prop) (X : F → Prop) : Result S E F → Prop
  | .done s => Q s
  | .failed e s => R e s
  | .fault f => X f

section Rules

variable {Q T : S → Prop} {R : E → S → Prop} {X : F → Prop} {s : S}

theorem Result.Meets.imp {Q' : S → Prop} {R' : E → S → Prop} {X' : F → Prop}
    {res : Result S E F} (h : res.Meets Q R X) (hQ : ∀ s, Q s → Q' s)
    (hR : ∀ e s, R e s → R' e s) (hX : ∀ f, X f → X' f) : res.Meets Q' R' X' := by
  cases res with
  | done s => exact hQ s h
  | failed e s => exact hR e s h
  | fault f => exact hX f h

/-- A stage that neither fails nor faults is done. -/
theorem Result.Meets.exists_done {res : Result S E F}
    (h : res.Meets Q (fun _ _ => False) fun _ => False) : ∃ s, res = .done s ∧ Q s := by
  cases res with
  | done s => exact ⟨s, rfl, h⟩
  | failed e s => exact h.elim
  | fault f => exact h.elim

theorem Result.Meets.andThen {a b : S → Result S E F} (ha : (a s).Meets Q R X)
    (hb : ∀ s', Q s' → (b s').Meets T R X) : (andThen a b s).Meets T R X := by
  unfold Stage.andThen
  cases hres : a s with
  | done s' =>
    rw [hres] at ha
    exact hb s' ha
  | failed e s' =>
    rw [hres] at ha
    exact ha
  | fault f =>
    rw [hres] at ha
    exact ha

/-- **Loops**: `I i` holds before iteration `i`. -/
theorem Result.Meets.forUpTo {n : Nat} {body : Nat → S → Result S E F} (I : Nat → S → Prop)
    (hinit : I 0 s) (hbody : ∀ i < n, ∀ s, I i s → (body i s).Meets (I (i + 1)) R X) :
    (forUpTo n body s).Meets (I n) R X := by
  induction n with
  | zero => exact hinit
  | succ n ih =>
    have hprev : (Stage.forUpTo n body s).Meets (I n) R X :=
      ih fun i hi => hbody i (Nat.lt_succ_of_lt hi)
    exact hprev.andThen (hbody n (Nat.lt_succ_self n))

theorem Result.Meets.withLocal {l : L} {a : S × L → Result (S × L) E F} {k : S → L → S}
    (P : S × L → Prop) (ha : (a (s, l)).Meets P (fun e p => R e p.1) X)
    (hQ : ∀ p, P p → Q (k p.1 p.2)) : (withLocal l a k s).Meets Q R X := by
  unfold Stage.withLocal
  cases hres : a (s, l) with
  | done p =>
    rw [hres] at ha
    exact hQ p ha
  | failed e p =>
    rw [hres] at ha
    exact ha
  | fault f =>
    rw [hres] at ha
    exact ha

theorem Result.Meets.onFailure {a : S → Result S E F} {k : S → S}
    (ha : (a s).Meets Q (fun e s' => R e (k s')) X) : (onFailure a k s).Meets Q R X := by
  unfold Stage.onFailure
  cases hres : a s with
  | done s' | failed e s' | fault f =>
    rw [hres] at ha
    exact ha

end Rules

end Stage
