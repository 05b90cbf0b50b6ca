import Mathlib.Data.List.Nodup
import Mathlib.Logic.Function.Basic

/-!
# Tokens kept in places

Resources that travel between queues, pools and hands: `held p` is the list of tokens kept at
place `p`. `Exclusive held` says that no token is kept twice, neither at one place nor at two, and
`Partition U held` that the tokens of `U` and no others are kept, so that every token of `U` has
exactly one place (`Partition.existsUnique`).

Two operations say what a step can do with tokens: `move` takes one token from one place to the
end of another, and `moveAll` empties one place into another. Both keep a partition. The places
are an arbitrary type with decidable equality, so infinitely many of them are no problem.
-/

namespace Places

variable {P T : Type}

/-- No token is kept twice. -/
structure Exclusive (held : P → List T) : Prop where
  nodup : ∀ p, (held p).Nodup
  unique : ∀ {p q t}, t ∈ held p → t ∈ held q → p = q

/-- The tokens of `U`, and no others, are kept, each once. -/
structure Partition (U : T → Prop) (held : P → List T) : Prop extends Exclusive held where
  covers : ∀ t, U t ↔ ∃ p, t ∈ held p

/-- **One place each**: what a partition means for a single token. -/
theorem Partition.existsUnique {U : T → Prop} {held : P → List T} (h : Partition U held)
    {t : T} (ht : U t) : ∃! p, t ∈ held p := by
  obtain ⟨p, hp⟩ := (h.covers t).mp ht
  exact ⟨p, hp, fun q hq => h.unique hq hp⟩

theorem Partition.of_eq {U : T → Prop} {held held' : P → List T} (h : Partition U held)
    (heq : held' = held) : Partition U held' :=
  heq ▸ h

theorem Partition.congr {U U' : T → Prop} {held : P → List T} (h : Partition U held)
    (hU : ∀ t, U t ↔ U' t) : Partition U' held where
  toExclusive := h.toExclusive
  covers t := (hU t).symm.trans (h.covers t)

/-- All tokens in one pool. -/
theorem Partition.pool [DecidableEq P] {pool : List T} (hnd : pool.Nodup) (p : P) :
    Partition (· ∈ pool) (Function.update (fun _ => []) p pool) where
  nodup q := by
    by_cases hq : q = p
    · subst hq
      rwa [Function.update_self]
    · rw [Function.update_of_ne hq]
      exact List.nodup_nil
  unique {q r t} hq hr := by
    simp only [Function.update_apply] at hq hr
    split at hq <;> split at hr <;> simp_all
  covers t := by
    constructor
    · intro ht
      exact ⟨p, by rwa [Function.update_self]⟩
    · rintro ⟨q, hq⟩
      simp only [Function.update_apply] at hq
      split at hq
      · exact hq
      · cases hq

/-- With all other places empty, `p` has every token. -/
theorem Partition.gathered {held : P → List T} {pool : List T} (h : Partition (· ∈ pool) held)
    (hnd : pool.Nodup) {p : P} (hempty : ∀ q, q ≠ p → held q = []) : (held p).Perm pool := by
  apply (List.perm_ext_iff_of_nodup (h.nodup p) hnd).mpr
  intro t
  rw [h.covers t]
  constructor
  · intro ht
    exact ⟨p, ht⟩
  · rintro ⟨q, hq⟩
    by_cases hqp : q = p
    · exact hqp ▸ hq
    · rw [hempty q hqp] at hq
      cases hq

/-- Where every token is at `p`, the other places are empty. -/
theorem Partition.empty_of_gathered {held : P → List T} {pool : List T}
    (h : Partition (· ∈ pool) held) {p q : P} (hp : (held p).Perm pool) (hqp : q ≠ p) :
    held q = [] := by
  apply List.eq_nil_iff_forall_not_mem.mpr
  intro t ht
  have hpool : t ∈ pool := (h.covers t).mpr ⟨q, ht⟩
  exact hqp (h.unique ht (hp.mem_iff.mpr hpool))

/-- Tokens at different places are different. -/
theorem Exclusive.ne {held : P → List T} (h : Exclusive held) {p q : P} {t u : T}
    (ht : t ∈ held p) (hu : u ∈ held q) (hpq : p ≠ q) : t ≠ u :=
  fun htu => hpq (h.unique ht (htu ▸ hu))

/-! ## Transfers -/

/-- A list of tokens leaves `p` and arrives at `q`; all other places keep what they have. -/
structure Transfer (held held' : P → List T) (p q : P) (ts : List T) : Prop where
  ne : p ≠ q
  source : (held p).Perm (ts ++ held' p)
  target : (held' q).Perm (ts ++ held q)
  others : ∀ r, r ≠ p → r ≠ q → held' r = held r

variable {held held' : P → List T} {p q : P} {ts : List T}

theorem Transfer.mem_target (h : Transfer held held' p q ts) {t : T} :
    t ∈ held' q ↔ t ∈ ts ∨ t ∈ held q := by
  rw [h.target.mem_iff, List.mem_append]

theorem Transfer.mem_source (h : Transfer held held' p q ts) {t : T} :
    t ∈ held p ↔ t ∈ ts ∨ t ∈ held' p := by
  rw [h.source.mem_iff, List.mem_append]

/-- A transfer loses no token and makes none. -/
theorem Transfer.mem_iff (h : Transfer held held' p q ts) (t : T) :
    (∃ r, t ∈ held' r) ↔ ∃ r, t ∈ held r := by
  constructor
  · rintro ⟨r, hr⟩
    by_cases hrq : r = q
    · subst hrq
      rcases h.mem_target.mp hr with hts | hold
      · exact ⟨p, h.mem_source.mpr (.inl hts)⟩
      · exact ⟨r, hold⟩
    · by_cases hrp : r = p
      · subst hrp
        exact ⟨r, h.mem_source.mpr (.inr hr)⟩
      · exact ⟨r, h.others r hrp hrq ▸ hr⟩
  · rintro ⟨r, hr⟩
    by_cases hrp : r = p
    · subst hrp
      rcases h.mem_source.mp hr with hts | hold
      · exact ⟨q, h.mem_target.mpr (.inl hts)⟩
      · exact ⟨r, hold⟩
    · by_cases hrq : r = q
      · subst hrq
        exact ⟨r, h.mem_target.mpr (.inr hr)⟩
      · exact ⟨r, (h.others r hrp hrq).symm ▸ hr⟩

/-- After a transfer a token is either among those moved, and then at `q` only, or where it was. -/
theorem Transfer.mem_cases (h : Transfer held held' p q ts) (hx : Exclusive held) {r : P} {t : T}
    (ht : t ∈ held' r) : (t ∈ ts ∧ r = q) ∨ (t ∉ ts ∧ t ∈ held r) := by
  have hsplit : (ts ++ held' p).Nodup := h.source.nodup_iff.mp (hx.nodup p)
  have hdisj := List.disjoint_of_nodup_append hsplit
  by_cases hrq : r = q
  · subst hrq
    by_cases hts : t ∈ ts
    · exact .inl ⟨hts, rfl⟩
    · exact .inr ⟨hts, (h.mem_target.mp ht).resolve_left hts⟩
  · right
    by_cases hrp : r = p
    · subst hrp
      exact ⟨fun hts => hdisj hts ht, h.mem_source.mpr (.inr ht)⟩
    · have hr : t ∈ held r := h.others r hrp hrq ▸ ht
      exact ⟨fun hts => hrp (hx.unique hr (h.mem_source.mpr (.inl hts))), hr⟩

theorem Transfer.exclusive (h : Transfer held held' p q ts) (hx : Exclusive held) :
    Exclusive held' where
  nodup r := by
    have hsplit : (ts ++ held' p).Nodup := h.source.nodup_iff.mp (hx.nodup p)
    by_cases hrq : r = q
    · subst hrq
      rw [h.target.nodup_iff]
      apply List.Nodup.append (List.Nodup.of_append_left hsplit) (hx.nodup r)
      intro t hts hold
      exact h.ne (hx.unique (h.mem_source.mpr (.inl hts)) hold)
    · by_cases hrp : r = p
      · subst hrp
        exact List.Nodup.of_append_right hsplit
      · rw [h.others r hrp hrq]
        exact hx.nodup r
  unique {r r' t} hr hr' := by
    rcases h.mem_cases hx hr with ⟨hts, rfl⟩ | ⟨hts, hold⟩ <;>
      rcases h.mem_cases hx hr' with ⟨hts', hr'⟩ | ⟨hts', hold'⟩
    · exact hr'.symm
    · exact absurd hts hts'
    · exact absurd hts' hts
    · exact hx.unique hold hold'

theorem Transfer.partition {U : T → Prop} (h : Transfer held held' p q ts)
    (hp : Partition U held) : Partition U held' where
  toExclusive := h.exclusive hp.toExclusive
  covers t := (hp.covers t).trans (h.mem_iff t).symm

/-! ## The two operations -/

section Operations

variable [DecidableEq P] [DecidableEq T]

/-- Take token `t` from place `p` to the end of place `q`. -/
def move (held : P → List T) (t : T) (p q : P) : P → List T :=
  Function.update (Function.update held p ((held p).erase t)) q (held q ++ [t])

/-- Empty place `p` into place `q`. -/
def moveAll (held : P → List T) (p q : P) : P → List T :=
  Function.update (Function.update held p []) q (held q ++ held p)

theorem move_transfer {t : T} (hpq : p ≠ q) (ht : t ∈ held p) :
    Transfer held (move held t p q) p q [t] where
  ne := hpq
  source := by simpa [move, hpq] using List.perm_cons_erase ht
  target := by simp [move, List.perm_append_singleton]
  others r hrp hrq := by simp [move, hrp, hrq]

omit [DecidableEq T] in
theorem moveAll_transfer (hpq : p ≠ q) :
    Transfer held (moveAll held p q) p q (held p) where
  ne := hpq
  source := by simp [moveAll, hpq]
  target := by simpa [moveAll] using List.perm_append_comm
  others r hrp hrq := by simp [moveAll, hrp, hrq]

theorem Partition.move {U : T → Prop} (h : Partition U held) {t : T} (hpq : p ≠ q)
    (ht : t ∈ held p) : Partition U (move held t p q) :=
  (move_transfer hpq ht).partition h

omit [DecidableEq T] in
theorem Partition.moveAll {U : T → Prop} (h : Partition U held) (hpq : p ≠ q) :
    Partition U (moveAll held p q) :=
  (moveAll_transfer hpq).partition h

end Operations

/-! ## Tokens that enter and leave the places -/

/-- A token that is kept nowhere may be put at any one place. -/
theorem Exclusive.give [DecidableEq P] {t : T} (h : Exclusive held) (ht : ∀ r, t ∉ held r)
    (p : P) : Exclusive (Function.update held p (held p ++ [t])) where
  nodup r := by
    by_cases hrp : r = p
    · subst hrp
      rw [Function.update_self]
      apply List.Nodup.append (h.nodup r) (List.nodup_singleton t)
      intro u hu hut
      exact ht r (List.mem_singleton.mp hut ▸ hu)
    · rw [Function.update_of_ne hrp]
      exact h.nodup r
  unique {r r' u} hr hr' := by
    simp only [Function.update_apply] at hr hr'
    split at hr <;> split at hr' <;> grind [h.unique]

/-- Taking tokens away keeps the rest kept at most once. -/
theorem Exclusive.sublist (h : Exclusive held) (hs : ∀ r, (held' r).Sublist (held r)) :
    Exclusive held' where
  nodup r := (hs r).nodup (h.nodup r)
  unique hr hr' := h.unique ((hs _).subset hr) ((hs _).subset hr')

/-- A new token, put at one place. -/
theorem Partition.give [DecidableEq P] {U : T → Prop} {t : T} (h : Partition U held) (ht : ¬U t)
    (p : P) : Partition (fun u => u = t ∨ U u) (Function.update held p (held p ++ [t])) where
  toExclusive := h.toExclusive.give (fun r hr => ht ((h.covers t).mpr ⟨r, hr⟩)) p
  covers u := by
    rw [h.covers u]
    constructor
    · rintro (rfl | ⟨r, hr⟩)
      · exact ⟨p, by simp⟩
      · by_cases hrp : r = p
        · subst hrp
          exact ⟨r, by simp [hr]⟩
        · exact ⟨r, by rwa [Function.update_of_ne hrp]⟩
    · rintro ⟨r, hr⟩
      by_cases hrp : r = p
      · subst hrp
        rw [Function.update_self] at hr
        rcases List.mem_append.mp hr with hold | hnew
        · exact .inr ⟨r, hold⟩
        · exact .inl (List.mem_singleton.mp hnew)
      · rw [Function.update_of_ne hrp] at hr
        exact .inr ⟨r, hr⟩

/-- A token that leaves the place it is kept at. -/
theorem Partition.take [DecidableEq P] [DecidableEq T] {U : T → Prop} {t : T}
    (h : Partition U held) (ht : t ∈ held p) :
    Partition (fun u => u ≠ t ∧ U u) (Function.update held p ((held p).erase t)) where
  toExclusive := by
    apply h.toExclusive.sublist
    intro r
    by_cases hrp : r = p
    · subst hrp
      rw [Function.update_self]
      exact List.erase_sublist
    · rw [Function.update_of_ne hrp]
  covers u := by
    rw [h.covers u]
    constructor
    · rintro ⟨hut, r, hr⟩
      refine ⟨r, ?_⟩
      by_cases hrp : r = p
      · subst hrp
        rw [Function.update_self]
        exact (List.mem_erase_of_ne hut).mpr hr
      · rwa [Function.update_of_ne hrp]
    · rintro ⟨r, hr⟩
      by_cases hrp : r = p
      · subst hrp
        rw [Function.update_self] at hr
        obtain ⟨hut, hold⟩ := (List.Nodup.mem_erase_iff (h.nodup r)).mp hr
        exact ⟨hut, r, hold⟩
      · rw [Function.update_of_ne hrp] at hr
        refine ⟨?_, r, hr⟩
        rintro rfl
        exact hrp (h.unique hr ht)

end Places
