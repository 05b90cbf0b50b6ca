import Mathlib.Data.List.Chain
import Mathlib.Data.List.Nodup
import Mathlib.Logic.Function.Basic

/-!
# Chains of next pointers

A heap of nodes with one pointer each is a function `next : N → Link N`. A pointer is NULL, points
to a node, or holds a poison value that no node has. `Chain next l` says that following the
pointers from the first node of `l` visits the nodes of `l` in order and ends at NULL.

A chain is determined by where it starts (`Chain.unique`), so it cannot repeat a node
(`Chain.nodup`): nothing of the kind has to be carried in an invariant.
-/

namespace Pointers

variable {N : Type}

inductive Link (N : Type)
  | null
  | poison
  | node (n : N)
  deriving DecidableEq

/-- The nodes of `l` are linked in order and the last one points to NULL. -/
structure Chain (next : N → Link N) (l : List N) : Prop where
  links : l.IsChain (fun m n => next m = .node n)
  ends : ∀ n ∈ l.getLast?, next n = .null

variable {next next' : N → Link N} {l l' : List N} {m n : N}

theorem Chain.singleton (h : next n = .null) : Chain next [n] where
  links := List.isChain_singleton n
  ends m hm := by
    simp only [List.getLast?_singleton, Option.mem_some_iff] at hm
    exact hm ▸ h

theorem Chain.tail (h : Chain next (n :: l)) : Chain next l where
  links := h.links.tail
  ends m hm := by
    apply h.ends
    cases l with
    | nil => cases hm
    | cons k l => simpa using hm

/-- The first node points to NULL exactly when it is the only one. -/
theorem Chain.next_head (h : Chain next (n :: l)) :
    next n = (match l.head? with | none => .null | some m => .node m) := by
  cases l with
  | nil => exact h.ends n rfl
  | cons m l => exact h.links.rel

theorem Chain.next_head_null (h : Chain next (n :: l)) : next n = .null ↔ l = [] := by
  rw [h.next_head]
  cases l <;> simp

theorem Chain.cons (h : Chain next (m :: l)) (hn : next n = .node m) :
    Chain next (n :: m :: l) where
  links := List.isChain_cons_cons.mpr ⟨hn, h.links⟩
  ends k hk := h.ends k (by simpa using hk)

/-- A chain is determined by its first node. -/
theorem Chain.unique : ∀ {n : N} {l l' : List N},
    Chain next (n :: l) → Chain next (n :: l') → l = l'
  | _, [], [], _, _ => rfl
  | _, [], _ :: _, h, h' => by simpa using h.next_head.symm.trans h'.next_head
  | _, _ :: _, [], h, h' => by simpa using h.next_head.symm.trans h'.next_head
  | _, m :: l, m' :: l', h, h' => by
    have hm : m = m' := by simpa using h.next_head.symm.trans h'.next_head
    subst hm
    rw [Chain.unique h.tail h'.tail]

theorem Chain.suffix : ∀ {l l' : List N}, Chain next (l ++ l') → Chain next l'
  | [], _, h => h
  | _ :: _, _, h => Chain.suffix h.tail

/-- A chain that ends does not repeat a node: from the second visit on, the pointers would lead
along the same nodes as from the first. -/
theorem Chain.nodup : ∀ {l : List N}, Chain next l → l.Nodup
  | [], _ => List.nodup_nil
  | n :: l, h => by
    refine List.nodup_cons.mpr ⟨?_, h.tail.nodup⟩
    intro hn
    obtain ⟨before, after, rfl⟩ := List.append_of_mem hn
    have hagain : Chain next (n :: after) := Chain.suffix h.tail
    have hlen := congrArg List.length (h.unique hagain)
    simp only [List.length_append, List.length_cons] at hlen
    omega

/-- Writing pointers of other nodes leaves a chain alone. -/
theorem Chain.frame (h : Chain next l) (heq : ∀ n ∈ l, next' n = next n) : Chain next' l where
  links := by
    apply h.links.imp_of_mem_imp
    intro m n hm _ hmn
    rw [heq m hm]
    exact hmn
  ends n hn := by
    rw [heq n (List.mem_of_getLast? hn)]
    exact h.ends n hn

variable [DecidableEq N]

theorem Chain.update_of_notMem (h : Chain next l) (hn : n ∉ l) (k : Link N) :
    Chain (Function.update next n k) l := by
  apply h.frame
  intro m hm
  rw [Function.update_of_ne]
  rintro rfl
  exact hn hm

/-- Hanging a node that points to NULL behind the last one. -/
theorem Chain.append (h : Chain next l) (hlast : l.getLast? = some m) (hn : n ∉ l)
    (hnull : next n = .null) : Chain (Function.update next m (.node n)) (l ++ [n]) := by
  induction l with
  | nil => cases hlast
  | cons k l ih =>
    have hk := List.nodup_cons.mp h.nodup
    have hmn : n ≠ m := by
      rintro rfl
      exact hn (List.mem_of_getLast? hlast)
    cases l with
    | nil =>
      obtain rfl : k = m := by simpa using hlast
      apply Chain.cons
      · exact Chain.singleton (by rw [Function.update_of_ne hmn, hnull])
      · rw [Function.update_self]
    | cons j l =>
      have hkm : k ≠ m := by
        rintro rfl
        exact hk.1 (List.mem_of_getLast? (by simpa using hlast))
      have hrest := ih h.tail (by simpa using hlast) (fun hmem => hn (List.mem_cons_of_mem k hmem))
      apply Chain.cons hrest
      rw [Function.update_of_ne hkm]
      exact h.next_head

end Pointers
