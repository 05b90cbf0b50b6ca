import Mathlib.Data.List.DropRight

/-!
# How far back a waiting line goes

In a line that is served from the front and joined at the back, the entries with a property `p` are
all served when the last of them is. `reach p l` is the place of the last one, counted from the
front, and 0 when there is none: one entry served brings it down by one, and other entries that join
the line leave it alone.
-/

namespace Line

variable {α : Type} {p q : α → Bool} {l l' : List α}

/-- The place of the last entry with `p`. -/
def reach (p : α → Bool) (l : List α) : Nat := (l.rdropWhile fun x => !p x).length

@[simp] theorem reach_nil (p : α → Bool) : reach p [] = 0 := rfl

theorem reach_le (p : α → Bool) (l : List α) : reach p l ≤ l.length :=
  (List.rdropWhile_prefix _ l).length_le

theorem reach_eq_zero : reach p l = 0 ↔ l.filter p = [] := by
  simp [reach, List.rdropWhile_eq_nil_iff, List.filter_eq_nil_iff]

theorem reach_congr (h : ∀ x ∈ l, p x = q x) : reach p l = reach q l := by
  unfold reach
  induction l using List.reverseRecOn with
  | nil => rfl
  | append_singleton l x ih =>
    have hx : p x = q x := h x (by simp)
    rw [List.rdropWhile_concat, List.rdropWhile_concat, hx]
    split
    · exact ih fun y hy => h y (List.mem_append_left _ hy)
    · rfl

/-- Others join the line. -/
theorem reach_append (h : l'.filter p = []) : reach p (l ++ l') = reach p l := by
  unfold reach List.rdropWhile
  rw [List.reverse_append, List.dropWhile_append_of_pos]
  intro x hx
  simpa using List.filter_eq_nil_iff.mp h x (List.mem_reverse.mp hx)

/-- One entry is served. -/
theorem reach_tail (p : α → Bool) (x : α) (l : List α) : reach p l = reach p (x :: l) - 1 := by
  unfold reach List.rdropWhile
  rw [List.reverse_cons, List.dropWhile_append, List.length_reverse, List.length_reverse]
  split
  · next h =>
    rw [List.isEmpty_iff.mp h, List.length_nil]
    have hle := (List.dropWhile_sublist (fun x => !p x) (l := [x])).length_le
    rw [List.length_singleton] at hle
    omega
  · simp

/-- The first goes to the end again, and is not one of those with `p`. -/
theorem reach_rotate {x : α} (hx : p x = false) : reach p (l ++ [x]) = reach p (x :: l) - 1 := by
  rw [reach_append (by simp [hx]), reach_tail p x l]

end Line
