import Mathlib.Data.List.TakeWhile

/-!
# Byte memory

A memory is a function from offsets to cells. `slice m off n` reads `n` cells, `blit m off l`
copies the list `l` over the cells from `off` on. `blocks n l` cuts a stream into its complete
blocks of `n` cells. The cell type is arbitrary. `littleEndian n v` is a number as `n` bytes, the
least significant first.
-/

namespace Bytes

variable {α : Type}

/-- The `n` cells from offset `off` on. -/
def slice (m : Nat → α) (off n : Nat) : List α := (List.range n).map fun i => m (off + i)

/-- Copy `l` over the cells from offset `off` on. -/
def blit (m : Nat → α) (off : Nat) (l : List α) : Nat → α :=
  fun i => if off ≤ i then (l[i - off]?).getD (m i) else m i

@[simp] theorem length_slice (m : Nat → α) (off n : Nat) : (slice m off n).length = n := by
  simp [slice]

@[simp] theorem slice_zero (m : Nat → α) (off : Nat) : slice m off 0 = [] := rfl

theorem slice_add (m : Nat → α) (off a b : Nat) :
    slice m off (a + b) = slice m off a ++ slice m (off + a) b := by
  simp only [slice, List.range_add, List.map_append, List.map_map]
  congr 1
  exact List.map_congr_left fun i _ => by simp [Nat.add_assoc]

theorem slice_congr {m m' : Nat → α} {off n : Nat}
    (h : ∀ i, off ≤ i → i < off + n → m' i = m i) : slice m' off n = slice m off n := by
  refine List.map_congr_left fun i hi => h _ (Nat.le_add_right _ _) ?_
  have := List.mem_range.mp hi
  omega

/-- What was copied is read back. -/
theorem slice_blit_self (m : Nat → α) (off : Nat) (l : List α) :
    slice (blit m off l) off l.length = l := by
  refine List.ext_getElem (by simp) fun i h₁ h₂ => ?_
  simp [slice, blit, List.getElem?_eq_getElem h₂]

/-- What was copied first is read back without the rest. -/
theorem slice_blit_append_left (m : Nat → α) (off : Nat) (l l' : List α) :
    slice (blit m off (l ++ l')) off l.length = l := by
  have hself := slice_blit_self m off (l ++ l')
  rw [List.length_append, slice_add] at hself
  exact (List.append_inj hself (length_slice _ _ _)).1

/-- A copy leaves the cells below it alone. -/
theorem slice_blit_below (m : Nat → α) {off off' n : Nat} (l : List α) (h : off' + n ≤ off) :
    slice (blit m off l) off' n = slice m off' n := by
  apply slice_congr
  intro i _ hi
  simp [blit, show ¬ off ≤ i by omega]

/-- A copy leaves the cells above it alone. -/
theorem slice_blit_above (m : Nat → α) {off off' n : Nat} (l : List α)
    (h : off + l.length ≤ off') : slice (blit m off l) off' n = slice m off' n := by
  apply slice_congr
  intro i hi _
  have hout : l.length ≤ i - off := by omega
  simp [blit, List.getElem?_eq_none hout]

/-- A copy changes no cell outside of what it is copied over. -/
theorem blit_outside (m : Nat → α) {off i : Nat} {l : List α}
    (h : i < off ∨ off + l.length ≤ i) : blit m off l i = m i := by
  unfold blit
  split
  · next hoff =>
    have hout : l.length ≤ i - off := by omega
    rw [List.getElem?_eq_none hout, Option.getD_none]
  · rfl

/-- What a cell holds after a copy depends on what it held, and on no other cell. -/
theorem blit_congr {m m' : Nat → α} {i : Nat} (off : Nat) (l : List α) (h : m i = m' i) :
    blit m off l i = blit m' off l i := by
  simp only [blit, h]

/-- Copies to places that do not overlap can be made in either order. -/
theorem blit_comm (m : Nat → α) {off off' : Nat} {l l' : List α}
    (h : off + l.length ≤ off' ∨ off' + l'.length ≤ off) :
    blit (blit m off l) off' l' = blit (blit m off' l') off l := by
  funext i
  by_cases hin : off ≤ i ∧ i < off + l.length
  · have hout : i < off' ∨ off' + l'.length ≤ i := by omega
    rw [blit_outside _ hout]
    exact (blit_congr off l (blit_outside m hout)).symm
  · have hout : i < off ∨ off + l.length ≤ i := by omega
    rw [blit_outside _ hout]
    exact blit_congr off' l' (blit_outside m hout)

/-- Filling a memory piece by piece: the cells up to the end of a copy that starts where the
cells already filled end. -/
theorem slice_blit_append (m : Nat → α) (off n : Nat) (l : List α) :
    slice (blit m (off + n) l) off (n + l.length) = slice m off n ++ l := by
  rw [slice_add, slice_blit_below _ _ (Nat.le_refl _), slice_blit_self]

/-! ## Blocks of a stream -/

/-- The complete blocks of `n` cells that a stream starts with. -/
def blocks (n : Nat) (l : List α) : List (List α) :=
  (List.range (l.length / n)).map fun i => (l.drop (n * i)).take n

/-- A complete block and the blocks behind it. -/
theorem blocks_append {n : Nat} {r : List α} (hr : r.length = n) (hn : 0 < n) (l : List α) :
    blocks n (r ++ l) = r :: blocks n l := by
  subst hr
  have hlen : (r ++ l).length / r.length = l.length / r.length + 1 := by
    rw [List.length_append, Nat.add_comm, Nat.add_div_right _ hn]
  simp only [blocks, hlen, List.range_succ_eq_map, List.map_cons, List.map_map]
  congr 1
  · simp
  · apply List.map_congr_left
    intro i _
    have hoff : r.length * (i + 1) = r.length + r.length * i := by
      rw [Nat.mul_add, Nat.mul_one, Nat.add_comm]
    simp [hoff]

/-- **Cutting a stream**: blocks laid end to end, and less than a block behind them, are cut where
they were joined. -/
theorem blocks_flatten {n : Nat} (rest : List α) (rs : List (List α)) (hrest : rest.length < n)
    (hrs : ∀ r ∈ rs, r.length = n) : blocks n (rs.flatten ++ rest) = rs := by
  have hn : 0 < n := Nat.lt_of_le_of_lt (Nat.zero_le _) hrest
  induction rs with
  | nil => simp [blocks, Nat.div_eq_of_lt hrest]
  | cons r rs ih =>
    have hr : r.length = n := hrs r List.mem_cons_self
    rw [List.flatten_cons, List.append_assoc, blocks_append hr hn,
      ih fun r' hr' => hrs r' (List.mem_cons_of_mem _ hr')]

/-- The blocks of the beginning of a stream are the first of its blocks. -/
theorem blocks_prefix (n : Nat) {l l' : List α} (h : l <+: l') : blocks n l <+: blocks n l' := by
  obtain ⟨t, rfl⟩ := h
  have hsame : blocks n l =
      (List.range (l.length / n)).map fun i => ((l ++ t).drop (n * i)).take n := by
    apply List.map_congr_left
    intro i hi
    have hfull : n * i + n ≤ l.length := by
      have hlt := Nat.mul_le_mul_left n (List.mem_range.mp hi)
      have hdiv := Nat.mul_div_le l.length n
      rw [Nat.mul_succ] at hlt
      omega
    rw [List.drop_append_of_le_length (by omega), List.take_append_of_le_length]
    rw [List.length_drop]
    omega
  have hlen : l.length / n ≤ (l ++ t).length / n := by
    apply Nat.div_le_div_right
    simp
  have hrange : List.range (l.length / n) =
      (List.range ((l ++ t).length / n)).take (l.length / n) := by
    rw [List.take_range, Nat.min_eq_left hlen]
  rw [hsame, hrange, List.map_take]
  exact List.take_prefix _ _

/-! ## Numbers in memory -/

/-- The `n` low bytes of a number, the least significant first. -/
def littleEndian : Nat → Nat → List UInt8
  | 0, _ => []
  | n + 1, v => UInt8.ofNat v :: littleEndian n (v / 256)

def ofLittleEndian : List UInt8 → Nat
  | [] => 0
  | b :: bs => b.toNat + 256 * ofLittleEndian bs

@[simp] theorem length_littleEndian (n v : Nat) : (littleEndian n v).length = n := by
  induction n generalizing v with
  | zero => rfl
  | succ n ih => rw [littleEndian, List.length_cons, ih]

/-- A number of 32 bits is read back. -/
theorem ofLittleEndian_littleEndian (v : Nat) :
    ofLittleEndian (littleEndian 4 v) = v % UInt32.size := by
  have hbyte : ∀ n, (UInt8.ofNat n).toNat = n % 256 := fun n => UInt8.toNat_ofNat'
  simp only [littleEndian, ofLittleEndian, hbyte, UInt32.size]
  omega

/-- The characters of a string, up to the first zero of its `n` cells. -/
def cstring (m : Nat → UInt8) (off n : Nat) : List UInt8 := (slice m off n).takeWhile (· ≠ 0)

/-- A string ends where it was terminated, whatever is behind. -/
theorem cstring_of_slice {m : Nat → UInt8} {off n : Nat} {v : List UInt8}
    (hread : slice m off v.length = v) (hlen : v.length ≤ n) (hzero : 0 ∈ v) :
    cstring m off n = v.takeWhile (· ≠ 0) := by
  have hsplit : slice m off n = v ++ slice m (off + v.length) (n - v.length) := by
    have hadd := slice_add m off v.length (n - v.length)
    rwa [Nat.add_sub_cancel' hlen, hread] at hadd
  have hne : (v.takeWhile (· ≠ 0)).length ≠ v.length := by
    intro hall
    have hself : v.takeWhile (· ≠ 0) = v := (List.takeWhile_sublist _).eq_of_length hall
    have hplain := List.takeWhile_eq_self_iff.mp hself 0 hzero
    simp at hplain
  rw [cstring, hsplit, List.takeWhile_append, if_neg hne]

end Bytes
