import Piotbench.Lib.Scanf
import Piotbench.Server.Basic
import Mathlib.Data.List.Pairwise

/-!
# Command line parameters

`include/command.h` and `src/command.c`. A table of parameters says which argument fills which
bytes of a configuration; `parse_params` goes through the arguments, and each is tried against the
entries of the table in turn.

What `parse_params` leaves in a field is what the last argument that names it was converted to, or
the default (`parseParams_field`).
-/

namespace Piotbench.Command

open Server Bytes Scanf

/-- `PARAM_VALUE_MAX`. -/
def paramValueMax : Nat := 128

/-- A string literal of the source, as bytes. -/
def ascii (s : String) : List Byte := s.toList.map fun c => UInt8.ofNat c.toNat

/-- A C string: its characters, none of them zero. -/
abbrev CString := { s : List Byte // 0 ∉ s }

/-- `sizeof` of the field that a conversion fills: an `unsigned int`, an `int` or a
`char[PARAM_VALUE_MAX]`. -/
def sizeofField : Conversion → Nat
  | .uint | .int => 4
  | .str => paramValueMax

/-- A character that is neither `=` nor `%` nor white space. -/
def plainChar (c : Byte) : Bool := c ≠ 61 && c ≠ 37 && !isSpace c

/-- `struct param_t`, less the texts that are only shown. `fmt` is made of `name` and the
conversion. -/
structure Param where
  name : List Byte
  conv : Conversion
  /-- The bytes of the union `default_`, as many as the field takes. -/
  default_ : List Byte
  offset : Nat
  size : Nat
  plain : name.all plainChar = true
  size_eq : size = sizeofField conv
  length_default : default_.length = size
  terminated : conv = .str → 0 ∈ default_

/-- `"--" #field_name "="`, the literal part of `fmt`. -/
def Param.literal (p : Param) : List Byte := ascii "--" ++ p.name ++ ascii "="

/-- `PARAM_UINT` and `PARAM_INT`: a name, a default and where the field is. -/
def paramNumber (conv : Conversion) (name : String) (value offset : Nat)
    (hconv : conv ≠ .str := by decide)
    (plain : (ascii name).all plainChar = true := by decide) : Param where
  name := ascii name
  conv := conv
  default_ := littleEndian 4 value
  offset := offset
  size := 4
  plain := plain
  size_eq := by cases conv <;> first | rfl | exact absurd rfl hconv
  length_default := length_littleEndian ..
  terminated hstr := absurd hstr hconv

/-- `PARAM_STR`. -/
def paramStr (name value : String) (offset : Nat)
    (hvalue : (ascii value).length < paramValueMax := by decide)
    (plain : (ascii name).all plainChar = true := by decide) : Param where
  name := ascii name
  conv := .str
  default_ := ascii value ++ List.replicate (paramValueMax - (ascii value).length) 0
  offset := offset
  size := paramValueMax
  plain := plain
  size_eq := rfl
  length_default := by
    rw [List.length_append, List.length_replicate, Nat.add_sub_cancel' (Nat.le_of_lt hvalue)]
  terminated _ := by
    apply List.mem_append_right
    exact List.mem_replicate.mpr ⟨Nat.sub_ne_zero_of_lt hvalue, rfl⟩

/-- How `parse_params` ends when it does not return 0. -/
inductive ParseError
  /-- It returns -1. -/
  | invalidParameter (arg : CString)
  /-- `sscanf` writes beyond `dest`. -/
  | overflow
  deriving DecidableEq

/-- What `sscanf` converts an argument to. -/
def Param.scan (p : Param) (arg : CString) : Option (List Byte) := sscanf arg.1 p.literal p.conv

/-- `param_try_set`. `junk` is what `dest` holds to begin with. -/
def paramTrySet (junk : Nat → Byte) (arg : CString) (p : Param) (cfg : Nat → Byte) :
    Except ParseError (Option (Nat → Byte)) :=
  match p.scan arg with
  | none => .ok none
  | some out =>
    if out.length ≤ paramValueMax then
      .ok (some (blit cfg p.offset (slice (blit junk 0 out) 0 p.size)))
    else .error .overflow

/-- `param_set_default`. -/
def paramSetDefault (cfg : Nat → Byte) (p : Param) : Nat → Byte := blit cfg p.offset p.default_

/-- The inner loop of `parse_params`: the first entry that the argument fits. -/
def tryParams (junk : Nat → Byte) (arg : CString) (cfg : Nat → Byte) :
    List Param → Except ParseError (Option (Nat → Byte))
  | [] => .ok none
  | p :: ps =>
    match paramTrySet junk arg p cfg with
    | .ok none => tryParams junk arg cfg ps
    | res => res

/-- The loop of `parse_params` over the arguments. -/
def parseArgs (params : List Param) (junk : Nat → Nat → Byte) :
    List CString → (Nat → Byte) → Except ParseError (Nat → Byte)
  | [], cfg => .ok cfg
  | arg :: args, cfg =>
    match tryParams (junk 0) arg cfg params with
    | .error e => .error e
    | .ok none => .error (.invalidParameter arg)
    | .ok (some cfg') => parseArgs params (fun i => junk (i + 1)) args cfg'

/-- `parse_params`: the defaults, then the arguments behind the program's name. -/
def parseParams (junk : Nat → Nat → Byte) (argv : List CString) (cfg : Nat → Byte)
    (params : List Param) : Except ParseError (Nat → Byte) :=
  parseArgs params junk (argv.drop 1) (params.foldl paramSetDefault cfg)

/-- `parse_command_args`. -/
def parseCommandArgs (junk : Nat → Nat → Byte) (argv : List CString) (cfg : Nat → Byte)
    (params : List Param) : Except ParseError (Nat → Byte) :=
  parseParams junk argv cfg params

/-! ## Tables -/

/-- The fields of two entries do not overlap. -/
def Param.Apart (p q : Param) : Prop := p.offset + p.size ≤ q.offset ∨ q.offset + q.size ≤ p.offset

/-- Names are distinct and fields do not overlap. -/
structure TableOk (params : List Param) : Prop where
  names : params.Pairwise fun p q => p.name ≠ q.name
  fields : params.Pairwise Param.Apart

/-- The name in `--name=…`. -/
theorem name_of_literal {p : Param} {s : List Byte} (h : p.literal <+: s) :
    (s.drop 2).takeWhile (· ≠ 61) = p.name := by
  obtain ⟨t, rfl⟩ := h
  have hplain : ∀ c ∈ p.name, decide (c ≠ 61) = true := by
    intro c hc
    have hchar := List.all_eq_true.mp p.plain c hc
    simp only [plainChar, Bool.and_eq_true] at hchar
    exact hchar.1.1
  have hshape : (p.literal ++ t).drop 2 = p.name ++ 61 :: t := by
    simp [Param.literal, ascii]
  rw [hshape, List.takeWhile_append_of_pos hplain]
  simp

instance : Std.Symm fun p q : Param => p.name ≠ q.name := ⟨fun _ _ hpq => hpq.symm⟩

instance : Std.Symm Param.Apart := ⟨fun _ _ hpq => hpq.symm⟩

/-- An argument fits one entry of a table at most. -/
theorem TableOk.unique {params : List Param} (h : TableOk params) {p q : Param} (hp : p ∈ params)
    (hq : q ∈ params) {arg : CString} (hscanp : (p.scan arg).isSome)
    (hscanq : (q.scan arg).isSome) : p = q := by
  by_contra hne
  have hnames := h.names.forall hp hq hne
  apply hnames
  rw [← name_of_literal (literal_of_sscanf hscanp), ← name_of_literal (literal_of_sscanf hscanq)]

theorem TableOk.apart {params : List Param} (h : TableOk params) {p q : Param} (hp : p ∈ params)
    (hq : q ∈ params) (hne : p ≠ q) : p.Apart q :=
  h.fields.forall hp hq hne

/-! ## Fields

What is copied into one field does not reach another, so each entry can be followed by itself
through the arguments. -/

/-- The field of `p` starts with `v`. -/
structure Param.Holds (p : Param) (cfg : Nat → Byte) (v : List Byte) : Prop where
  fits : v.length ≤ p.size
  read : slice cfg p.offset v.length = v

section Fields

variable {p q : Param} {cfg cfg' : Nat → Byte} {v out : List Byte}

theorem Param.Holds.frame (h : p.Holds cfg v) (hapart : q.Apart p) {l : List Byte}
    (hl : l.length = q.size) : p.Holds (blit cfg q.offset l) v := by
  refine ⟨h.fits, ?_⟩
  have hfits := h.fits
  rcases hapart with hbelow | habove
  · rw [slice_blit_above _ _ (by omega), h.read]
  · rw [slice_blit_below _ _ (by omega), h.read]

theorem Param.Holds.default_ (p : Param) (cfg : Nat → Byte) :
    p.Holds (paramSetDefault cfg p) p.default_ :=
  ⟨Nat.le_of_eq p.length_default, slice_blit_self _ _ _⟩

/-- What a conversion stores fits the field, unless it does not even fit `dest`. -/
theorem length_scan_le {arg : CString} (hscan : p.scan arg = some out)
    (hout : out.length ≤ paramValueMax) : out.length ≤ p.size := by
  rw [p.size_eq]
  cases hconv : p.conv with
  | str => exact hout
  | uint | int =>
    have hlen := length_of_number (by simp [hconv]) hscan
    exact Nat.le_of_eq hlen

theorem Param.Holds.copied {arg : CString} (hscan : p.scan arg = some out)
    (hout : out.length ≤ paramValueMax) (junk : Nat → Byte) :
    p.Holds (blit cfg p.offset (slice (blit junk 0 out) 0 p.size)) out := by
  have hfits := length_scan_le hscan hout
  refine ⟨hfits, ?_⟩
  -- `memcpy` takes what `sscanf` has stored, and junk up to the size of the field
  have hdest : slice (blit junk 0 out) 0 p.size =
      out ++ slice (blit junk 0 out) out.length (p.size - out.length) := by
    have hsplit := slice_add (blit junk 0 out) 0 out.length (p.size - out.length)
    rw [Nat.add_sub_cancel' hfits, slice_blit_self, Nat.zero_add] at hsplit
    exact hsplit
  rw [hdest]
  exact slice_blit_append_left _ _ _ _

/-- An argument that is taken fits an entry of the table. -/
theorem tryParams_some {junk : Nat → Byte} {arg : CString} {params : List Param}
    (h : tryParams junk arg cfg params = .ok (some cfg')) :
    ∃ q ∈ params, ∃ out, q.scan arg = some out ∧ out.length ≤ paramValueMax ∧
      cfg' = blit cfg q.offset (slice (blit junk 0 out) 0 q.size) := by
  induction params with
  | nil => cases h
  | cons q qs ih =>
    unfold tryParams paramTrySet at h
    cases hscan : q.scan arg with
    | none =>
      -- the entry is passed over
      simp only [hscan] at h
      obtain ⟨q', hq', hrest⟩ := ih h
      exact ⟨q', List.mem_cons_of_mem _ hq', hrest⟩
    | some out =>
      simp only [hscan] at h
      split at h
      · next heq =>
        split at heq <;> cases heq
      · split at h
        · next hout =>
          cases h
          exact ⟨q, List.mem_cons_self, out, hscan, hout, rfl⟩
        · cases h

/-- **One argument**: the field that it names gets what it is converted to, the others keep what
they have. -/
theorem Param.Holds.tryParams {params : List Param} (hok : TableOk params) (hp : p ∈ params)
    (h : p.Holds cfg v) {junk : Nat → Byte} {arg : CString}
    (htry : tryParams junk arg cfg params = .ok (some cfg')) :
    p.Holds cfg' ((p.scan arg).getD v) := by
  obtain ⟨q, hq, out, hscan, hout, rfl⟩ := tryParams_some htry
  -- the entry that took the argument is `p`, or leaves the field of `p` alone
  by_cases hpq : p = q
  · subst hpq
    rw [hscan, Option.getD_some]
    exact .copied hscan hout junk
  · have hnone : p.scan arg = none := by
      by_contra hsome
      exact hpq (hok.unique hp hq (Option.isSome_iff_ne_none.mpr hsome) (by simp [hscan]))
    rw [hnone, Option.getD_none]
    exact h.frame (hok.apart hq hp (Ne.symm hpq)) (length_slice _ _ _)

/-- The field's contents after these arguments: what the last one that names it is converted to, or
what it held before. -/
def Param.latest (p : Param) (args : List CString) (v : List Byte) : List Byte :=
  (args.filterMap p.scan).getLast?.getD v

theorem latest_cons (p : Param) (arg : CString) (args : List CString) (v : List Byte) :
    p.latest (arg :: args) v = p.latest args ((p.scan arg).getD v) := by
  unfold Param.latest
  cases hscan : p.scan arg with
  | none => rw [List.filterMap_cons_none hscan, Option.getD_none]
  | some out =>
    rw [List.filterMap_cons_some hscan, List.getLast?_cons, Option.getD_some, Option.getD_some]

theorem Param.Holds.parseArgs {params : List Param} (hok : TableOk params) (hp : p ∈ params)
    (h : p.Holds cfg v) {junk : Nat → Nat → Byte} {args : List CString}
    (hparse : parseArgs params junk args cfg = .ok cfg') : p.Holds cfg' (p.latest args v) := by
  induction args generalizing junk cfg v with
  | nil =>
    cases hparse
    exact h
  | cons arg args ih =>
    unfold Command.parseArgs at hparse
    split at hparse
    · cases hparse
    · cases hparse
    · next cfg₁ htry =>
      rw [latest_cons]
      exact ih (h.tryParams hok hp htry) hparse

theorem Param.Holds.defaults {params : List Param} (h : p.Holds cfg v)
    (hapart : ∀ q ∈ params, q.Apart p) : p.Holds (params.foldl paramSetDefault cfg) v := by
  induction params generalizing cfg with
  | nil => exact h
  | cons q qs ih =>
    apply ih
    · exact h.frame (hapart q List.mem_cons_self) q.length_default
    · intro q' hq'
      exact hapart q' (List.mem_cons_of_mem _ hq')

theorem holds_default {params : List Param} (hapart : params.Pairwise Param.Apart)
    (hp : p ∈ params) : p.Holds (params.foldl paramSetDefault cfg) p.default_ := by
  induction params generalizing cfg with
  | nil => cases hp
  | cons q qs ih =>
    obtain ⟨hq, hqs⟩ := List.pairwise_cons.mp hapart
    rcases List.mem_cons.mp hp with rfl | hmem
    · apply Param.Holds.defaults (.default_ p cfg)
      intro q' hq'
      exact (hq q' hq').symm
    · exact ih hqs hmem

/-- What the arguments say about a parameter: the conversion of the last one that names it, or the
default. -/
def Param.value (p : Param) (argv : List CString) : List Byte := p.latest (argv.drop 1) p.default_

/-- **Parsing**: with the arguments accepted, every field holds what they say about it. -/
theorem parseParams_field {params : List Param} (hok : TableOk params) {junk : Nat → Nat → Byte}
    {argv : List CString} (hparse : parseParams junk argv cfg params = .ok cfg')
    (hp : p ∈ params) : p.Holds cfg' (p.value argv) :=
  (holds_default hok.fields hp).parseArgs hok hp hparse

/-- The last argument that names it gives a parameter its value, unless the default stands. -/
theorem value_cases (p : Param) (argv : List CString) :
    p.value argv = p.default_ ∨ ∃ arg ∈ argv, p.scan arg = some (p.value argv) := by
  unfold Param.value Param.latest
  cases hlast : ((argv.drop 1).filterMap p.scan).getLast? with
  | none => exact .inl rfl
  | some out =>
    obtain ⟨arg, harg, hscan⟩ := List.mem_filterMap.mp (List.mem_of_getLast? hlast)
    exact .inr ⟨arg, List.mem_of_mem_drop harg, hscan⟩

/-! ## Numbers and strings -/

/-- A 32-bit number in memory. -/
def uintAt (cfg : Nat → Byte) (off : Nat) : Nat := ofLittleEndian (slice cfg off 4)

/-- The number that the arguments give a parameter. -/
def Param.uint (p : Param) (argv : List CString) : Nat := ofLittleEndian (p.value argv)

/-- The string that the arguments give a parameter. -/
def Param.string (p : Param) (argv : List CString) : List Byte :=
  (p.value argv).takeWhile (· ≠ 0)

theorem parseParams_uint {params : List Param} (hok : TableOk params) {junk : Nat → Nat → Byte}
    {argv : List CString} (hparse : parseParams junk argv cfg params = .ok cfg')
    (hp : p ∈ params) (hconv : p.conv ≠ .str) : uintAt cfg' p.offset = p.uint argv := by
  have hread := (parseParams_field hok hparse hp).read
  have hlen : (p.value argv).length = 4 := by
    rcases value_cases p argv with hdefault | ⟨arg, -, hscan⟩
    · rw [hdefault, p.length_default, p.size_eq]
      cases hp : p.conv with
      | uint | int => rfl
      | str => exact absurd hp hconv
    · exact length_of_number hconv hscan
  rw [hlen] at hread
  rw [uintAt, hread, Param.uint]

theorem parseParams_string {params : List Param} (hok : TableOk params) {junk : Nat → Nat → Byte}
    {argv : List CString} (hparse : parseParams junk argv cfg params = .ok cfg')
    (hp : p ∈ params) (hconv : p.conv = .str) :
    cstring cfg' p.offset p.size = p.string argv := by
  have hholds := parseParams_field hok hparse hp
  have hzero : 0 ∈ p.value argv := by
    -- defaults and conversions are both terminated
    rcases value_cases p argv with hdefault | ⟨arg, -, hscan⟩
    · rw [hdefault]
      exact p.terminated hconv
    · rw [Param.scan, hconv] at hscan
      obtain ⟨word, hout, -⟩ := string_of_sscanf arg.2 hscan
      rw [hout]
      exact List.mem_append_right _ List.mem_cons_self
  exact cstring_of_slice hholds.read hholds.fits hzero

end Fields

end Piotbench.Command
