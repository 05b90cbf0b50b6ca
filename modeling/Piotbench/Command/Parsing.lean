import Piotbench.Command.Tables
import Mathlib.Tactic.FinCases

/-!
# The law of `parse_params`

What `parse_params` makes of a list of arguments does not depend on the order of the table, nor on
the order of arguments for different parameters. It accepts a list exactly when every argument
fits an entry, and writes nowhere but in the fields, whether it accepts the list or not
(`parse_params_law`). All this is for arguments whose strings fit `dest`.
-/

namespace Piotbench.Command

open Server Bytes Scanf

/-! ## What is left in memory -/

/-- The memory that the loop of `parse_params` leaves, and the argument that it did not accept.
`none`: `sscanf` has written beyond `dest`. -/
def parseArgsMemory (params : List Param) (junk : Nat → Nat → Byte) :
    List CString → (Nat → Byte) → Option ((Nat → Byte) × Option CString)
  | [], cfg => some (cfg, none)
  | arg :: args, cfg =>
    match tryParams (junk 0) arg cfg params with
    | .error _ => none
    | .ok none => some (cfg, some arg)
    | .ok (some cfg') => parseArgsMemory params (fun i => junk (i + 1)) args cfg'

/-- The memory that `parse_params` leaves when it returns, and the argument that made it return -1
if it did. -/
def parseParamsMemory (junk : Nat → Nat → Byte) (argv : List CString) (cfg : Nat → Byte)
    (params : List Param) : Option ((Nat → Byte) × Option CString) :=
  parseArgsMemory params junk (argv.drop 1) (params.foldl paramSetDefault cfg)

/-- What `parse_params` returns. -/
def parseResult : Option ((Nat → Byte) × Option CString) → Except ParseError (Nat → Byte)
  | none => .error .overflow
  | some (_, some arg) => .error (.invalidParameter arg)
  | some (cfg, none) => .ok cfg

/-- The argument is for this parameter. -/
def Param.names (p : Param) (arg : CString) : Bool := (p.scan arg).isSome

/-- The strings among the arguments are shorter than `PARAM_VALUE_MAX`. With the terminator they
take one byte more. -/
def StringsFit (params : List Param) (argv : List CString) : Prop :=
  ∀ arg ∈ argv.drop 1, ∀ p ∈ params, p.conv = .str → ∀ out ∈ p.scan arg, out.length ≤ paramValueMax

/-- The same arguments in another order, those for one parameter in the order they were in. -/
structure Reordered (params : List Param) (argv argv' : List CString) : Prop where
  perm : (argv.drop 1).Perm (argv'.drop 1)
  same : ∀ p ∈ params, (argv.drop 1).filter p.names = (argv'.drop 1).filter p.names

/-- The byte belongs to no field. -/
def OutsideFields (params : List Param) (i : Nat) : Prop :=
  ∀ p ∈ params, i < p.offset ∨ p.offset + p.size ≤ i

section Law

variable {params params' : List Param} {p : Param} {arg : CString} {junk : Nat → Byte}
  {cfg : Nat → Byte}

/-! ## One argument -/

theorem StringsFit.scan {argv : List CString} (h : StringsFit params argv)
    (harg : arg ∈ argv.drop 1) (hp : p ∈ params) {out : List Byte} (hscan : p.scan arg = some out) :
    out.length ≤ paramValueMax := by
  by_cases hconv : p.conv = .str
  · exact h arg harg p hp hconv out hscan
  · have hlen : out.length = 4 := length_of_number hconv hscan
    rw [hlen]
    decide

/-- An argument for no parameter of the table. -/
theorem tryParams_none (h : ∀ p ∈ params, p.scan arg = none) :
    tryParams junk arg cfg params = .ok none := by
  induction params with
  | nil => rfl
  | cons p params ih =>
    have hp := h p List.mem_cons_self
    simp only [tryParams, paramTrySet, hp]
    exact ih fun q hq => h q (List.mem_cons_of_mem _ hq)

/-- An argument for one parameter is tried on that one. -/
theorem tryParams_eq (hunique : ∀ q ∈ params, (q.scan arg).isSome → q = p) (hp : p ∈ params)
    (hnames : p.names arg = true) :
    tryParams junk arg cfg params = paramTrySet junk arg p cfg := by
  induction params with
  | nil => cases hp
  | cons q params ih =>
    by_cases hqp : q = p
    · subst hqp
      obtain ⟨out, hout⟩ := Option.isSome_iff_exists.mp hnames
      by_cases hlen : out.length ≤ paramValueMax <;> simp [tryParams, paramTrySet, hout, hlen]
    · have hskip : q.scan arg = none := by
        by_contra hsome
        exact hqp (hunique q List.mem_cons_self (Option.isSome_iff_ne_none.mpr hsome))
      simp only [tryParams, paramTrySet, hskip]
      refine ih (fun q' hq' => hunique q' (List.mem_cons_of_mem _ hq')) ?_
      exact (List.mem_cons.mp hp).resolve_left (Ne.symm hqp)

/-- What becomes of an argument for `p`, and of one for no parameter. -/
theorem tryParams_spec (hok : TableOk params) (junk : Nat → Byte) (arg : CString)
    (cfg : Nat → Byte) :
    (∀ p ∈ params, p.names arg = true →
      tryParams junk arg cfg params = paramTrySet junk arg p cfg) ∧
    ((∀ p ∈ params, p.names arg = false) → tryParams junk arg cfg params = .ok none) := by
  constructor
  · intro p hp hnames
    exact tryParams_eq (fun q hq hscan => hok.unique hq hp hscan hnames) hp hnames
  · intro hnone
    apply tryParams_none
    intro p hp
    exact Option.isNone_iff_eq_none.mp (by simpa [Param.names] using hnone p hp)

/-! ## The order of the table -/

theorem TableOk.perm (h : TableOk params) (hperm : params'.Perm params) : TableOk params' where
  names := (hperm.pairwise_iff Ne.symm).mpr h.names
  fields := (hperm.pairwise_iff Or.symm).mpr h.fields

theorem tryParams_perm (hok : TableOk params) (hperm : params'.Perm params) (junk : Nat → Byte)
    (arg : CString) (cfg : Nat → Byte) :
    tryParams junk arg cfg params' = tryParams junk arg cfg params := by
  have hspec := tryParams_spec hok junk arg cfg
  have hspec' := tryParams_spec (hok.perm hperm) junk arg cfg
  by_cases hsome : ∃ p ∈ params, p.names arg = true
  · obtain ⟨p, hp, hnames⟩ := hsome
    rw [hspec.1 p hp hnames, hspec'.1 p (hperm.mem_iff.mpr hp) hnames]
  · have hnone : ∀ p ∈ params, p.names arg = false := by
      intro p hp
      by_contra hnames
      exact hsome ⟨p, hp, by simpa using hnames⟩
    rw [hspec.2 hnone, hspec'.2 fun p hp => hnone p (hperm.mem_iff.mp hp)]

theorem parseArgs_perm (hok : TableOk params) (hperm : params'.Perm params)
    {junk : Nat → Nat → Byte} (args : List CString) :
    parseArgs params' junk args cfg = parseArgs params junk args cfg := by
  induction args generalizing junk cfg with
  | nil => rfl
  | cons arg args ih =>
    simp only [parseArgs, tryParams_perm hok hperm]
    split
    · rfl
    · rfl
    · exact ih

/-- Defaults of different fields can be set in any order. -/
theorem defaults_perm (hok : TableOk params) (hperm : params'.Perm params) (cfg : Nat → Byte) :
    params'.foldl paramSetDefault cfg = params.foldl paramSetDefault cfg := by
  apply hperm.foldl_eq'
  intro p hp q hq cfg
  by_cases hpq : p = q
  · rw [hpq]
  · have hapart := hok.apart (hperm.mem_iff.mp hp) (hperm.mem_iff.mp hq) hpq
    apply blit_comm
    rw [p.length_default, q.length_default]
    exact hapart

theorem parseParams_perm (hok : TableOk params) (hperm : params'.Perm params)
    (junk : Nat → Nat → Byte) (argv : List CString) (cfg : Nat → Byte) :
    parseParams junk argv cfg params' = parseParams junk argv cfg params := by
  rw [parseParams, parseParams, defaults_perm hok hperm, parseArgs_perm hok hperm]

/-! ## Which arguments are accepted -/

/-- Trying an argument whose string fits. -/
theorem tryParams_fits (junk : Nat → Byte) (cfg : Nat → Byte)
    (hfits : ∀ p ∈ params, ∀ out ∈ p.scan arg, out.length ≤ paramValueMax) :
    tryParams junk arg cfg params ≠ .error .overflow ∧
      ((∃ cfg', tryParams junk arg cfg params = .ok (some cfg')) ↔
        ∃ p ∈ params, p.names arg = true) := by
  induction params with
  | nil => simp [tryParams]
  | cons p params ih =>
    have hrest := ih fun q hq => hfits q (List.mem_cons_of_mem _ hq)
    cases hscan : p.scan arg with
    | none =>
      have hnames : p.names arg = false := by simp [Param.names, hscan]
      simpa [tryParams, paramTrySet, hscan, hnames] using hrest
    | some out =>
      have hnames : p.names arg = true := by simp [Param.names, hscan]
      have hout := hfits p List.mem_cons_self out hscan
      simp [tryParams, paramTrySet, hscan, hout, hnames]

/-- All that can go wrong with an argument is that its string does not fit. -/
theorem tryParams_error {e : ParseError} (h : tryParams junk arg cfg params = .error e) :
    e = .overflow := by
  induction params with
  | nil => cases h
  | cons p params ih =>
    cases hscan : p.scan arg with
    | none =>
      simp only [tryParams, paramTrySet, hscan] at h
      exact ih h
    | some out =>
      by_cases hlen : out.length ≤ paramValueMax
      · simp [tryParams, paramTrySet, hscan, hlen] at h
      · simp only [tryParams, paramTrySet, hscan, hlen, if_false, Except.error.injEq] at h
        exact h.symm

/-- **All arguments**: the list is accepted if every argument is for a parameter. -/
theorem parseArgs_ok_iff {args : List CString} {junk : Nat → Nat → Byte}
    (hfits : ∀ arg ∈ args, ∀ p ∈ params, ∀ out ∈ p.scan arg, out.length ≤ paramValueMax) :
    (∃ cfg', parseArgs params junk args cfg = .ok cfg') ↔
      ∀ arg ∈ args, ∃ p ∈ params, p.names arg = true := by
  induction args generalizing junk cfg with
  | nil => simp [parseArgs]
  | cons arg args ih =>
    obtain ⟨hfit, htaken⟩ := tryParams_fits (junk 0) cfg (hfits arg List.mem_cons_self)
    have hrest : ∀ cfg', (∃ cfg'', parseArgs params (fun i => junk (i + 1)) args cfg' = .ok cfg'') ↔
        ∀ a ∈ args, ∃ p ∈ params, p.names a = true :=
      fun cfg' => ih fun a ha => hfits a (List.mem_cons_of_mem _ ha)
    rw [List.forall_mem_cons, ← htaken]
    simp only [parseArgs]
    split
    · next e he =>
      obtain rfl := tryParams_error he
      exact absurd he hfit
    · next he => simp [he]
    · next cfg' he => simpa [he] using hrest cfg'

/-! ## The memory -/

theorem parseArgs_eq {args : List CString} {junk : Nat → Nat → Byte} :
    parseArgs params junk args cfg = parseResult (parseArgsMemory params junk args cfg) := by
  induction args generalizing junk cfg with
  | nil => rfl
  | cons arg args ih =>
    cases he : tryParams (junk 0) arg cfg params with
    | error e =>
      obtain rfl := tryParams_error he
      simp only [parseArgs, parseArgsMemory, he, parseResult]
    | ok res =>
      cases res with
      | none => simp only [parseArgs, parseArgsMemory, he, parseResult]
      | some cfg' =>
        simp only [parseArgs, parseArgsMemory, he]
        exact ih

/-- A copy into a field changes no byte outside of it. -/
theorem tryParams_outside {cfg' : Nat → Byte} (h : tryParams junk arg cfg params = .ok (some cfg'))
    {i : Nat} (hi : OutsideFields params i) : cfg' i = cfg i := by
  obtain ⟨q, hq, out, -, -, rfl⟩ := tryParams_some h
  apply blit_outside
  rw [length_slice]
  exact hi q hq

theorem parseArgsMemory_outside {args : List CString} {junk : Nat → Nat → Byte}
    {mem : Nat → Byte} {bad : Option CString}
    (h : parseArgsMemory params junk args cfg = some (mem, bad)) {i : Nat}
    (hi : OutsideFields params i) : mem i = cfg i := by
  induction args generalizing junk cfg with
  | nil =>
    cases h
    rfl
  | cons arg args ih =>
    simp only [parseArgsMemory] at h
    split at h
    · cases h
    · cases h
      rfl
    · next cfg' he => exact (ih h).trans (tryParams_outside he hi)

theorem defaults_outside {i : Nat} (hi : OutsideFields params i) :
    params.foldl paramSetDefault cfg i = cfg i := by
  induction params generalizing cfg with
  | nil => rfl
  | cons p params ih =>
    refine (ih fun q hq => hi q (List.mem_cons_of_mem _ hq)).trans ?_
    apply blit_outside
    rw [p.length_default]
    exact hi p List.mem_cons_self

/-- With strings that fit, `parse_params` returns. -/
theorem parseArgsMemory_fits {args : List CString} (junk : Nat → Nat → Byte) (cfg : Nat → Byte)
    (hfits : ∀ arg ∈ args, ∀ p ∈ params, ∀ out ∈ p.scan arg, out.length ≤ paramValueMax) :
    ∃ mem bad, parseArgsMemory params junk args cfg = some (mem, bad) := by
  induction args generalizing junk cfg with
  | nil => exact ⟨cfg, none, rfl⟩
  | cons arg args ih =>
    have hfit := (tryParams_fits (junk 0) cfg (hfits arg List.mem_cons_self)).1
    simp only [parseArgsMemory]
    split
    · next e he =>
      obtain rfl := tryParams_error he
      exact absurd he hfit
    · exact ⟨_, _, rfl⟩
    · exact ih _ _ fun a ha => hfits a (List.mem_cons_of_mem _ ha)

/-! ## The order of the arguments -/

/-- Only the arguments for a parameter matter for its field. -/
theorem latest_filter (p : Param) (args : List CString) (v : List Byte) :
    p.latest (args.filter p.names) v = p.latest args v := by
  have hkeep : (args.filter p.names).filterMap p.scan = args.filterMap p.scan := by
    rw [List.filterMap_filter]
    congr 1
    funext arg
    cases hscan : p.scan arg <;> simp [Param.names, hscan]
  rw [Param.latest, Param.latest, hkeep]

theorem Reordered.value {argv argv' : List CString} (h : Reordered params argv argv')
    (hp : p ∈ params) : p.value argv' = p.value argv := by
  rw [Param.value, Param.value, ← latest_filter, ← h.same p hp, latest_filter]

theorem Reordered.fits {argv argv' : List CString} (h : Reordered params argv argv')
    (hfits : StringsFit params argv) : StringsFit params argv' :=
  fun arg harg => hfits arg (h.perm.mem_iff.mpr harg)

end Law

/-! ## The law -/

/-- **Parsing arguments**, for a table with distinct names and disjoint fields and arguments whose
strings fit: an argument is for one entry at most, and the order of the table does not matter; the
list is accepted exactly when every argument is for an entry; every field then holds what the last
argument for it says, or its default; arguments for different fields may change places; and no byte
outside of the fields changes, whatever is returned. -/
theorem parse_params_law {params : List Param} {argv : List CString} (hok : TableOk params)
    (hfits : StringsFit params argv) (junk : Nat → Nat → Byte) (cfg : Nat → Byte) :
    (∀ arg : CString, ∀ p ∈ params, ∀ q ∈ params,
      p.names arg = true → q.names arg = true → p = q) ∧
    (∀ params' : List Param, params'.Perm params →
      parseParams junk argv cfg params' = parseParams junk argv cfg params) ∧
    ((∃ cfg', parseParams junk argv cfg params = .ok cfg') ↔
      ∀ arg ∈ argv.drop 1, ∃ p ∈ params, p.names arg = true) ∧
    (∀ cfg', parseParams junk argv cfg params = .ok cfg' →
      ∀ p ∈ params, p.Holds cfg' (p.value argv)) ∧
    (∀ argv', Reordered params argv argv' → ∀ cfg', parseParams junk argv cfg params = .ok cfg' →
      ∀ junk', ∃ cfg'', parseParams junk' argv' cfg params = .ok cfg'' ∧
        ∀ p ∈ params, p.Holds cfg'' (p.value argv)) ∧
    ∃ mem bad, parseParamsMemory junk argv cfg params = some (mem, bad) ∧
      parseParams junk argv cfg params = parseResult (some (mem, bad)) ∧
      ∀ i, OutsideFields params i → mem i = cfg i := by
  have haccept : ∀ argv junk, StringsFit params argv →
      ((∃ cfg', parseParams junk argv cfg params = .ok cfg') ↔
        ∀ arg ∈ argv.drop 1, ∃ p ∈ params, p.names arg = true) := by
    intro argv junk hfits
    exact parseArgs_ok_iff fun arg harg p hp out hscan => hfits.scan harg hp hscan
  refine ⟨?_, ?_, haccept argv junk hfits, ?_, ?_, ?_⟩
  · intro arg p hp q hq hscanp hscanq
    exact hok.unique hp hq hscanp hscanq
  · intro params' hperm
    exact parseParams_perm hok hperm junk argv cfg
  · intro cfg' hparse p hp
    exact parseParams_field hok hparse hp
  · intro argv' hsame cfg' hparse junk'
    have hall := (haccept argv junk hfits).mp ⟨cfg', hparse⟩
    obtain ⟨cfg'', hparse'⟩ := (haccept argv' junk' (hsame.fits hfits)).mpr fun arg harg =>
      hall arg (hsame.perm.mem_iff.mpr harg)
    refine ⟨cfg'', hparse', fun p hp => ?_⟩
    rw [← hsame.value hp]
    exact parseParams_field hok hparse' hp
  · obtain ⟨mem, bad, hmem⟩ := parseArgsMemory_fits junk (params.foldl paramSetDefault cfg)
      fun arg harg p hp out hscan => hfits.scan harg hp hscan
    refine ⟨mem, bad, hmem, ?_, fun i hi => ?_⟩
    · rw [parseParams, parseArgs_eq, hmem]
    · exact (parseArgsMemory_outside hmem hi).trans (defaults_outside hi)

/-- `server --threads.io=2 --socket_path=/tmp/b --threads.io=3`. -/
def repeated : List CString :=
  [⟨ascii "server", by decide⟩, ⟨ascii "--threads.io=2", by decide⟩,
    ⟨ascii "--socket_path=/tmp/b", by decide⟩, ⟨ascii "--threads.io=3", by decide⟩]

/-- The path comes first. -/
def pathFirst : List CString :=
  [⟨ascii "server", by decide⟩, ⟨ascii "--socket_path=/tmp/b", by decide⟩,
    ⟨ascii "--threads.io=2", by decide⟩, ⟨ascii "--threads.io=3", by decide⟩]

theorem repeated_fit : StringsFit serverParams repeated := by
  unfold StringsFit
  decide +kernel

theorem repeated_reordered : Reordered serverParams repeated pathFirst where
  perm := by decide
  same := by decide +kernel

/-- The last of two values stands, and so does the path, in either order. -/
theorem parse_params_repeated :
    ∃ cfg, parseParams (fun _ _ => 0) repeated (fun _ => 0) serverParams = .ok cfg ∧
      ServerParams.threadsIo.Holds cfg [3, 0, 0, 0] ∧
      ServerParams.socketPath.Holds cfg (ascii "/tmp/b" ++ [0]) ∧
      ∃ cfg', parseParams (fun _ _ => 0) pathFirst (fun _ => 0) serverParams = .ok cfg' ∧
        ServerParams.threadsIo.Holds cfg' [3, 0, 0, 0] := by
  obtain ⟨-, -, haccept, hholds, hsame, -⟩ :=
    parse_params_law serverParams_ok repeated_fit (fun _ _ => 0) fun _ => 0
  obtain ⟨cfg, hparse⟩ := haccept.mpr (by decide +kernel)
  obtain ⟨cfg', hparse', hholds'⟩ :=
    hsame pathFirst repeated_reordered cfg hparse fun _ _ => 0
  have hio : ServerParams.threadsIo ∈ serverParams := by simp [serverParams]
  have hpath : ServerParams.socketPath ∈ serverParams := by simp [serverParams]
  have hthree : ServerParams.threadsIo.value repeated = [3, 0, 0, 0] := by decide +kernel
  have hvalue : ServerParams.socketPath.value repeated = ascii "/tmp/b" ++ [0] := by
    decide +kernel
  refine ⟨cfg, hparse, ?_, ?_, cfg', hparse', ?_⟩
  · exact hthree ▸ hholds cfg hparse _ hio
  · exact hvalue ▸ hholds cfg hparse _ hpath
  · exact hthree ▸ hholds' _ hio

end Piotbench.Command
