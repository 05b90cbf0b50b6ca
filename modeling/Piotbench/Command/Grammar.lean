import Piotbench.Command.Parsing

/-!
# Which arguments are accepted

The grammar of an argument is `--name=` and a decimal numeral that fits the field, or a string that
fits it. `sscanf` reads more: it passes over white space, takes a sign, cuts a number to 32 bits and
does not look at what is behind a number or a word. It also reads less, as a string of white space
is no word for it. And a word that is too long it writes beyond `dest`.

So the parser accepts the arguments of the grammar, and refuses the others, for just those
arguments that are free of all this (`parsedByGrammar_iff`).
-/

namespace Piotbench.Command

open Server Bytes Scanf

/-! ## The grammar -/

/-- What a field is for. -/
inductive Value
  | uint (v : Nat)
  | int (v : Int)
  | str (s : List Byte)

/-- What may stand behind `--name=`, and the value that it says. -/
inductive Grammar : Conversion → List Byte → Value → Prop
  | uint {ds : List Byte} (numeral : Numeral ds) (fits : decimal ds < UInt32.size) :
      Grammar .uint ds (.uint (decimal ds))
  | int {ds : List Byte} (numeral : Numeral ds) (fits : decimal ds < UInt32.size / 2) :
      Grammar .int ds (.int (decimal ds))
  | minus {ds : List Byte} (numeral : Numeral ds) (fits : decimal ds ≤ UInt32.size / 2) :
      Grammar .int (45 :: ds) (.int (-(decimal ds : Int)))
  | str {s : List Byte} (nonempty : s ≠ []) (fits : s.length ≤ paramValueMax - 1) :
      Grammar .str s (.str s)

/-- The argument gives the parameter this value. -/
def Param.Says (p : Param) (arg : CString) (v : Value) : Prop :=
  ∃ s, arg.1 = p.literal ++ s ∧ Grammar p.conv s v

/-- The field of `p` has this value. -/
def Param.Represents (p : Param) (cfg : Nat → Byte) : Value → Prop
  | .uint v => uintAt cfg p.offset = v
  | .int v => (BitVec.ofNat 32 (uintAt cfg p.offset)).toInt = v
  | .str s => cstring cfg p.offset p.size = s

/-- `param_try_set` takes the argument if it is in the grammar, and then the field has the value; if
it is not, `param_try_set` returns 0. -/
structure Param.ParsedByGrammar (p : Param) (arg : CString) : Prop where
  accepted : ∀ v, p.Says arg v → ∀ junk cfg,
    ∃ cfg', paramTrySet junk arg p cfg = .ok (some cfg') ∧ p.Represents cfg' v
  refused : (∀ v, ¬ p.Says arg v) → ∀ junk cfg, paramTrySet junk arg p cfg = .ok none

/-- The parser accepts the argument by the grammar: `param_try_set` does for every entry, and
`parse_params` returns -1 when it comes to the argument and no entry can take it. -/
structure ParsedByGrammar (params : List Param) (arg : CString) : Prop where
  entries : ∀ p ∈ params, p.ParsedByGrammar arg
  invalid : (∀ p ∈ params, ∀ v, ¬ p.Says arg v) →
    ∀ (junk : Nat → Nat → Byte) (argv after : List CString) (cfg cfg' : Nat → Byte), argv ≠ [] →
      parseParams junk argv cfg params = .ok cfg' →
      parseParams junk (argv ++ arg :: after) cfg params = .error (.invalidParameter arg)

/-! ## Where `sscanf` keeps to it -/

/-- What `sscanf` reads as the grammar does: for a number, a numeral that fits, or no number at
all; for a string, one word that fits, nothing, or nothing but too much white space. -/
def Clean : Conversion → List Byte → Prop
  | .uint, s => startsNumber s = false ∨ Numeral s ∧ decimal s < UInt32.size
  | .int, s =>
    startsNumber s = false ∨ (Numeral s ∧ decimal s < UInt32.size / 2) ∨
      ∃ ds, s = 45 :: ds ∧ Numeral ds ∧ decimal ds ≤ UInt32.size / 2
  | .str, s =>
    s = [] ∨ (Word s ∧ s.length ≤ paramValueMax - 1) ∨
      (s.all isSpace = true ∧ paramValueMax ≤ s.length)

/-- What is behind `--name=`, if that is how the argument starts, is read as the grammar does. -/
def Param.Clean (p : Param) (arg : CString) : Prop :=
  ∀ s, arg.1 = p.literal ++ s → Command.Clean p.conv s

section Entry

variable {p : Param} {arg : CString} {s out : List Byte} {v : Value} {junk : Nat → Byte}
  {cfg : Nat → Byte}

/-! ## One entry -/

theorem Param.scan_literal (h : arg.1 = p.literal ++ s) : p.scan arg = convert p.conv s := by
  have hprefix : p.literal <+: arg.1 := ⟨s, h.symm⟩
  rw [Param.scan, sscanf, if_pos hprefix, h, List.drop_left]

theorem Param.scan_other (h : ∀ s, arg.1 ≠ p.literal ++ s) : p.scan arg = none := by
  have hprefix : ¬ p.literal <+: arg.1 := by
    rintro ⟨s, hs⟩
    exact h s hs.symm
  rw [Param.scan, sscanf, if_neg hprefix]

/-- What an argument says, it says behind `--name=`. -/
theorem Param.Says.literal (h : p.Says arg v) (hs : arg.1 = p.literal ++ s) :
    Grammar p.conv s v := by
  obtain ⟨s', hs', hv⟩ := h
  have heq : s' = s := List.append_cancel_left (hs'.symm.trans hs)
  rwa [heq] at hv

/-- An argument has no zero in it. -/
theorem zero_notMem (hs : arg.1 = p.literal ++ s) : 0 ∉ s := by
  intro hmem
  apply arg.2
  rw [hs]
  exact List.mem_append_right _ hmem

/-- There is room for the terminator. -/
theorem length_terminated (h : s.length ≤ paramValueMax - 1) :
    (s ++ [0]).length ≤ paramValueMax := by
  rw [List.length_append, List.length_singleton]
  simp only [paramValueMax] at *
  omega

/-- `param_try_set` returns 0 just where nothing is converted. -/
theorem paramTrySet_none : paramTrySet junk arg p cfg = .ok none ↔ p.scan arg = none := by
  unfold paramTrySet
  cases p.scan arg with
  | none => simp
  | some out =>
    by_cases hlen : out.length ≤ paramValueMax <;> simp [hlen]

/-- A conversion that fits is copied into the field. -/
theorem paramTrySet_some (h : p.scan arg = some out) (hout : out.length ≤ paramValueMax)
    (junk : Nat → Byte) (cfg : Nat → Byte) :
    ∃ cfg', paramTrySet junk arg p cfg = .ok (some cfg') ∧ p.Holds cfg' out := by
  refine ⟨blit cfg p.offset (slice (blit junk 0 out) 0 p.size), ?_, .copied h hout junk⟩
  simp only [paramTrySet, h, if_pos hout]

/-- A field that holds a number. -/
theorem Param.Holds.uintAt {n : Nat} (h : p.Holds cfg (littleEndian 4 n)) :
    uintAt cfg p.offset = n % UInt32.size := by
  have hread := h.read
  rw [length_littleEndian] at hread
  rw [Command.uintAt, hread, ofLittleEndian_littleEndian]

/-- A field that holds a string. -/
theorem Param.Holds.cstring (h : p.Holds cfg (s ++ [0])) (hzero : 0 ∉ s) :
    cstring cfg p.offset p.size = s := by
  rw [cstring_of_slice h.read h.fits (by simp)]
  have hplain : ∀ c ∈ s, (c ≠ 0) = true := by
    intro c hc
    have hne : c ≠ 0 := fun h0 => hzero (h0 ▸ hc)
    simp [hne]
  rw [List.takeWhile_append_of_pos (by simpa using hplain)]
  simp

/-- A number that is converted is stored in the field, as far as it fits. -/
theorem paramTrySet_number {n : Nat} (h : p.scan arg = some (littleEndian 4 n))
    (junk : Nat → Byte) (cfg : Nat → Byte) :
    ∃ cfg', paramTrySet junk arg p cfg = .ok (some cfg') ∧
      uintAt cfg' p.offset = n % UInt32.size := by
  have hlen : (littleEndian 4 n).length ≤ paramValueMax := by
    rw [length_littleEndian]
    decide
  obtain ⟨cfg', htry, hholds⟩ := paramTrySet_some h hlen junk cfg
  exact ⟨cfg', htry, hholds.uintAt⟩

/-- The values of the grammar are accepted, unless a string has white space in it. -/
theorem Param.Says.accepted (h : p.Says arg v)
    (hword : ∀ s, p.conv = .str → arg.1 = p.literal ++ s → Word s) (junk : Nat → Byte)
    (cfg : Nat → Byte) :
    ∃ cfg', paramTrySet junk arg p cfg = .ok (some cfg') ∧ p.Represents cfg' v := by
  obtain ⟨s, hs, hv⟩ := h
  have hscan := Param.scan_literal hs
  generalize hconv : p.conv = conv at hv hscan
  cases hv with
  | uint numeral fits =>
    simp only [convert, number_numeral numeral, Option.map_some] at hscan
    obtain ⟨cfg', htry, hfield⟩ := paramTrySet_number hscan junk cfg
    refine ⟨cfg', htry, ?_⟩
    show uintAt cfg' p.offset = decimal s
    have hlong : decimal s < UInt64.size := Nat.lt_trans fits (by decide)
    rw [hfield, strtoul, if_neg (Nat.not_le.mpr hlong), if_neg Bool.false_ne_true,
      Nat.mod_eq_of_lt fits]
  | int numeral fits =>
    simp only [convert, number_numeral numeral, Option.map_some] at hscan
    obtain ⟨cfg', htry, hfield⟩ := paramTrySet_number hscan junk cfg
    refine ⟨cfg', htry, ?_⟩
    show (BitVec.ofNat 32 (uintAt cfg' p.offset)).toInt = decimal s
    rw [hfield, toInt_strtol fits]
  | @minus ds numeral fits =>
    simp only [convert, number_minus numeral, Option.map_some] at hscan
    obtain ⟨cfg', htry, hfield⟩ := paramTrySet_number hscan junk cfg
    refine ⟨cfg', htry, ?_⟩
    show (BitVec.ofNat 32 (uintAt cfg' p.offset)).toInt = -(decimal ds : Int)
    rw [hfield, toInt_strtol_minus fits]
  | str nonempty fits =>
    rw [convert_word (hword s hconv hs)] at hscan
    obtain ⟨cfg', htry, hholds⟩ := paramTrySet_some hscan (length_terminated fits) junk cfg
    exact ⟨cfg', htry, hholds.cstring (zero_notMem hs)⟩

/-- Where no number starts, none is read. -/
theorem scan_none_of_startsNumber (hconv : p.conv ≠ .str) (hs : arg.1 = p.literal ++ s)
    (h : startsNumber s = false) : p.scan arg = none := by
  have hnumber := number_eq s
  rw [if_neg (by simp [h])] at hnumber
  rw [Param.scan_literal hs]
  cases hp : p.conv with
  | uint | int => simp [convert, hnumber]
  | str => exact absurd hp hconv

/-- Where a number starts, one is read, whatever is around it. -/
theorem scan_some_of_startsNumber (hconv : p.conv ≠ .str) (hs : arg.1 = p.literal ++ s)
    (h : startsNumber s = true) : ∃ out, p.scan arg = some out ∧ out.length ≤ paramValueMax := by
  have hnumber := number_eq s
  rw [if_pos h] at hnumber
  have hscan : ∃ out, p.scan arg = some out := by
    rw [Param.scan_literal hs]
    cases hp : p.conv with
    | uint | int => simp [convert, hnumber]
    | str => exact absurd hp hconv
  obtain ⟨out, hout⟩ := hscan
  have hlen : out.length = 4 := length_of_number hconv hout
  refine ⟨out, hout, ?_⟩
  rw [hlen]
  decide

/-- What the parser takes is in the grammar, if it keeps to the grammar. -/
theorem Param.ParsedByGrammar.inGrammar (h : p.ParsedByGrammar arg) (hscan : p.scan arg = some out)
    (hs : arg.1 = p.literal ++ s) : ∃ v, Grammar p.conv s v := by
  by_contra hno
  have hrefused := h.refused (fun v hv => hno ⟨v, hv.literal hs⟩) (fun _ => 0) fun _ => 0
  rw [paramTrySet_none, hscan] at hrefused
  cases hrefused

/-! ### Numbers -/

/-- A number is clean if it is in the grammar, or is not read as one at all. -/
theorem clean_number {conv : Conversion} (hconv : conv ≠ .str) :
    Command.Clean conv s ↔ startsNumber s = false ∨ ∃ v, Grammar conv s v := by
  cases conv with
  | uint =>
    apply or_congr_right
    constructor
    · intro hclean
      exact ⟨_, .uint hclean.1 hclean.2⟩
    · intro hgrammar
      obtain ⟨v, hv⟩ := hgrammar
      cases hv with
      | uint numeral fits => exact ⟨numeral, fits⟩
  | int =>
    apply or_congr_right
    constructor
    · intro hclean
      rcases hclean with ⟨numeral, fits⟩ | ⟨ds, rfl, numeral, fits⟩
      · exact ⟨_, .int numeral fits⟩
      · exact ⟨_, .minus numeral fits⟩
    · intro hgrammar
      obtain ⟨v, hv⟩ := hgrammar
      cases hv with
      | int numeral fits => exact .inl ⟨numeral, fits⟩
      | minus numeral fits => exact .inr ⟨_, rfl, numeral, fits⟩
  | str => exact absurd rfl hconv

/-! ### Strings -/

/-- A string of the grammar that the parser reads by the grammar is one word: the field gets what
is before white space, and has to get all of it. -/
theorem Param.ParsedByGrammar.word (h : p.ParsedByGrammar arg) (hconv : p.conv = .str)
    (hs : arg.1 = p.literal ++ s) (hne : s ≠ []) (hlen : s.length ≤ paramValueMax - 1) :
    Word s := by
  have hscan := Param.scan_literal hs
  rw [hconv] at hscan
  have hv : p.Says arg (.str s) := by
    refine ⟨s, hs, ?_⟩
    rw [hconv]
    exact .str hne hlen
  obtain ⟨cfg', htry, hrep⟩ := h.accepted _ hv (fun _ => 0) fun _ => 0
  cases hspace : s.all isSpace with
  | true =>
    -- nothing is read
    rw [convert_str_none hspace] at hscan
    rw [paramTrySet_none.mpr hscan] at htry
    cases htry
  | false =>
    obtain ⟨word, hword, hsub, hconvert⟩ := convert_str_some hspace
    rw [hconvert] at hscan
    have hzero : 0 ∉ word := fun hmem => zero_notMem hs (hsub.subset hmem)
    have hfits := length_terminated (Nat.le_trans hsub.length_le hlen)
    obtain ⟨cfg'', htry', hholds⟩ := paramTrySet_some hscan hfits (fun _ => 0) fun _ => 0
    obtain rfl : cfg' = cfg'' := by
      rw [htry] at htry'
      cases htry'
      rfl
    have heq : word = s := (hholds.cstring hzero).symm.trans hrep
    rw [← heq]
    exact hword

/-- A string that is not read is nothing but white space. -/
theorem space_of_scan_none (hconv : p.conv = .str) (hs : arg.1 = p.literal ++ s)
    (hscan : p.scan arg = none) : s.all isSpace = true := by
  rw [Param.scan_literal hs, hconv] at hscan
  cases hspace : s.all isSpace with
  | true => rfl
  | false =>
    obtain ⟨word, -, -, hconvert⟩ := convert_str_some hspace
    rw [hconvert] at hscan
    cases hscan

theorem Param.ParsedByGrammar.clean_str (h : p.ParsedByGrammar arg) (hconv : p.conv = .str)
    (hs : arg.1 = p.literal ++ s) : Command.Clean .str s := by
  by_cases hempty : s = []
  · exact .inl hempty
  · by_cases hlen : s.length ≤ paramValueMax - 1
    · exact .inr (.inl ⟨h.word hconv hs hempty hlen, hlen⟩)
    · have hno : ∀ v, ¬ p.Says arg v := by
        intro v hv
        have hgrammar := hv.literal hs
        rw [hconv] at hgrammar
        cases hgrammar with
        | str _ fits => exact hlen fits
      have hscan := paramTrySet_none.mp (h.refused hno (fun _ => 0) fun _ => 0)
      exact .inr (.inr ⟨space_of_scan_none hconv hs hscan, by omega⟩)

/-! ### Both ways -/

theorem Param.ParsedByGrammar.clean (h : p.ParsedByGrammar arg) : p.Clean arg := by
  intro s hs
  by_cases hconv : p.conv = .str
  · rw [hconv]
    exact h.clean_str hconv hs
  · rw [clean_number hconv]
    cases hstart : startsNumber s with
    | false => exact .inl rfl
    | true =>
      obtain ⟨out, hscan, -⟩ := scan_some_of_startsNumber hconv hs hstart
      exact .inr (h.inGrammar hscan hs)

/-- A clean string of the grammar is one word. -/
theorem Param.Clean.word (h : p.Clean arg) (hv : p.Says arg v) (hconv : p.conv = .str)
    (hs : arg.1 = p.literal ++ s) : Word s := by
  have hclean := h s hs
  have hgrammar := hv.literal hs
  rw [hconv] at hclean hgrammar
  cases hgrammar with
  | str nonempty fits =>
    rcases hclean with hempty | hword | ⟨-, hlong⟩
    · exact absurd hempty nonempty
    · exact hword.1
    · simp only [paramValueMax] at *
      omega

/-- What is clean and not in the grammar is not read. -/
theorem Param.Clean.scan_none (h : p.Clean arg) (hno : ∀ v, ¬ p.Says arg v) :
    p.scan arg = none := by
  by_cases hliteral : ∃ s, arg.1 = p.literal ++ s
  · obtain ⟨s, hs⟩ := hliteral
    have hgrammar : ∀ v, ¬ Grammar p.conv s v := fun v hv => hno v ⟨s, hs, hv⟩
    have hclean := h s hs
    by_cases hconv : p.conv = .str
    · rw [hconv] at hclean hgrammar
      rw [Param.scan_literal hs, hconv]
      rcases hclean with hempty | ⟨hword, hlen⟩ | ⟨hspace, -⟩
      · rw [hempty]
        exact convert_str_none rfl
      · exact absurd (.str hword.nonempty hlen) (hgrammar _)
      · exact convert_str_none hspace
    · rcases (clean_number hconv).mp hclean with hstart | ⟨v, hv⟩
      · exact scan_none_of_startsNumber hconv hs hstart
      · exact absurd hv (hgrammar v)
  · apply Param.scan_other
    intro s hs
    exact hliteral ⟨s, hs⟩

/-- **One entry**: `param_try_set` keeps to the grammar for the clean arguments and no others. -/
theorem Param.parsed_iff_clean : p.ParsedByGrammar arg ↔ p.Clean arg := by
  constructor
  · intro h
    exact h.clean
  · intro h
    refine ⟨fun v hv junk cfg => ?_, fun hno junk cfg => ?_⟩
    · exact hv.accepted (fun s hconv hs => h.word hv hconv hs) junk cfg
    · exact paramTrySet_none.mpr (h.scan_none hno)

end Entry

/-! ## A table -/

/-- Arguments that are accepted leave those behind them to be parsed. -/
theorem parseArgs_append {params : List Param} {junk : Nat → Nat → Byte} {before : List CString}
    {cfg cfg' : Nat → Byte} (h : parseArgs params junk before cfg = .ok cfg')
    (rest : List CString) :
    parseArgs params junk (before ++ rest) cfg =
      parseArgs params (fun i => junk (i + before.length)) rest cfg' := by
  induction before generalizing junk cfg with
  | nil =>
    cases h
    rfl
  | cons arg before ih =>
    simp only [List.cons_append, parseArgs] at h ⊢
    split at h
    · cases h
    · cases h
    · next cfg₁ htry =>
      rw [ih h]
      simp only [List.length_cons, Nat.add_assoc]

/-- **The grammar**: the parser accepts an argument by the grammar if and only if it is clean for
every entry of the table. -/
theorem parsedByGrammar_iff (params : List Param) (arg : CString) :
    ParsedByGrammar params arg ↔ ∀ p ∈ params, p.Clean arg := by
  constructor
  · intro h p hp
    exact Param.parsed_iff_clean.mp (h.entries p hp)
  · intro h
    have hentries : ∀ p ∈ params, p.ParsedByGrammar arg :=
      fun p hp => Param.parsed_iff_clean.mpr (h p hp)
    refine ⟨hentries, ?_⟩
    intro hno junk argv after cfg cfg' hargv hparse
    have hnone : ∀ p ∈ params, p.scan arg = none := by
      intro p hp
      have hrefused := (hentries p hp).refused (hno p hp) (fun _ => 0) fun _ => 0
      exact paramTrySet_none.mp hrefused
    obtain ⟨prog, before, rfl⟩ := List.exists_cons_of_ne_nil hargv
    have happend := parseArgs_append hparse (arg :: after)
    simp only [List.cons_append, parseParams, List.drop_one, List.tail_cons] at happend ⊢
    rw [happend, parseArgs, tryParams_none hnone]

/-- A million requests, as some would write it. -/
def millionRequests : CString := ⟨ascii "--nr_requests=1e6", by decide⟩

/-- It is read as one request. -/
theorem not_parsedByGrammar_million : ¬ ParsedByGrammar clientParams millionRequests := by
  intro h
  have hentry := h.entries ClientParams.nrRequests (by simp [clientParams])
  have hscan : ClientParams.nrRequests.scan millionRequests = some (littleEndian 4 1) := by decide
  have hs : millionRequests.1 = ClientParams.nrRequests.literal ++ ascii "1e6" := by decide
  obtain ⟨v, hv⟩ := hentry.inGrammar hscan hs
  change Grammar .uint (ascii "1e6") v at hv
  cases hv with
  | uint numeral _ => exact absurd numeral.digits (by decide)

end Piotbench.Command
