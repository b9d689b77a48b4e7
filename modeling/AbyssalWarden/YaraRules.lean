import AbyssalWarden.Finding
import AbyssalWarden.Manifest

/-! YARA rule sources compiled into one detector, within limits, and the metadata of its rules. -/
namespace AbyssalWarden.Yara

/-- Largest total rule source accepted, in bytes. -/
def maxSourceBytes : ℕ := 64 * 1024 * 1024

/-- Largest number of rules accepted. -/
def maxRules : ℕ := 200000

def maxMetaText : ℕ := 4096
def maxNameLen : ℕ := 256
/-- One rule source file; `nspace` is the namespace of its rules. -/
structure RuleSource where
  nspace : String
  origin : String
  text : String
  deriving DecidableEq

inductive YaraLoadError where
  | empty
  | tooLarge
  | tooManyRules
  | invalidNamespace (nspace : String)
  | compile (origin message : String)
  | invalidMetadata (rule key reason : String)
  deriving DecidableEq

inductive MetaValue where
  | integer (value : ℤ)
  | float
  | bool (value : Bool)
  | string (value : String)
  | bytes (value : Bytes)

structure Rule where
  nspace : String
  identifier : String
  metadata : List (String × MetaValue)

/-- The compiler of YARA-X, with includes disabled, slow patterns refused and strict syntax. -/
structure Compiler where
  State : Type
  new : State
  newNamespace : State → String → State
  addSource : State → String → Except String State
  build : State → List Rule

/-! ### Metadata -/

/-- How a rule's match is to be interpreted, from its `aw_*` metadata. -/
structure RuleMeta where
  kind : FindingKind
  confidence : Confidence
  severity : Severity
  category : ThreatCategory
  name : String
  ruleVersion : Option ℕ
  description : Option String
  attribution : List (String × String)

def MetaValue.text : MetaValue → Option String
  | .string s => some s
  | _ => none

def kindOf (text : String) : Except String FindingKind :=
  match text with
  | "known_indicator" => .ok .knownIndicator
  | "suspicious" => .ok .suspicious
  | "heuristic" => .ok .heuristic
  | "informational" => .ok .informational
  | _ => .error "must be known_indicator, suspicious, heuristic or informational"

/-- A pattern match is never an identity proof. -/
def confidenceOf (text : String) : Except String Confidence :=
  match text with
  | "low" => .ok .low
  | "medium" => .ok .medium
  | "high" => .ok .high
  | "confirmed" => .error "`confirmed` is reserved for exact hash matches"
  | _ => .error "must be low, medium or high"

def severityOf (text : String) : Except String Severity :=
  match text with
  | "info" => .ok .info
  | "low" => .ok .low
  | "medium" => .ok .medium
  | "high" => .ok .high
  | "critical" => .ok .critical
  | _ => .error "must be info, low, medium, high or critical"

def categoryOf (text : String) : Except String ThreatCategory :=
  match text with
  | "malware" => .ok .malware
  | "potentially_unwanted" => .ok .potentiallyUnwanted
  | "test_indicator" => .ok .testIndicator
  | "unknown" => .ok .unknown
  | _ => .error "must be malware, potentially_unwanted, test_indicator or unknown"

def nameOf (text : String) : Except String String :=
  if trim text.toList = [] ∨ text.utf8ByteSize > maxNameLen ∨ hasUnsafeChars text false = true then
    .error "must be 1-256 bytes without control characters"
  else .ok text

def ruleVersionOf : MetaValue → Except String ℕ
  | .integer v => if 1 ≤ v ∧ v ≤ 2 ^ 32 - 1 then .ok v.toNat else .error "must be an integer >= 1"
  | _ => .error "must be an integer >= 1"

/-- Standard metadata is used if it is safe to display. -/
def describe (m : RuleMeta) (value : MetaValue) : RuleMeta :=
  match value.text with
  | some t =>
    if t.utf8ByteSize ≤ maxMetaText ∧ hasUnsafeChars t true = false then { m with description := some t } else m
  | none => m

/-- The first of each label is kept. -/
def attributed (m : RuleMeta) (label : String) (value : MetaValue) : RuleMeta :=
  match value.text with
  | some t =>
    if t.utf8ByteSize ≤ maxMetaText ∧ hasUnsafeChars t false = false ∧ label ∉ m.attribution.map Prod.fst then
      { m with attribution := m.attribution ++ [(label, t)] }
    else m
  | none => m

/-- One item of the metadata; the error is the reason that is given. -/
def applyMeta (m : RuleMeta) (key : String) (value : MetaValue) : Except String RuleMeta :=
  let needText : Except String String :=
    match value.text with
    | some t => .ok t
    | none => .error "must be a string"
  match key with
  | "aw_kind" => needText >>= fun t => (kindOf t).map fun kind => { m with kind }
  | "aw_confidence" => needText >>= fun t => (confidenceOf t).map fun confidence => { m with confidence }
  | "aw_severity" => needText >>= fun t => (severityOf t).map fun severity => { m with severity }
  | "aw_category" => needText >>= fun t => (categoryOf t).map fun category => { m with category }
  | "aw_name" => needText >>= fun t => (nameOf t).map fun name => { m with name }
  | "aw_rule_version" => (ruleVersionOf value).map fun v => { m with ruleVersion := some v }
  | "description" => .ok (describe m value)
  | "author" => .ok (attributed m "author" value)
  | "reference" => .ok (attributed m "reference" value)
  | "license" => .ok (attributed m "licence" value)
  | key =>
    if "aw_".toList.isPrefixOf key.toList then .error "is not a recognised aw_* key" else .ok m

/-- What a rule without metadata is taken for. -/
def defaultMeta (identifier : String) : RuleMeta where
  kind := .suspicious
  confidence := .medium
  severity := .medium
  category := .unknown
  name := identifier
  ruleVersion := none
  description := none
  attribution := []

/-- An item of a rule that is shown by this name. -/
def metaItem (shown : String) (m : RuleMeta) (item : String × MetaValue) : Except YaraLoadError RuleMeta :=
  (applyMeta m item.1 item.2).mapError (.invalidMetadata shown item.1)

def parseMeta (rule : Rule) : Except YaraLoadError RuleMeta :=
  checkEach (metaItem (rule.nspace ++ ":" ++ rule.identifier)) (defaultMeta rule.identifier) rule.metadata

/-! ### Compilation -/

def validNamespace (ns : String) : Bool :=
  ns ≠ "" && ns.utf8ByteSize ≤ 64 && ns.toList.all fun c => c.isAlphanum || c = '_'

def validateNamespace (ns : String) : Except YaraLoadError Unit :=
  refuseIf (validNamespace ns = false) (.invalidNamespace ns)

structure DatabaseInfo where
  name : String
  version : String
  entries : ℕ
  signer : Option String

/-- Compiled, validated YARA rules, with the metadata of each by namespace and identifier. -/
structure YaraDetector where
  rules : List Rule
  metas : List ((String × String) × RuleMeta)
  database : DatabaseInfo

variable (c : Compiler) (sha256 : Bytes → Sha256Digest)

/-- One source, in a namespace of its own. -/
def addSource (acc : c.State × Bytes) (src : RuleSource) : Except YaraLoadError (c.State × Bytes) := do
  validateNamespace src.nspace
  let state ← (c.addSource (c.newNamespace acc.1 src.nspace) src.text).mapError (.compile src.origin)
  .ok (state, acc.2 ++ utf8Bytes src.nspace ++ [0] ++ utf8Bytes src.text ++ [0])

/-- `meta.insert(key, parse_meta(&rule)?)` -/
def insertMeta (metas : List ((String × String) × RuleMeta)) (rule : Rule) :
    Except YaraLoadError (List ((String × String) × RuleMeta)) := do
  let key := (rule.nspace, rule.identifier)
  let m ← parseMeta rule
  .ok ((key, m) :: metas.filter (·.1 ≠ key))

/-- Compile and validate `sources`. `signer` is the key ID that verified them. -/
def compile (sources : List RuleSource) (signer : Option String) : Except YaraLoadError YaraDetector := do
  refuseIf (sources = []) .empty
  refuseIf ((sources.map (·.text.utf8ByteSize)).sum > maxSourceBytes) .tooLarge
  let (state, digestInput) ← checkEach (addSource c) (c.new, []) sources
  let rules := c.build state
  refuseIf (rules.length > maxRules) .tooManyRules
  let metas ← checkEach insertMeta [] rules
  let hex := String.ofList ((hexEncode (sha256 digestInput).bytes).take 16)
  .ok ⟨rules, metas, ⟨"yara-rules", "sha256:" ++ hex, metas.length, signer⟩⟩

/-! ### What compiles -/

/-- What the compiler makes of one source alone. -/
def Compiler.alone (nspace text : String) : Except String (List Rule) :=
  (c.addSource (c.newNamespace c.new nspace) text).map c.build

/-- All sources, one after the other. -/
def Compiler.addAll (state : c.State) : List RuleSource → Except String c.State
  | [] => .ok state
  | src :: rest => c.addSource (c.newNamespace state src.nspace) src.text >>= fun state' => addAll state' rest

/-- Namespaces keep sources apart: sources that compile alone compile together in distinct namespaces, and give the
same rules there. -/
def Compiler.Separates : Prop :=
  ∀ (ns : String) (sources : List RuleSource) (rules : RuleSource → List Rule), (sources.map RuleSource.nspace).Nodup →
    (∀ src ∈ sources, c.alone ns src.text = .ok (rules src)) →
    ∃ state, c.addAll c.new sources = .ok state ∧
      c.build state = sources.flatMap fun src => (rules src).map fun r => { r with nspace := src.nspace }

variable {c sha256} {sources : List RuleSource} {rules : List Rule} {signer : Option String}

theorem metaItems_ok {shown shown' : String} {m m' : RuleMeta} {items : List (String × MetaValue)}
    (h : checkEach (metaItem shown) m items = .ok m') : checkEach (metaItem shown') m items = .ok m' := by
  induction items generalizing m with
  | nil => exact h
  | cons item items ih =>
    obtain ⟨next, hnext, hrest⟩ := checkEach_cons_eq_ok.mp h
    have hitem : metaItem shown' m item = .ok next := mapError_eq_ok.mpr (mapError_eq_ok.mp hnext)
    exact checkEach_cons_eq_ok.mpr ⟨next, hitem, ih hrest⟩

/-- The metadata of a rule is accepted in any namespace or in none. -/
theorem parseMeta_inNamespace {rule : Rule} {m : RuleMeta} (h : parseMeta rule = .ok m) (ns : String) :
    parseMeta { rule with nspace := ns } = .ok m := metaItems_ok h

theorem addSource_eq_ok {acc acc' : c.State × Bytes} {src : RuleSource} : addSource c acc src = .ok acc' ↔
    validNamespace src.nspace = true ∧ c.addSource (c.newNamespace acc.1 src.nspace) src.text = .ok acc'.1 ∧
      acc'.2 = acc.2 ++ utf8Bytes src.nspace ++ [0] ++ utf8Bytes src.text ++ [0] := by
  simp only [addSource, validateNamespace, except_bind_eq_ok, refuseIf_eq_ok, mapError_eq_ok, exists_const,
    Bool.not_eq_false, Except.ok.injEq]
  constructor
  · rintro ⟨hvalid, state, hstate, rfl⟩
    exact ⟨hvalid, hstate, rfl⟩
  · rintro ⟨hvalid, hstate, hdigest⟩
    exact ⟨hvalid, acc'.1, hstate, by rw [← hdigest]⟩

theorem addSources_ok {acc : c.State × Bytes} {state : c.State} :
    (∃ digestInput, checkEach (addSource c) acc sources = .ok (state, digestInput)) ↔
      (∀ src ∈ sources, validNamespace src.nspace = true) ∧ c.addAll acc.1 sources = .ok state := by
  induction sources generalizing acc with
  | nil =>
    constructor
    · rintro ⟨digestInput, h⟩
      cases h
      exact ⟨fun _ h => absurd h List.not_mem_nil, rfl⟩
    · rintro ⟨-, h⟩
      cases h
      exact ⟨acc.2, rfl⟩
  | cons src sources ih =>
    simp only [checkEach_cons_eq_ok, addSource_eq_ok, List.forall_mem_cons, Compiler.addAll, except_bind_eq_ok]
    constructor
    · rintro ⟨digestInput, next, ⟨hvalid, hadd, -⟩, hrest⟩
      obtain ⟨hall, hstate⟩ := ih.mp ⟨digestInput, hrest⟩
      exact ⟨⟨hvalid, hall⟩, next.1, hadd, hstate⟩
    · rintro ⟨⟨hvalid, hall⟩, next, hadd, hstate⟩
      let digest := acc.2 ++ utf8Bytes src.nspace ++ [0] ++ utf8Bytes src.text ++ [0]
      have hrest : c.addAll (next, digest).1 sources = .ok state := hstate
      obtain ⟨digestInput, h⟩ := ih.mpr ⟨hall, hrest⟩
      exact ⟨digestInput, (next, digest), ⟨hvalid, hadd, rfl⟩, h⟩

theorem insertMetas_ok {metas : List ((String × String) × RuleMeta)} :
    (∃ metas', checkEach insertMeta metas rules = .ok metas') ↔ ∀ rule ∈ rules, ∃ m, parseMeta rule = .ok m := by
  induction rules generalizing metas with
  | nil => exact ⟨fun _ _ h => absurd h List.not_mem_nil, fun _ => ⟨metas, rfl⟩⟩
  | cons rule rules ih =>
    simp only [checkEach_cons_eq_ok, List.forall_mem_cons, insertMeta, except_bind_eq_ok, Except.ok.injEq]
    constructor
    · rintro ⟨metas', next, ⟨m, hm, rfl⟩, hrest⟩
      exact ⟨⟨m, hm⟩, ih.mp ⟨metas', hrest⟩⟩
    · rintro ⟨⟨m, hm⟩, hall⟩
      obtain ⟨metas', h⟩ := ih.mpr hall
      exact ⟨metas', _, ⟨m, hm, rfl⟩, h⟩

theorem compile_ok_iff : (∃ det, compile c sha256 sources signer = .ok det) ↔
    sources ≠ [] ∧ (sources.map (·.text.utf8ByteSize)).sum ≤ maxSourceBytes ∧
      (∀ src ∈ sources, validNamespace src.nspace = true) ∧
      ∃ state, c.addAll c.new sources = .ok state ∧ (c.build state).length ≤ maxRules ∧
        ∀ rule ∈ c.build state, ∃ m, parseMeta rule = .ok m := by
  simp only [compile, except_bind_eq_ok, refuseIf_eq_ok, exists_const, not_lt, gt_iff_lt, Except.ok.injEq]
  constructor
  · rintro ⟨det, hne, hsize, ⟨state, digestInput⟩, hadded, hcount, metas, hmetas, -⟩
    obtain ⟨hvalid, hstate⟩ := addSources_ok.mp ⟨digestInput, hadded⟩
    exact ⟨hne, hsize, hvalid, state, hstate, hcount, insertMetas_ok.mp ⟨metas, hmetas⟩⟩
  · rintro ⟨hne, hsize, hvalid, state, hstate, hcount, hall⟩
    have hstart : c.addAll (c.new, ([] : Bytes)).1 sources = .ok state := hstate
    obtain ⟨digestInput, hadded⟩ := addSources_ok.mpr ⟨hvalid, hstart⟩
    obtain ⟨metas, hmetas⟩ := insertMetas_ok.mpr hall
    exact ⟨_, hne, hsize, (state, digestInput), hadded, hcount, metas, hmetas, rfl⟩

/-- What compiles alone: a source within the limit, whose rules are not too many and have metadata that is accepted. -/
theorem compile_alone_iff {ns origin text : String} (hns : validNamespace ns = true) :
    (∃ det, compile c sha256 [⟨ns, origin, text⟩] signer = .ok det) ↔ text.utf8ByteSize ≤ maxSourceBytes ∧
      ∃ rules, c.alone ns text = .ok rules ∧ rules.length ≤ maxRules ∧ ∀ rule ∈ rules, ∃ m, parseMeta rule = .ok m := by
  simp only [compile_ok_iff, ne_eq, List.cons_ne_nil, not_false_eq_true, true_and, List.map_cons, List.map_nil,
    List.sum_cons, List.sum_nil, Nat.add_zero, List.forall_mem_singleton, hns, Compiler.alone, except_map_eq_ok,
    Compiler.addAll, except_bind_eq_ok, Except.ok.injEq, exists_eq_right]
  refine and_congr_right fun _ => ?_
  constructor
  · rintro ⟨state, hstate, hcount, hall⟩
    exact ⟨_, ⟨state, hstate, rfl⟩, hcount, hall⟩
  · rintro ⟨_, ⟨state, hstate, rfl⟩, hcount, hall⟩
    exact ⟨state, hstate, hcount, hall⟩

/-- The rules of a source that compiles. -/
def Compiler.rulesIn (c : Compiler) (ns text : String) : List Rule := (c.alone ns text).toOption.getD []

/-- Sources that compile alone compile together in distinct namespaces, unless there is too much of them. -/
theorem compile_together_iff (hc : c.Separates) {ns : String} (hns : validNamespace ns = true) (hne : sources ≠ [])
    (hdistinct : (sources.map RuleSource.nspace).Nodup) (hvalid : ∀ src ∈ sources, validNamespace src.nspace = true)
    (halone : ∀ src ∈ sources, ∃ origin det, compile c sha256 [⟨ns, origin, src.text⟩] none = .ok det) :
    (∃ det, compile c sha256 sources signer = .ok det) ↔
      (sources.map (·.text.utf8ByteSize)).sum ≤ maxSourceBytes ∧
        (sources.map fun src => (c.rulesIn ns src.text).length).sum ≤ maxRules := by
  -- each source compiles alone, and its rules have readable metadata
  have hrules : ∀ src ∈ sources, c.alone ns src.text = .ok (c.rulesIn ns src.text) ∧
      ∀ rule ∈ c.rulesIn ns src.text, ∃ m, parseMeta rule = .ok m := by
    intro src hsrc
    obtain ⟨origin, hdet⟩ := halone src hsrc
    obtain ⟨-, rules, hrules, -, hall⟩ := (compile_alone_iff hns).mp hdet
    have hin : c.rulesIn ns src.text = rules := by
      rw [Compiler.rulesIn, hrules]
      rfl
    rw [hin]
    exact ⟨hrules, hall⟩
  -- in distinct namespaces the rules of all of them are there together
  obtain ⟨state, hstate, hbuild⟩ := hc ns sources (fun src => c.rulesIn ns src.text) hdistinct fun src hsrc =>
    (hrules src hsrc).1
  have hcount : (c.build state).length = (sources.map fun src => (c.rulesIn ns src.text).length).sum := by
    rw [hbuild, List.length_flatMap]
    simp only [List.length_map]
  have hmetas : ∀ rule ∈ c.build state, ∃ m, parseMeta rule = .ok m := by
    intro rule hrule
    rw [hbuild] at hrule
    obtain ⟨src, hsrc, hmem⟩ := List.mem_flatMap.mp hrule
    obtain ⟨original, horiginal, rfl⟩ := List.mem_map.mp hmem
    obtain ⟨m, hm⟩ := (hrules src hsrc).2 original horiginal
    exact ⟨m, parseMeta_inNamespace hm src.nspace⟩
  rw [compile_ok_iff, hstate]
  constructor
  · rintro ⟨-, hsize, -, other, hother, hle, -⟩
    obtain rfl := Except.ok.inj hother
    exact ⟨hsize, hcount ▸ hle⟩
  · rintro ⟨hsize, hle⟩
    exact ⟨hne, hsize, hvalid, state, rfl, hcount ▸ hle, hmetas⟩

end AbyssalWarden.Yara
