import AbyssalWarden.Checked
import AbyssalWarden.Text

/-! The service configuration and the checks it must pass before anything uses it. -/
namespace AbyssalWarden

inductive JobKind where
  | scan
  | systemCheck
  | update
  deriving DecidableEq, Repr

structure Schedule where
  name : String
  kind : JobKind
  paths : List String
  everyHours : ℕ
  atUtc : Option String
  heuristics : Bool
  quarantine : Bool
  deriving DecidableEq, Repr

structure ServiceConfig where
  socket : String
  stateDir : String
  quarantineStore : String
  content : List String
  keyrings : List String
  updateSource : Option String
  maxConcurrentJobs : ℕ
  maxQueuedJobs : ℕ
  jobTimeoutMinutes : ℕ
  historyLimit : ℕ
  auditCheckHours : ℕ
  schedules : List Schedule
  deriving DecidableEq, Repr

/-- One constructor for each message of `validate`, with the values it prints. -/
inductive ConfigError where
  | range (what : String) (lo hi : ℕ)
  | mustBeAbsolutePath (path : String)
  | socketTooLong (path : String)
  | contentMustBeAbsolute (path : String)
  | updateSource (src : String)
  | tooManySchedules
  | scheduleName (name : String)
  | atUtcFormat (schedule : String)
  | atUtcMultiple (schedule : String)
  | scanPathCount (schedule : String)
  | scanPathAbsolute (schedule path : String)
  | systemCheckOptions (schedule : String)
  | updateOptions (schedule : String)
  | updateNeedsSource (schedule : String)
  deriving DecidableEq, Repr

def maxSchedules : ℕ := 64
def maxPaths : ℕ := 64

/-- `str::parse::<u8>`: an optional `+`, then digits, at most 255. -/
def parseU8 (s : List Char) : Option ℕ :=
  let digits := if s.head? = some '+' then s.tail else s
  if digits ≠ [] ∧ digits.all Char.isDigit then
    let v := digits.foldl (fun n c => 10 * n + (c.toNat - '0'.toNat)) 0
    if v ≤ 255 then some v else none
  else none

/-- Parses `HH:MM`. -/
def parseHhmm (s : String) : Option (ℕ × ℕ) :=
  let cs := s.toList
  if ':' ∈ cs then do
    let h ← parseU8 (cs.takeWhile (· ≠ ':'))
    let m ← parseU8 (cs.dropWhile (· ≠ ':')).tail
    if h < 24 ∧ m < 60 ∧ s.utf8ByteSize = 5 then some (h, m) else none
  else none

def isAbsolute (p : String) : Bool := p.toList.head? = some '/'

def checkRange (v lo hi : ℕ) (what : String) : Except ConfigError Unit :=
  refuseIf (¬ (lo ≤ v ∧ v ≤ hi)) (.range what lo hi)

def validScheduleName (name : String) : Bool :=
  name ≠ "" && name.utf8ByteSize ≤ 128 &&
    name.toList.all fun c => c.isAlphanum || c = '.' || c = '_' || c = '-'

def Schedule.checkAt (s : Schedule) : Except ConfigError Unit :=
  match s.atUtc with
  | none => .ok ()
  | some a => do
    refuseIf (parseHhmm a = none) (.atUtcFormat s.name)
    refuseIf (s.everyHours % 24 ≠ 0) (.atUtcMultiple s.name)

def Schedule.checkKind (cfg : ServiceConfig) (s : Schedule) : Except ConfigError Unit :=
  match s.kind with
  | .scan => do
    refuseIf (s.paths = [] ∨ s.paths.length > maxPaths) (.scanPathCount s.name)
    refuseSome (s.paths.find? fun p => !isAbsolute p || p.toList.contains '\x00')
      (.scanPathAbsolute s.name)
  | .systemCheck => refuseIf (s.paths ≠ [] ∨ s.quarantine) (.systemCheckOptions s.name)
  | .update => do
    refuseIf (s.paths ≠ [] ∨ s.quarantine ∨ s.heuristics) (.updateOptions s.name)
    refuseIf (cfg.updateSource = none) (.updateNeedsSource s.name)

/-- The checks on one schedule; `names` holds the names of the schedules before it. -/
def Schedule.check (cfg : ServiceConfig) (names : List String) (s : Schedule) :
    Except ConfigError (List String) := do
  refuseIf (validScheduleName s.name = false ∨ s.name ∈ names) (.scheduleName s.name)
  checkRange s.everyHours 1 (24 * 366) "every_hours"
  s.checkAt
  s.checkKind cfg
  .ok (s.name :: names)

def validUpdateSource (src : String) : Bool :=
  let ok := ("https://".toList.isPrefixOf src.toList && src.utf8ByteSize > 8) ||
    (isAbsolute src && !src.toList.tails.any ("://".toList.isPrefixOf ·))
  ok && src.utf8ByteSize ≤ 2048 && !src.toList.any isControl

def ServiceConfig.validate (cfg : ServiceConfig) : Except ConfigError Unit := do
  checkRange cfg.maxConcurrentJobs 1 8 "max_concurrent_jobs"
  checkRange cfg.maxQueuedJobs 1 1000 "max_queued_jobs"
  checkRange cfg.jobTimeoutMinutes 1 (7 * 24 * 60) "job_timeout_minutes"
  checkRange cfg.historyLimit 1 100000 "history_limit"
  checkRange cfg.auditCheckHours 0 (24 * 365) "audit_check_hours"
  refuseSome ([cfg.socket, cfg.stateDir, cfg.quarantineStore].find? (!isAbsolute ·))
    .mustBeAbsolutePath
  -- sockaddr_un.sun_path is 108 bytes including the terminating NUL
  refuseIf (cfg.socket.utf8ByteSize ≥ 108) (.socketTooLong cfg.socket)
  refuseSome ((cfg.content ++ cfg.keyrings).find? (!isAbsolute ·)) .contentMustBeAbsolute
  refuseSome (cfg.updateSource.filter (!validUpdateSource ·)) .updateSource
  refuseIf (cfg.schedules.length > maxSchedules) .tooManySchedules
  let _names ← checkEach (Schedule.check cfg) [] cfg.schedules

/-- What `validate` establishes for each configured schedule. -/
structure Schedule.Valid (s : Schedule) : Prop where
  name_ok : validScheduleName s.name = true
  hours_pos : 1 ≤ s.everyHours
  hours_le : s.everyHours ≤ 24 * 366
  at_ok : ∀ a, s.atUtc = some a → parseHhmm a ≠ none ∧ s.everyHours % 24 = 0

theorem Schedule.check_valid {cfg : ServiceConfig} {names names' : List String} {s : Schedule}
    (h : s.check cfg names = .ok names') : s.Valid := by
  simp only [Schedule.check, checkRange, except_bind_eq_ok, refuseIf_eq_ok, not_or, not_not,
    Bool.not_eq_false, exists_const] at h
  obtain ⟨⟨hname, _⟩, ⟨hlo, hhi⟩, _, hat, _⟩ := h
  refine ⟨hname, hlo, hhi, ?_⟩
  intro a ha
  simpa only [Schedule.checkAt, ha, except_bind_eq_ok, refuseIf_eq_ok, not_not, exists_const]
    using hat

theorem ServiceConfig.validate_schedules {cfg : ServiceConfig} (h : cfg.validate = .ok ()) :
    ∀ s ∈ cfg.schedules, s.Valid := by
  simp only [ServiceConfig.validate, checkRange, except_bind_eq_ok, refuseIf_eq_ok,
    refuseSome_eq_ok, exists_const] at h
  obtain ⟨_, _, _, _, _, _, _, _, _, _, names, hs, _⟩ := h
  intro s hmem
  exact checkEach_forall (P := Schedule.Valid) (fun _ _ _ hc => Schedule.check_valid hc) hs s hmem

end AbyssalWarden
