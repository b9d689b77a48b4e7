import AbyssalWarden.InertRendering

/-! How many lines a rendered report has. Two reports that differ only in what their texts say are rendered to the same
number of lines. -/
namespace AbyssalWarden.Output

/-! ### Reports without what their texts say -/

/-- Nothing is left of a text but that it is not empty. -/
def mark (s : String) : String := if s = "" then "" else "x"

def erasePath (p : ObservedPath) : ObservedPath := ⟨mark p.text, p.rawHex.map mark⟩

def eraseSource (src : DetectionSource) : DetectionSource :=
  { src with
    detector := mark src.detector
    detectorVersion := mark src.detectorVersion
    ruleId := src.ruleId.map mark
    databaseName := src.databaseName.map mark
    databaseVersion := src.databaseVersion.map mark }

def eraseTarget : FindingTarget → FindingTarget
  | .file p sha256 metadata => .file (erasePath p) sha256 metadata
  | .archiveMember archive member sha256 size => .archiveMember (erasePath archive) (member.map erasePath) sha256 size
  | .persistence mechanism location entry => .persistence mechanism (erasePath location) (entry.map mark)
  | .process pid name exe => .process pid (mark name) (exe.map erasePath)
  | .system component => .system (mark component)

def eraseFinding (f : Finding) : Finding :=
  { f with
    name := mark f.name
    target := eraseTarget f.target
    source := eraseSource f.source
    evidence := f.evidence.map fun e => { e with summary := mark e.summary }
    explanation := mark f.explanation
    remediationGuidance := f.remediationGuidance.map mark
    remediationDetail := f.remediationDetail.map mark }

def eraseIssue (i : ScanIssue) : ScanIssue :=
  { i with
    path := i.path.map erasePath
    detector := i.detector.map mark
    message := mark i.message
    member := i.member.map (·.map erasePath) }

def eraseSkipped (sk : SkippedEntry) : SkippedEntry :=
  { sk with path := erasePath sk.path, member := sk.member.map (·.map erasePath) }

def eraseDetector (d : DetectorInfo) : DetectorInfo :=
  { id := mark d.id
    version := mark d.version
    database := d.database.map fun db =>
      { db with name := mark db.name, version := mark db.version, signer := db.signer.map mark } }

def eraseBundle (b : ContentBundleInfo) : ContentBundleInfo :=
  { b with name := mark b.name, signers := b.signers.map mark }

def ScanDocument.erase (r : ScanDocument) : ScanDocument :=
  { r with
    findings := r.findings.map eraseFinding
    skipped := r.skipped.map eraseSkipped
    issues := r.issues.map eraseIssue
    warnings := r.warnings.map mark
    roots := r.roots.map erasePath
    detectors := r.detectors.map eraseDetector
    contentBundles := r.contentBundles.map eraseBundle }

def eraseCheck (c : CheckResult) : CheckResult := { c with title := mark c.title, detail := c.detail.map mark }

def eraseEntry (e : InventoryEntry) : InventoryEntry :=
  { e with
    location := erasePath e.location
    command := e.command.map mark
    executable := e.executable.map erasePath
    detail := e.detail.map mark }

def SystemDocument.erase (r : SystemDocument) : SystemDocument :=
  { r with
    host := { r.host with
      kernel := r.host.kernel.map mark, hostname := r.host.hostname.map mark, root := erasePath r.host.root }
    checks := r.checks.map eraseCheck
    findings := r.findings.map eraseFinding
    persistence := r.persistence.map eraseEntry
    issues := r.issues.map eraseIssue
    referencedFiles := r.referencedFiles.map ScanDocument.erase
    warnings := r.warnings.map mark }

/-! ### Counting lines -/

variable {α β : Type} {fmt : Formats}

@[simp] theorem length_lineWhenSome {field : Option α} {f : α → String} :
    (lineWhenSome field f).length = if field.isSome then 1 else 0 := by
  cases field with
  | none => rfl
  | some a => rfl

theorem length_targetLines_erase (target : FindingTarget) :
    (targetLines (eraseTarget target)).length = (targetLines target).length := by
  cases target with
  | file p sha256 metadata => simp only [eraseTarget, targetLines, List.length_cons, length_lineWhenSome]
  | archiveMember archive member sha256 size =>
    simp only [eraseTarget, targetLines, List.length_cons, length_lineWhenSome]
  | persistence mechanism location entry =>
    simp only [eraseTarget, targetLines, List.length_cons, length_lineWhenSome, Option.isSome_map]
  | process pid name exe => rfl
  | system component => rfl

/-- The lines of a finding are as many whatever its number and its texts are. -/
theorem length_writeFinding_erase (n n' : ℕ) (f : Finding) :
    (writeFinding fmt n (eraseFinding f)).length = (writeFinding fmt n' f).length := by
  simp only [writeFinding, eraseFinding, List.length_append, List.length_cons, List.length_nil, List.length_map,
    length_targetLines_erase, length_lineWhenSome, Option.isSome_map]

theorem length_writeFindings (findings : List Finding) :
    (writeFindings fmt findings).length = (findings.map fun f => (writeFinding fmt 0 f).length).sum := by
  have hindex (i : ℕ) (f : Finding) : (writeFinding fmt (i + 1) f).length = (writeFinding fmt 0 f).length := by
    rw [← length_writeFinding_erase 0 (i + 1) f, length_writeFinding_erase 0 0 f]
  have hlengths : (findings.mapIdx fun i f => writeFinding fmt (i + 1) f).map List.length =
      findings.map fun f => (writeFinding fmt 0 f).length := by
    apply List.ext_getElem
    · simp only [List.length_map, List.length_mapIdx]
    · intro i hi hi'
      simp only [List.getElem_map, List.getElem_mapIdx, hindex]
  rw [writeFindings, List.length_flatten, hlengths]

theorem length_writeFindings_erase (findings : List Finding) :
    (writeFindings fmt (findings.map eraseFinding)).length = (writeFindings fmt findings).length := by
  rw [length_writeFindings, length_writeFindings, List.map_map]
  simp only [Function.comp_def, length_writeFinding_erase 0 0]

theorem length_reportLines_erase (r : ScanDocument) (showSkipped : Bool) :
    (reportLines fmt r.erase showSkipped).length = (reportLines fmt r showSkipped).length := by
  -- section by section, as in a system report
  have hhead : (headLines fmt r.erase).length = (headLines fmt r).length := by
    simp only [headLines, ScanDocument.erase, List.length_append, List.length_cons, List.length_mapIdx, List.length_map,
      List.isEmpty_map]
  have hsummary : (summaryLines fmt r.erase).length = (summaryLines fmt r).length := by
    simp only [summaryLines, ScanDocument.erase, List.length_append, List.length_cons, List.length_nil]
    rfl
  have hfindings : (findingLines fmt r.erase).length = (findingLines fmt r).length := by
    simp only [findingLines, ScanDocument.erase, List.isEmpty_map]
    split
    · rfl
    · simp only [List.length_append, length_writeFindings_erase]
      rfl
  have hissues : (issueLines r.erase).length = (issueLines r).length := by
    simp only [issueLines, ScanDocument.erase, List.isEmpty_map]
    split
    · rfl
    · simp only [List.length_append, List.length_cons, List.length_nil, List.length_map, List.length_take]
  have hskipped : (skippedLines r.erase showSkipped).length = (skippedLines r showSkipped).length := by
    simp only [skippedLines, ScanDocument.erase, List.isEmpty_map]
    split
    · simp only [List.length_append, List.length_cons, List.length_nil, List.length_map, List.length_take]
    · rfl
  have hwarnings : (warningLines r.erase).length = (warningLines r).length := by
    simp only [warningLines, ScanDocument.erase, List.isEmpty_map]
    split
    · rfl
    · simp only [List.length_append, List.length_cons, List.length_nil, List.length_map]
  simp only [reportLines, List.length_append, List.length_cons, List.length_nil, hhead, hsummary, hfindings, hissues,
    hskipped, hwarnings]

/-- The order of the findings depends on no text. -/
theorem bySeverity_erase (findings : List Finding) :
    bySeverity (findings.map eraseFinding) = (bySeverity findings).map eraseFinding := by
  rw [bySeverity, bySeverity, stableSort, stableSort]
  exact (List.map_insertionSort _ _ eraseFinding findings fun f _ g _ => Iff.rfl).symm

theorem filter_erase (p : Finding → Bool) (hp : ∀ f, p (eraseFinding f) = p f) (findings : List Finding) :
    (findings.map eraseFinding).filter p = (findings.filter p).map eraseFinding := by
  rw [List.filter_map]
  congr 1
  exact List.filter_congr fun f _ => hp f

theorem length_systemLines_erase (r : SystemDocument) (showInventory : Bool) :
    (systemLines fmt r.erase showInventory).length = (systemLines fmt r showInventory).length := by
  -- section by section: a line is written or not by what is there, never by what it says
  have hhost : (hostLines fmt r.erase).length = (hostLines fmt r).length := by
    simp only [hostLines, SystemDocument.erase, List.length_append, List.length_cons, length_lineWhenSome,
      Option.isSome_map]
  have hreview (review : List Finding) :
      (reviewLines fmt (review.map eraseFinding)).length = (reviewLines fmt review).length := by
    simp only [reviewLines, List.isEmpty_map]
    split
    · rfl
    · simp only [List.length_append, List.length_cons, List.length_nil, length_writeFindings_erase]
  have hinfo (info : List Finding) :
      (informationalLines (info.map eraseFinding)).length = (informationalLines info).length := by
    simp only [informationalLines, List.isEmpty_map]
    split
    · rfl
    · simp only [List.length_append, List.length_cons, List.length_nil, List.length_map]
  have hreferenced : ((r.erase.referencedFiles.map (referencedLines fmt)).getD []).length =
      ((r.referencedFiles.map (referencedLines fmt)).getD []).length := by
    simp only [SystemDocument.erase]
    cases r.referencedFiles with
    | none => rfl
    | some refs =>
      simp only [Option.map_some, Option.getD_some, referencedLines, List.length_append, List.length_cons,
        List.length_nil, ScanDocument.erase, length_writeFindings_erase]
  have hcounts : mechanismCounts r.erase.persistence = mechanismCounts r.persistence := by
    simp only [mechanismCounts, SystemDocument.erase, List.foldl_map]
    rfl
  have hentries : (r.erase.persistence.flatMap entryLines).length = (r.persistence.flatMap entryLines).length := by
    simp only [SystemDocument.erase, List.length_flatMap, List.map_map]
    congr 2
    funext e
    simp only [Function.comp_apply, entryLines, eraseEntry, List.length_append, List.length_cons, List.length_nil,
      length_lineWhenSome, Option.isSome_map]
  have hinventory : (inventoryLines r.erase.persistence showInventory).length =
      (inventoryLines r.persistence showInventory).length := by
    have hempty : r.erase.persistence.isEmpty = r.persistence.isEmpty := List.isEmpty_map
    simp only [inventoryLines, hcounts, hempty, List.length_append, List.length_cons, List.length_nil, List.length_map]
    split
    · rw [hentries]
    · rfl
  have hissues : (systemIssueLines r.erase.issues).length = (systemIssueLines r.issues).length := by
    simp only [systemIssueLines, SystemDocument.erase, List.isEmpty_map, List.length_map]
    split
    · rfl
    · simp only [List.length_append, List.length_cons, List.length_nil, List.length_map, List.length_take]
  have hwarnings : (r.erase.warnings.flatMap fun w => ["", "warning: " ++ sanitize w]).length =
      (r.warnings.flatMap fun w => ["", "warning: " ++ sanitize w]).length := by
    simp only [SystemDocument.erase, List.length_flatMap, List.map_map]
    rfl
  have hchecks : (r.erase.checks.map checkLine).length = (r.checks.map checkLine).length := by
    simp only [SystemDocument.erase, List.length_map]
  -- the texts decide neither the kind of a finding nor its place
  have hinfoErase (f : Finding) : isInformational (eraseFinding f) = isInformational f := rfl
  have hsorted : bySeverity r.erase.findings = (bySeverity r.findings).map eraseFinding := bySeverity_erase r.findings
  simp only [systemLines, hsorted, List.partition_eq_filter_filter, filter_erase _ hinfoErase,
    filter_erase (not ∘ isInformational) (fun f => congrArg not (hinfoErase f)), List.length_append, hhost, hreview,
    hinfo, hreferenced, hinventory, hissues, hwarnings, hchecks]

theorem lines_of_erase_eq {r r' : ScanDocument} (h : r.erase = r'.erase) (showSkipped : Bool) :
    (reportLines fmt r showSkipped).length = (reportLines fmt r' showSkipped).length := by
  rw [← length_reportLines_erase r, h, length_reportLines_erase]

theorem systemLines_of_erase_eq {r r' : SystemDocument} (h : r.erase = r'.erase) (showInventory : Bool) :
    (systemLines fmt r showInventory).length = (systemLines fmt r' showInventory).length := by
  rw [← length_systemLines_erase r, h, length_systemLines_erase]

/-- Rendered reports hold no control characters but the line feeds that end their lines, and no bidirectional
controls; how many lines they have does not depend on what the texts of the report say. -/
theorem rendered_reports_inert (fmt : Formats) (r r' : ScanDocument) (s s' : SystemDocument)
    (showSkipped showInventory : Bool) :
    InertLines (renderHuman fmt r showSkipped) (reportLines fmt r showSkipped).length ∧
    InertLines (renderSystem fmt s showInventory) (systemLines fmt s showInventory).length ∧
    (r.erase = r'.erase →
      (renderHuman fmt r showSkipped).toList.count '\n' = (renderHuman fmt r' showSkipped).toList.count '\n') ∧
    (s.erase = s'.erase →
      (renderSystem fmt s showInventory).toList.count '\n' =
        (renderSystem fmt s' showInventory).toList.count '\n') := by
  have hhuman (r : ScanDocument) : InertLines (renderHuman fmt r showSkipped) (reportLines fmt r showSkipped).length :=
    inertLines_writeLines (inert_reportLines r showSkipped)
  have hsystem (s : SystemDocument) :
      InertLines (renderSystem fmt s showInventory) (systemLines fmt s showInventory).length :=
    inertLines_writeLines (inert_systemLines s showInventory)
  refine ⟨hhuman r, hsystem s, fun h => ?_, fun h => ?_⟩
  · calc (renderHuman fmt r showSkipped).toList.count '\n'
        = (reportLines fmt r showSkipped).length := (hhuman r).lines
      _ = (reportLines fmt r' showSkipped).length := lines_of_erase_eq h showSkipped
      _ = (renderHuman fmt r' showSkipped).toList.count '\n' := (hhuman r').lines.symm
  · calc (renderSystem fmt s showInventory).toList.count '\n'
        = (systemLines fmt s showInventory).length := (hsystem s).lines
      _ = (systemLines fmt s' showInventory).length := systemLines_of_erase_eq h showInventory
      _ = (renderSystem fmt s' showInventory).toList.count '\n' := (hsystem s').lines.symm

end AbyssalWarden.Output
