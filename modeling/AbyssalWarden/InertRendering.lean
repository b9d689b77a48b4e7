import AbyssalWarden.ReportRendering
import AbyssalWarden.TextFields

/-! Rendered reports are inert. Every line is written without control and bidirectional characters, so the line feeds
of the text are those that end its lines, and how many there are does not depend on any text of the report. -/
namespace AbyssalWarden.Output

/-- No control characters and no bidirectional formatting. -/
def Inert (s : String) : Prop := ∀ c ∈ s.toList, isControl c = false ∧ isBidiControl c = false

instance : DecidablePred Inert := fun s =>
  inferInstanceAs (Decidable (∀ c ∈ s.toList, isControl c = false ∧ isBidiControl c = false))

def AllInert (lines : List String) : Prop := ∀ l ∈ lines, Inert l

variable {s t : String} {α β : Type} {ls : List String} {fmt : Formats}

/-! ### Texts -/

@[simp] theorem inert_append : Inert (s ++ t) ↔ Inert s ∧ Inert t := by
  simp only [Inert, String.toList_append, List.forall_mem_append]

theorem inert_ofList {cs : List Char} (h : ∀ c ∈ cs, isControl c = false ∧ isBidiControl c = false) :
    Inert (String.ofList cs) := by
  intro c hc
  rw [String.toList_ofList] at hc
  exact h c hc

theorem inert_of_printable {c : Char} (h : ' ' ≤ c ∧ c ≤ '~') : isControl c = false ∧ isBidiControl c = false := by
  have hlow : 0x20 ≤ c.toNat := h.1
  have hhigh : c.toNat ≤ 0x7E := h.2
  constructor
  · simp only [isControl, Bool.or_eq_false_iff, Bool.and_eq_false_imp, decide_eq_false_iff_not, decide_eq_true_eq]
    omega
  · simp only [isBidiControl, Bool.or_eq_false_iff, Bool.and_eq_false_imp, decide_eq_false_iff_not,
      decide_eq_true_eq, beq_eq_false_iff_ne]
    omega

@[simp] theorem Formatted.inert (f : Formatted) : Inert f.text := fun c hc => inert_of_printable (f.plain c hc)

theorem toDigits_printable {n : ℕ} : ∀ c ∈ Nat.toDigits 10 n, ' ' ≤ c ∧ c ≤ '~' := by
  intro c hc
  obtain ⟨hlow, hhigh⟩ := Char.isDigit_iff_toNat.mp (toDigits_isDigit hc)
  have hlow' : 0x30 ≤ c.toNat := hlow
  have hhigh' : c.toNat ≤ 0x39 := hhigh
  exact ⟨show 0x20 ≤ c.toNat by omega, show c.toNat ≤ 0x7E by omega⟩

theorem hexDigits_printable {n : ℕ} : ∀ c ∈ Nat.toDigits 16 n, ' ' ≤ c ∧ c ≤ '~' := by
  intro c hc
  obtain ⟨i, hi, rfl⟩ := toDigits_hexDigit hc
  have hall : ∀ i : Fin 16, ' ' ≤ Nat.digitChar i.val ∧ Nat.digitChar i.val ≤ '~' := by decide
  exact hall ⟨i, hi⟩

@[simp] theorem inert_toString_nat (n : ℕ) : Inert (toString n) := by
  intro c hc
  have hdigits : (toString n).toList = Nat.toDigits 10 n := by simp [toString, Nat.repr]
  rw [hdigits] at hc
  exact inert_of_printable (toDigits_printable c hc)

/-- Whatever the text is. -/
@[simp] theorem inert_sanitize (s : String) : Inert (sanitize s) := by
  refine inert_ofList fun c hc => ?_
  obtain ⟨c₀, -, hc⟩ := List.mem_flatMap.mp hc
  split_ifs at hc with hunsafe
  · -- the escape of an unsafe character
    have hprintable : ' ' ≤ c ∧ c ≤ '~' := by
      simp only [List.cons_append, List.mem_cons, List.mem_append, List.not_mem_nil, or_false] at hc
      rcases hc with rfl | rfl | rfl | hc | rfl
      · decide
      · decide
      · decide
      · exact hexDigits_printable c hc
      · decide
    exact inert_of_printable hprintable
  · rw [List.mem_singleton.mp hc]
    simpa using hunsafe

@[simp] theorem inert_path (p : ObservedPath) : Inert (path p) := by
  rw [path, inert_append]
  refine ⟨inert_sanitize _, ?_⟩
  split_ifs <;> decide

@[simp] theorem inert_located (p : ObservedPath) (member : Option (List ObservedPath)) : Inert (located p member) := by
  unfold located
  generalize member.getD [] = ms
  have hall (s : String) (hs : Inert s) : Inert (ms.foldl (fun s m => s ++ " > " ++ path m) s) := by
    induction ms generalizing s with
    | nil => exact hs
    | cons m ms ih =>
      refine ih _ ?_
      rw [inert_append, inert_append]
      exact ⟨⟨hs, by decide⟩, inert_path m⟩
  exact hall _ (inert_path p)

theorem inert_spaces (n : ℕ) : Inert (String.ofList (List.replicate n ' ')) :=
  inert_ofList fun c hc => by rw [List.eq_of_mem_replicate hc]; decide

@[simp] theorem inert_padRight {width : ℕ} : Inert (padRight width s) ↔ Inert s := by
  rw [padRight, inert_append]
  exact and_iff_left (inert_spaces _)

@[simp] theorem inert_padLeft {width : ℕ} : Inert (padLeft width s) ↔ Inert s := by
  rw [padLeft, inert_append]
  exact and_iff_right (inert_spaces _)

@[simp] theorem inert_heading {i : ℕ} : Inert (heading s i) ↔ (i = 0 → Inert s) := by
  rw [heading, inert_padRight]
  split_ifs with hi
  · simp [hi]
  · exact iff_of_true (by decide) fun h => absurd h hi

@[simp] theorem inert_digest (h : Sha256Digest) : Inert (digest h) := by
  refine inert_ofList fun c hc => inert_of_printable ?_
  obtain ⟨b, -, hc⟩ := List.mem_flatMap.mp hc
  have hdigit (n : ℕ) (hn : n < 16) : ' ' ≤ hexDigit false n ∧ hexDigit false n ≤ '~' := by
    have hall : ∀ i : Fin 16, ' ' ≤ hexDigit false i.val ∧ hexDigit false i.val ≤ '~' := by decide
    exact hall ⟨n, hn⟩
  have hlt := b.toNat_lt
  rw [hexByte, List.mem_cons, List.mem_singleton] at hc
  rcases hc with rfl | rfl
  · exact hdigit _ (by omega)
  · exact hdigit _ (by omega)

theorem inert_intercalate {sep : String} (hsep : Inert sep) (hls : ∀ l ∈ ls, Inert l) :
    Inert (sep.intercalate ls) := by
  induction ls with
  | nil => exact (by decide : Inert "")
  | cons l ls ih =>
    obtain ⟨hl, hrest⟩ := List.forall_mem_cons.mp hls
    cases ls with
    | nil =>
      rw [String.intercalate_singleton]
      exact hl
    | cons l' ls =>
      rw [String.intercalate_cons_cons, inert_append, inert_append]
      exact ⟨⟨hl, hsep⟩, ih hrest⟩

/-! ### Labels -/

/-- The names of an enumeration are inert. -/
class InertNames (α : Type) [Serialize α] : Prop where
  inert : ∀ value : α, Inert (Serialize.name value)

instance : InertNames ScanStatus := ⟨fun v => by cases v <;> decide⟩
instance : InertNames SkipReason := ⟨fun v => by cases v <;> decide⟩
instance : InertNames IssueKind := ⟨fun v => by cases v <;> decide⟩
instance : InertNames Severity := ⟨fun v => by cases v <;> decide⟩
instance : InertNames Confidence := ⟨fun v => by cases v <;> decide⟩
instance : InertNames FindingKind := ⟨fun v => by cases v <;> decide⟩
instance : InertNames ThreatCategory := ⟨fun v => by cases v <;> decide⟩
instance : InertNames RecommendedAction := ⟨fun v => by cases v <;> decide⟩
instance : InertNames RemediationStatus := ⟨fun v => by cases v <;> decide⟩
instance : InertNames PersistenceScope := ⟨fun v => by cases v <;> decide⟩
instance : InertNames PersistenceMechanism := ⟨fun v => by cases v <;> decide⟩

@[simp] theorem inert_label [Serialize α] [InertNames α] (value : α) : Inert (label value) := by
  refine inert_ofList fun c hc => ?_
  obtain ⟨c₀, hc₀, rfl⟩ := List.mem_map.mp hc
  split_ifs
  · decide
  · exact InertNames.inert value c₀ hc₀

@[simp] theorem inert_toUppercase_label : ∀ severity : Severity, Inert (toUppercase (label severity)) := by
  intro severity
  cases severity <;> decide

/-! ### Lines -/

@[simp] theorem allInert_nil : AllInert [] := nofun

@[simp] theorem allInert_cons : AllInert (s :: ls) ↔ Inert s ∧ AllInert ls := List.forall_mem_cons

@[simp] theorem allInert_append {ls' : List String} : AllInert (ls ++ ls') ↔ AllInert ls ∧ AllInert ls' :=
  List.forall_mem_append

theorem allInert_map {l : List α} {f : α → String} (h : ∀ a, Inert (f a)) : AllInert (l.map f) := by
  intro s hs
  obtain ⟨a, -, rfl⟩ := List.mem_map.mp hs
  exact h a

theorem allInert_mapIdx {l : List α} {f : ℕ → α → String} (h : ∀ i a, Inert (f i a)) : AllInert (l.mapIdx f) := by
  intro s hs
  obtain ⟨i, hi, rfl⟩ := List.mem_mapIdx.mp hs
  exact h i _

theorem allInert_flatMap {l : List α} {f : α → List String} (h : ∀ a, AllInert (f a)) : AllInert (l.flatMap f) := by
  intro s hs
  obtain ⟨a, -, hs⟩ := List.mem_flatMap.mp hs
  exact h a s hs

theorem inert_whenSome {field : Option α} {f : α → String} (h : ∀ a, Inert (f a)) : Inert (whenSome field f) := by
  cases field with
  | none => exact (by decide : Inert "")
  | some a => exact h a

theorem allInert_lineWhenSome {field : Option α} {f : α → String} (h : ∀ a, Inert (f a)) :
    AllInert (lineWhenSome field f) := by
  cases field with
  | none => exact allInert_nil
  | some a => exact allInert_cons.mpr ⟨h a, allInert_nil⟩

theorem inert_listSuffix {listed total : ℕ} : Inert (listSuffix listed total) := by
  simp only [listSuffix]
  split_ifs
  · decide
  · simp +decide only [inert_append, inert_toString_nat, and_self]

/-! ### Findings -/

theorem inert_sourceLine (src : DetectionSource) : Inert (sourceLine src) := by
  unfold sourceLine
  rw [inert_append, inert_append]
  refine ⟨⟨?_, ?_⟩, ?_⟩
  · simp +decide only [inert_append, inert_sanitize, and_self]
  · refine inert_whenSome fun rule => ?_
    rw [inert_append]
    refine ⟨inert_append.mpr ⟨by decide, inert_sanitize rule⟩, inert_whenSome fun v => ?_⟩
    simp +decide only [inert_append, inert_toString_nat, and_self]
  · split
    · simp +decide only [inert_append, inert_sanitize, and_self]
    · decide

theorem inert_remediationLine (f : Finding) : Inert (remediationLine f) := by
  unfold remediationLine
  split
  · simp +decide only [inert_append, inert_label, and_self]
  · simp +decide only [inert_append, inert_label, true_and]
    refine inert_whenSome fun d => ?_
    simp +decide only [inert_append, inert_sanitize, and_self]

theorem inert_targetLines (target : FindingTarget) : AllInert (targetLines target) := by
  cases target with
  | file p sha256 metadata =>
    simp +decide only [targetLines, allInert_cons, inert_append, inert_path, true_and]
    refine allInert_lineWhenSome fun h => ?_
    simp +decide only [inert_append, inert_digest, and_self]
  | archiveMember archive member sha256 size =>
    simp +decide only [targetLines, allInert_cons, inert_append, inert_located, true_and]
    refine allInert_lineWhenSome fun h => ?_
    simp +decide only [inert_append, inert_digest, and_self]
  | persistence mechanism location entry =>
    simp +decide only [targetLines, allInert_cons, inert_append, inert_path, inert_label, true_and]
    refine allInert_lineWhenSome fun e => ?_
    simp +decide only [inert_append, inert_sanitize, and_self]
  | process pid name exe =>
    simp +decide only [targetLines, allInert_cons, allInert_nil, inert_append, inert_sanitize, inert_toString_nat,
      true_and, and_true]
    refine inert_whenSome fun e => ?_
    simp +decide only [inert_append, inert_path, and_self]
  | system component =>
    simp +decide only [targetLines, allInert_cons, allInert_nil, inert_append, inert_sanitize, and_self]

theorem inert_writeFinding (n : ℕ) (f : Finding) : AllInert (writeFinding fmt n f) := by
  have hevidence : AllInert (f.evidence.map fun e => "     Evidence:     " ++ sanitize e.summary) := by
    refine allInert_map fun e => ?_
    simp +decide only [inert_append, inert_sanitize, and_self]
  have hguidance : AllInert (lineWhenSome f.remediationGuidance fun g => "     Guidance:     " ++ sanitize g) := by
    refine allInert_lineWhenSome fun g => ?_
    simp +decide only [inert_append, inert_sanitize, and_self]
  simp +decide only [writeFinding, allInert_append, allInert_cons, allInert_nil, inert_append, inert_sanitize,
    inert_label, inert_toString_nat, inert_toUppercase_label, inert_targetLines, inert_sourceLine,
    inert_remediationLine, Formatted.inert, hevidence, hguidance, and_self]

theorem inert_writeFindings (findings : List Finding) : AllInert (writeFindings fmt findings) := by
  intro l hl
  obtain ⟨ls, hls, hl⟩ := List.mem_flatten.mp hl
  obtain ⟨i, hi, rfl⟩ := List.mem_mapIdx.mp hls
  exact inert_writeFinding _ _ l hl

/-! ### A scan report -/

theorem inert_headLines (r : ScanDocument) : AllInert (headLines fmt r) := by
  have hroots : AllInert (r.roots.mapIdx fun i root => "  " ++ heading "Scanned:" i ++ " " ++ path root) := by
    refine allInert_mapIdx fun i root => ?_
    simp +decide only [inert_append, inert_heading, inert_path, and_self, implies_true]
  have hdetectors : AllInert (r.detectors.mapIdx detectorLine) := by
    refine allInert_mapIdx fun i d => ?_
    simp +decide only [detectorLine, inert_append, inert_heading, inert_sanitize, implies_true, true_and]
    refine inert_whenSome fun db => ?_
    simp +decide only [inert_append, inert_sanitize, inert_toString_nat, true_and, and_true]
    cases db.signer with
    | none => decide
    | some k => exact inert_append.mpr ⟨by decide, inert_sanitize k⟩
  have hbundles : AllInert (r.contentBundles.mapIdx (bundleLine fmt)) := by
    refine allInert_mapIdx fun i b => ?_
    simp +decide only [bundleLine, inert_append, inert_heading, inert_sanitize, inert_toString_nat, Formatted.inert,
      implies_true, true_and]
    split_ifs <;> decide
  have hstatus : Inert (statusLine r.status) := by
    cases r.status <;> decide
  have hnone : AllInert (if r.detectors.isEmpty then ["  Detectors:   none"] else []) := by
    split_ifs
    · exact allInert_cons.mpr ⟨by decide, allInert_nil⟩
    · exact allInert_nil
  simp +decide only [headLines, allInert_append, allInert_cons, allInert_nil, inert_append, Formatted.inert, hstatus,
    hroots, hnone, hdetectors, hbundles, and_self]

theorem inert_skippedLine (s : ScanStats) : Inert (skippedLine s) := by
  unfold skippedLine
  rw [inert_append, inert_append]
  refine ⟨⟨by decide, inert_toString_nat _⟩, ?_⟩
  split_ifs
  · decide
  · simp +decide only [inert_append, true_and, and_true]
    refine inert_intercalate (by decide) fun l hl => ?_
    obtain ⟨⟨reason, n⟩, -, rfl⟩ := List.mem_map.mp hl
    simp +decide only [inert_append, inert_label, inert_toString_nat, and_self]

theorem inert_summaryLines (r : ScanDocument) : AllInert (summaryLines fmt r) := by
  have hmembers : AllInert (if r.stats.archiveMembersScanned > 0 then
      ["  Archive members:      " ++ toString r.stats.archiveMembersScanned] else []) := by
    split_ifs
    · simp +decide only [allInert_cons, allInert_nil, inert_append, inert_toString_nat, and_self]
    · exact allInert_nil
  have hfindings : Inert (if allowedCount r > 0 then
      "  Findings:             " ++ toString r.stats.findings ++ " (" ++ toString (allowedCount r) ++
        " allow-listed by you)"
      else "  Findings:             " ++ toString r.stats.findings) := by
    split_ifs
    · simp +decide only [inert_append, inert_toString_nat, and_self]
    · simp +decide only [inert_append, inert_toString_nat, and_self]
  simp +decide only [summaryLines, allInert_append, allInert_cons, allInert_nil, inert_append, inert_toString_nat,
    inert_skippedLine, Formatted.inert, hmembers, hfindings, and_self]

theorem inert_issueLine (issue : ScanIssue) : Inert (issueLine issue) := by
  simp +decide only [issueLine, inert_append, inert_padRight, inert_label, inert_sanitize, true_and, and_true]
  constructor
  · exact inert_whenSome fun p => inert_located p issue.member
  · refine inert_whenSome fun d => ?_
    simp +decide only [inert_append, inert_sanitize, and_self]

theorem inert_closingLine (r : ScanDocument) : Inert (closingLine r) := by
  simp only [closingLine]
  split_ifs
  · decide
  · decide
  · simp +decide only [inert_append, inert_toString_nat, and_self]
  · simp +decide only [inert_append, inert_toString_nat, and_self]
  · simp +decide only [inert_append, inert_toString_nat, and_self]

theorem inert_findingLines (r : ScanDocument) : AllInert (findingLines fmt r) := by
  unfold findingLines
  split_ifs
  · exact allInert_nil
  · simp +decide only [allInert_append, allInert_cons, allInert_nil, inert_append, inert_writeFindings,
      inert_toString_nat, and_self]
  · simp +decide only [allInert_append, allInert_cons, allInert_nil, inert_writeFindings, and_self]

theorem inert_issueLines (r : ScanDocument) : AllInert (issueLines r) := by
  unfold issueLines
  split_ifs
  · exact allInert_nil
  · simp +decide only [allInert_append, allInert_cons, allInert_nil, inert_append, inert_listSuffix, true_and]
    exact allInert_map inert_issueLine

theorem inert_skippedLines (r : ScanDocument) (showSkipped : Bool) : AllInert (skippedLines r showSkipped) := by
  unfold skippedLines
  split_ifs
  · simp +decide only [allInert_append, allInert_cons, allInert_nil, inert_append, inert_listSuffix, true_and]
    refine allInert_map fun sk => ?_
    simp +decide only [inert_append, inert_padRight, inert_label, inert_located, and_self]
  · exact allInert_nil

theorem inert_warningLines (r : ScanDocument) : AllInert (warningLines r) := by
  unfold warningLines
  split_ifs
  · exact allInert_nil
  · simp +decide only [allInert_append, allInert_cons, allInert_nil, true_and]
    refine allInert_map fun w => ?_
    simp +decide only [inert_append, inert_sanitize, and_self]

theorem inert_reportLines (r : ScanDocument) (showSkipped : Bool) : AllInert (reportLines fmt r showSkipped) := by
  simp +decide only [reportLines, allInert_append, allInert_cons, allInert_nil, inert_headLines, inert_summaryLines,
    inert_findingLines, inert_issueLines, inert_skippedLines, inert_warningLines, inert_closingLine, and_self]

/-! ### A system report -/

theorem inert_hostLines (r : SystemDocument) : AllInert (hostLines fmt r) := by
  have hroot : Inert (if r.host.live then " (running system)"
      else " (offline; kernel and process checks do not apply)") := by
    split_ifs <;> decide
  have hname : AllInert (lineWhenSome r.host.hostname fun name => "  Host:      " ++ sanitize name) := by
    refine allInert_lineWhenSome fun name => ?_
    simp +decide only [inert_append, inert_sanitize, and_self]
  have hkernel : AllInert (lineWhenSome r.host.kernel fun k => "  Kernel:    " ++ sanitize k) := by
    refine allInert_lineWhenSome fun k => ?_
    simp +decide only [inert_append, inert_sanitize, and_self]
  have huid : AllInert (lineWhenSome r.host.euid fun uid =>
      "  Run as:    uid " ++ toString uid ++ if uid = 0 then "" else " (not root: coverage is limited)") := by
    refine allInert_lineWhenSome fun uid => ?_
    simp +decide only [inert_append, inert_toString_nat, true_and]
    split_ifs <;> decide
  simp +decide only [hostLines, allInert_append, allInert_cons, allInert_nil, inert_append, inert_path,
    Formatted.inert, hroot, hname, hkernel, huid, and_self]

theorem inert_checkLine (c : CheckResult) : Inert (checkLine c) := by
  have hstatus : Inert c.status.text := by
    cases c.status <;> decide
  simp +decide only [checkLine, inert_append, inert_padLeft, inert_sanitize, inert_toString_nat, hstatus, true_and]
  refine inert_whenSome fun d => ?_
  simp +decide only [inert_append, inert_sanitize, and_self]

theorem inert_reviewLines (review : List Finding) : AllInert (reviewLines fmt review) := by
  unfold reviewLines
  split_ifs
  · exact allInert_cons.mpr ⟨by decide, allInert_cons.mpr ⟨by decide, allInert_nil⟩⟩
  · simp +decide only [allInert_append, allInert_cons, allInert_nil, inert_append, inert_toString_nat,
      inert_writeFindings, and_self]

theorem inert_informationalLines (info : List Finding) : AllInert (informationalLines info) := by
  unfold informationalLines
  split_ifs
  · exact allInert_nil
  · simp +decide only [allInert_append, allInert_cons, allInert_nil, inert_append, inert_toString_nat, true_and]
    refine allInert_map fun f => ?_
    simp +decide only [informationalLine, inert_append, inert_sanitize, and_self]

theorem inert_referencedLines (refs : ScanDocument) : AllInert (referencedLines fmt refs) := by
  simp +decide only [referencedLines, allInert_append, allInert_cons, allInert_nil, inert_append, inert_toString_nat,
    inert_writeFindings, true_and, and_true]
  split_ifs <;> decide

/-- The names that are counted are labels. -/
theorem inert_mechanismCounts {entries : List InventoryEntry} {m : String} (h : m ∈ mechanismCounts entries) :
    Inert m := by
  have hall : ∀ counts : BTreeMap String ℕ, (∀ m ∈ counts, Inert m) →
      ∀ m ∈ entries.foldl (fun counts e => counts.insert (label e.mechanism)
        (counts[label e.mechanism]?.getD 0 + 1)) counts, Inert m := by
    clear h
    induction entries with
    | nil => exact fun _ hcounts => hcounts
    | cons e entries ih =>
      intro counts hcounts
      refine ih _ fun m hm => ?_
      rcases Std.ExtTreeMap.mem_insert.mp hm with hm | hm
      · rw [← Std.LawfulEqOrd.compare_eq_iff_eq.mp hm]
        exact inert_label _
      · exact hcounts m hm
  exact hall ∅ (fun m hm => absurd hm Std.ExtTreeMap.not_mem_empty) m h

theorem inert_mechanismLines (entries : List InventoryEntry) :
    AllInert ((mechanismCounts entries).toList.map fun (m, n) => "  " ++ padRight 22 m ++ " " ++ toString n) := by
  intro l hl
  obtain ⟨⟨m, n⟩, hmem, rfl⟩ := List.mem_map.mp hl
  have hm : m ∈ mechanismCounts entries := by
    rw [Std.ExtTreeMap.mem_iff_isSome_getElem?, Std.ExtTreeMap.mem_toList_iff_getElem?_eq_some.mp hmem]
    rfl
  simp +decide only [inert_append, inert_padRight, inert_mechanismCounts hm, inert_toString_nat, and_self]

theorem inert_inventoryLines (entries : List InventoryEntry) (showInventory : Bool) :
    AllInert (inventoryLines entries showInventory) := by
  have hcounts := inert_mechanismLines entries
  have hentries : AllInert (entries.flatMap entryLines) := by
    refine allInert_flatMap fun e => ?_
    have hcommand : AllInert (lineWhenSome e.command fun c => "      runs: " ++ sanitize c) := by
      refine allInert_lineWhenSome fun c => ?_
      simp +decide only [inert_append, inert_sanitize, and_self]
    have hdetail : AllInert (lineWhenSome e.detail fun d => "      " ++ sanitize d) := by
      refine allInert_lineWhenSome fun d => ?_
      simp +decide only [inert_append, inert_sanitize, and_self]
    simp +decide only [entryLines, allInert_append, allInert_cons, allInert_nil, inert_append, inert_label, inert_path,
      hcommand, hdetail, true_and, and_true]
    split <;> decide
  simp +decide only [inventoryLines, allInert_append, allInert_cons, allInert_nil, inert_append, inert_toString_nat,
    hcounts, true_and]
  split_ifs
  · exact hentries
  · exact allInert_nil
  · exact allInert_cons.mpr ⟨by decide, allInert_nil⟩

theorem inert_systemIssueLines (issues : List ScanIssue) : AllInert (systemIssueLines issues) := by
  unfold systemIssueLines
  have hlisted : AllInert ((issues.take listLimit).map fun i =>
      "  - " ++ whenSome i.path path ++ ": " ++ sanitize i.message) := by
    refine allInert_map fun i => ?_
    simp +decide only [inert_append, inert_sanitize, inert_whenSome inert_path, and_self]
  split_ifs
  · exact allInert_nil
  · simp +decide only [allInert_append, allInert_cons, allInert_nil, inert_append, inert_toString_nat, hlisted, and_self]
  · simp +decide only [allInert_append, allInert_cons, allInert_nil, inert_append, inert_toString_nat, hlisted, and_self]

theorem inert_systemLines (r : SystemDocument) (showInventory : Bool) : AllInert (systemLines fmt r showInventory) := by
  have hchecks : AllInert (r.checks.map checkLine) := allInert_map inert_checkLine
  have hreferenced : AllInert ((r.referencedFiles.map (referencedLines fmt)).getD []) := by
    cases r.referencedFiles with
    | none => exact allInert_nil
    | some refs => exact inert_referencedLines refs
  have hwarnings : AllInert (r.warnings.flatMap fun w => ["", "warning: " ++ sanitize w]) := by
    refine allInert_flatMap fun w => ?_
    simp +decide only [allInert_cons, allInert_nil, inert_append, inert_sanitize, and_self]
  simp +decide only [systemLines, allInert_append, allInert_cons, allInert_nil, inert_hostLines, inert_reviewLines,
    inert_informationalLines, inert_inventoryLines, inert_systemIssueLines, hchecks, hreferenced, hwarnings, and_self]

/-! ### The lines of a text -/

/-- Control characters are line feeds, and there are this many of them. -/
structure InertLines (text : String) (n : ℕ) : Prop where
  bidi : ∀ c ∈ text.toList, isBidiControl c = false
  control : ∀ c ∈ text.toList, isControl c = true → c = '\n'
  lines : text.toList.count '\n' = n

/-- The line feeds of inert lines are those that end them. -/
theorem inertLines_writeLines (h : AllInert ls) : InertLines (writeLines ls) ls.length := by
  -- a line feed is only at the end of a line
  have hmem : ∀ c ∈ (writeLines ls).toList, c = '\n' ∨ isControl c = false ∧ isBidiControl c = false := by
    intro c hc
    rw [writeLines, String.toList_join, List.mem_flatMap] at hc
    obtain ⟨_, hline, hc⟩ := hc
    obtain ⟨l, hl, rfl⟩ := List.mem_map.mp hline
    rw [String.toList_append, List.mem_append] at hc
    rcases hc with hc | hc
    · exact .inr (h l hl c hc)
    · exact .inl (List.mem_singleton.mp hc)
  constructor
  · intro c hc
    rcases hmem c hc with rfl | ⟨-, hbidi⟩
    · decide
    · exact hbidi
  · intro c hc hcontrol
    rcases hmem c hc with rfl | ⟨hnone, -⟩
    · rfl
    · exact nomatch hcontrol.symm.trans hnone
  · clear hmem
    induction ls with
    | nil => rfl
    | cons l ls ih =>
      obtain ⟨hl, hls⟩ := allInert_cons.mp h
      have hnone : l.toList.count '\n' = 0 := by
        rw [List.count_eq_zero]
        intro hmem
        exact nomatch (hl _ hmem).1
      have hline : (l ++ "\n").toList.count '\n' = 1 := by
        rw [String.toList_append, List.count_append, hnone]
        rfl
      rw [writeLines, List.map_cons, String.join_cons, String.toList_append, List.count_append, hline]
      have hrest := ih hls
      rw [writeLines] at hrest
      rw [hrest, List.length_cons]
      omega

end AbyssalWarden.Output
