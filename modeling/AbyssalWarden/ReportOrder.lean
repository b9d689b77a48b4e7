import AbyssalWarden.Aggregator

/-! A report does not show in which order the messages came in. Each message is a few steps of the aggregator, and
each of its three lists is filled by the steps that are for it alone; sorting brings the entries of a path together,
and one message has all of them. -/
namespace AbyssalWarden

/-! ### Steps -/

/-- What one message makes the aggregator do, one after the other. -/
inductive AggStep where
  | directory
  | scanned (bytes members : ℕ)
  | finding (f : Finding)
  | issue (i : ScanIssue)
  | skip (entry : SkippedEntry)

def Msg.steps : Msg → List AggStep
  | .directory => [.directory]
  | .scanned path bytes findings issues skips members =>
    .scanned bytes members :: (findings.map .finding ++ issues.map .issue ++
      skips.map fun (reason, member) => .skip ⟨ObservedPath.fromPath path, reason, member⟩)
  | .skipped path reason => [.skip ⟨ObservedPath.fromPath path, reason, none⟩]
  | .issue i => [.issue i]
  | .exited => []

def ScanStats.count (stats : ScanStats) : AggStep → ScanStats
  | .directory => { stats with directoriesVisited := stats.directoriesVisited + 1 }
  | .scanned bytes members =>
    { stats with
      filesScanned := stats.filesScanned + 1
      bytesScanned := stats.bytesScanned + bytes
      archiveMembersScanned := stats.archiveMembersScanned + members }
  | .finding _ => { stats with findings := stats.findings + 1 }
  | .issue _ => { stats with issues := stats.issues + 1 }
  | .skip entry =>
    { stats with
      entriesSkipped := stats.entriesSkipped + 1
      skippedByReason := countReason stats.skippedByReason entry.reason }

def Aggregator.take (agg : Aggregator) : AggStep → Aggregator
  | .directory => { agg with stats := agg.stats.count .directory }
  | .scanned bytes members => { agg with stats := agg.stats.count (.scanned bytes members) }
  | .finding f => agg.finding f
  | .issue i => agg.issue i
  | .skip entry =>
    let (skipped, omitted) := recordEntry agg.maxEntries agg.skipped agg.truncated.skippedOmitted entry
    { agg with
      stats := agg.stats.count (.skip entry)
      skipped := skipped
      truncated := { agg.truncated with skippedOmitted := omitted } }

theorem handle_eq (agg : Aggregator) (msg : Msg) : agg.handle msg = msg.steps.foldl Aggregator.take agg := by
  cases msg with
  | directory => rfl
  | scanned path bytes findings issues skips members =>
    rw [Msg.steps, List.foldl_cons, List.foldl_append, List.foldl_append, List.foldl_map, List.foldl_map,
      List.foldl_map]
    rfl
  | skipped path reason => rfl
  | issue i => rfl
  | exited => rfl

/-- All steps of a scan. -/
def scanSteps (targetIssues : List ScanIssue) (msgs : List Msg) : List AggStep :=
  targetIssues.map .issue ++ msgs.flatMap Msg.steps

theorem report_eq (scanner : Scanner) (targetIssues : List ScanIssue) (status : ScanStatus)
    (stopReason : Option StopReason) (abandoned : ℕ) (msgs : List Msg) :
    scanner.report targetIssues status stopReason abandoned msgs =
      ((scanSteps targetIssues msgs).foldl Aggregator.take (Aggregator.new scanner.config)).finish scanner status
        stopReason abandoned := by
  have hmsgs (agg : Aggregator) : msgs.foldl Aggregator.handle agg = (msgs.flatMap Msg.steps).foldl Aggregator.take agg := by
    induction msgs generalizing agg with
    | nil => rfl
    | cons msg msgs ih => rw [List.foldl_cons, ih, handle_eq, List.flatMap_cons, List.foldl_append]
  rw [Scanner.report, hmsgs, scanSteps, List.foldl_append, List.foldl_map]
  rfl

/-! ### Counting -/

theorem countReason_comm (counts : BTreeMap SkipReason ℕ) (r r' : SkipReason) :
    countReason (countReason counts r) r' = countReason (countReason counts r') r := by
  by_cases hr : r = r'
  · rw [hr]
  · refine Std.ExtTreeMap.ext_getElem? fun k => ?_
    simp only [countReason, get_insert, if_neg hr, if_neg (Ne.symm hr)]
    by_cases hk : r = k
    · rw [if_pos hk, if_neg (fun h => hr (hk.trans h.symm)), if_pos hk]
    · rw [if_neg hk, if_neg hk]

instance : RightCommutative ScanStats.count where
  right_comm stats a b := by
    cases a <;> cases b <;> simp only [ScanStats.count, Nat.add_right_comm, countReason_comm]

theorem stats_take (agg : Aggregator) (s : AggStep) : (agg.take s).stats = agg.stats.count s := by
  cases s <;> rfl

theorem stats_foldl (agg : Aggregator) (steps : List AggStep) :
    (steps.foldl Aggregator.take agg).stats = steps.foldl ScanStats.count agg.stats := by
  induction steps generalizing agg with
  | nil => rfl
  | cons s steps ih => rw [List.foldl_cons, List.foldl_cons, ih, stats_take]

/-! ### Recording -/

/-- One of the three lists: the steps that are for it, how many the statistics count, and what is recorded of them. -/
structure Lane (α : Type) where
  pick : AggStep → Option α
  limit : Aggregator → ℕ
  recorded : Aggregator → List α
  omitted : Aggregator → ℕ
  counted : ScanStats → ℕ
  limit_take : ∀ agg s, limit (agg.take s) = limit agg
  count : ∀ stats s, counted (stats.count s) = counted stats + (pick s).toList.length
  record_some : ∀ agg s a, pick s = some a →
    (recorded (agg.take s), omitted (agg.take s)) = recordEntry (limit agg) (recorded agg) (omitted agg) a
  record_none : ∀ agg s, pick s = none →
    recorded (agg.take s) = recorded agg ∧ omitted (agg.take s) = omitted agg

/-- Every step of the lane is counted, and recorded up to the limit. -/
structure Lane.Accounts {α : Type} (lane : Lane α) (agg : Aggregator) : Prop where
  counted : lane.counted agg.stats = (lane.recorded agg).length + lane.omitted agg
  bounded : (lane.recorded agg).length ≤ lane.limit agg

namespace Lane

variable {α : Type} {lane : Lane α} {agg : Aggregator}

theorem take_accounts (h : lane.Accounts agg) (s : AggStep) : lane.Accounts (agg.take s) := by
  have hcounted : lane.counted (agg.take s).stats = lane.counted agg.stats + (lane.pick s).toList.length := by
    rw [stats_take, lane.count]
  cases hpick : lane.pick s with
  | none =>
    obtain ⟨hrecorded, homitted⟩ := lane.record_none agg s hpick
    refine ⟨?_, ?_⟩
    · rw [hcounted, hpick, hrecorded, homitted, h.counted]
      rfl
    · rw [hrecorded, lane.limit_take]
      exact h.bounded
  | some a =>
    have hrecord := lane.record_some agg s a hpick
    rw [recordEntry] at hrecord
    have hcount := h.counted
    have hone : (some a).toList.length = 1 := rfl
    by_cases hroom : (lane.recorded agg).length < lane.limit agg
    · rw [if_pos hroom] at hrecord
      obtain ⟨hrecorded, homitted⟩ := Prod.mk.inj hrecord
      have hlength : (lane.recorded (agg.take s)).length = (lane.recorded agg).length + 1 := by
        rw [hrecorded, List.length_append, List.length_singleton]
      refine ⟨?_, ?_⟩
      · rw [hcounted, hpick, hone, homitted]
        omega
      · rw [lane.limit_take]
        omega
    · rw [if_neg hroom] at hrecord
      obtain ⟨hrecorded, homitted⟩ := Prod.mk.inj hrecord
      refine ⟨?_, ?_⟩
      · rw [hcounted, hpick, hone, hrecorded, homitted]
        omega
      · rw [hrecorded, lane.limit_take]
        exact h.bounded

theorem foldl_accounts (h : lane.Accounts agg) (steps : List AggStep) :
    lane.Accounts (steps.foldl Aggregator.take agg) := by
  induction steps generalizing agg with
  | nil => exact h
  | cons s steps ih => exact ih (take_accounts h s)

theorem limit_foldl (agg : Aggregator) (steps : List AggStep) :
    lane.limit (steps.foldl Aggregator.take agg) = lane.limit agg := by
  induction steps generalizing agg with
  | nil => rfl
  | cons s steps ih => rw [List.foldl_cons, ih, lane.limit_take]

/-- The entries are recorded in the order of the steps, as long as there is room. -/
theorem record_foldl (agg : Aggregator) (steps : List AggStep) :
    lane.recorded (steps.foldl Aggregator.take agg) =
        lane.recorded agg ++ (steps.filterMap lane.pick).take (lane.limit agg - (lane.recorded agg).length) ∧
      lane.omitted (steps.foldl Aggregator.take agg) =
        lane.omitted agg + ((steps.filterMap lane.pick).length - (lane.limit agg - (lane.recorded agg).length)) := by
  induction steps generalizing agg with
  | nil => simp
  | cons s steps ih =>
    obtain ⟨hrest, hrest'⟩ := ih (agg.take s)
    rw [List.foldl_cons, hrest, hrest', lane.limit_take]
    cases hpick : lane.pick s with
    | none =>
      obtain ⟨hrecorded, homitted⟩ := lane.record_none agg s hpick
      rw [hrecorded, homitted, List.filterMap_cons_none hpick]
      exact ⟨rfl, rfl⟩
    | some a =>
      have hrecord := lane.record_some agg s a hpick
      rw [recordEntry] at hrecord
      rw [List.filterMap_cons_some hpick]
      -- recorded while there is room, counted afterwards
      by_cases hroom : (lane.recorded agg).length < lane.limit agg
      · rw [if_pos hroom] at hrecord
        obtain ⟨hrecorded, homitted⟩ := Prod.mk.inj hrecord
        have hleft : lane.limit agg - (lane.recorded agg).length =
            lane.limit agg - ((lane.recorded agg).length + 1) + 1 := by
          omega
        rw [hrecorded, homitted, List.length_append, List.length_singleton, hleft, List.take_succ_cons,
          List.append_assoc, List.length_cons]
        exact ⟨rfl, by omega⟩
      · rw [if_neg hroom] at hrecord
        obtain ⟨hrecorded, homitted⟩ := Prod.mk.inj hrecord
        have hleft : lane.limit agg - (lane.recorded agg).length = 0 := by
          omega
        rw [hrecorded, homitted, hleft, List.take_zero, List.take_zero, List.length_cons]
        exact ⟨rfl, by omega⟩

end Lane

def findingLane : Lane Finding where
  pick
    | .finding f => some f
    | _ => none
  limit := Aggregator.maxFindings
  recorded := Aggregator.findings
  omitted agg := agg.truncated.findingsOmitted
  counted := ScanStats.findings
  limit_take _ s := by cases s <;> rfl
  count _ s := by cases s <;> rfl
  record_some _ s _ h := by
    cases s <;> cases h
    rfl
  record_none _ s h := by cases s <;> first | exact ⟨rfl, rfl⟩ | cases h

def issueLane : Lane ScanIssue where
  pick
    | .issue i => some i
    | _ => none
  limit := Aggregator.maxEntries
  recorded := Aggregator.issues
  omitted agg := agg.truncated.issuesOmitted
  counted := ScanStats.issues
  limit_take _ s := by cases s <;> rfl
  count _ s := by cases s <;> rfl
  record_some _ s _ h := by
    cases s <;> cases h
    rfl
  record_none _ s h := by cases s <;> first | exact ⟨rfl, rfl⟩ | cases h

def skipLane : Lane SkippedEntry where
  pick
    | .skip entry => some entry
    | _ => none
  limit := Aggregator.maxEntries
  recorded := Aggregator.skipped
  omitted agg := agg.truncated.skippedOmitted
  counted := ScanStats.entriesSkipped
  limit_take _ s := by cases s <;> rfl
  count _ s := by cases s <;> rfl
  record_some _ s _ h := by
    cases s <;> cases h
    rfl
  record_none _ s h := by cases s <;> first | exact ⟨rfl, rfl⟩ | cases h

/-! ### The order of the messages -/

variable {α κ : Type} [LinearOrder κ] {msgs msgs' : List Msg}

/-- The paths that a message is about, and those that its findings and issues name. -/
def Msg.paths : Msg → List ObservedPath
  | .directory => []
  | .scanned path _ findings issues _ _ =>
    ObservedPath.fromPath path :: (findings.filterMap (·.target.path) ++ issues.filterMap ScanIssue.path)
  | .skipped path _ => [ObservedPath.fromPath path]
  | .issue i => i.path.toList
  | .exited => []

/-- Each path occurs in at most one message. -/
def OncePerPath (msgs : List Msg) : Prop := msgs.Pairwise fun m m' => ∀ p ∈ m.paths, p ∉ m'.paths

/-- What the messages have for a lane. -/
def Lane.entries (lane : Lane α) (msgs : List Msg) : List α := (msgs.flatMap Msg.steps).filterMap lane.pick

/-- Findings and issues that name no path come in the same order. -/
structure SameUnplaced (msgs msgs' : List Msg) : Prop where
  findings : (findingLane.entries msgs).filter (·.target.path = none) =
    (findingLane.entries msgs').filter (·.target.path = none)
  issues : (issueLane.entries msgs).filter (·.path = none) = (issueLane.entries msgs').filter (·.path = none)

theorem Lane.entries_eq (lane : Lane α) (msgs : List Msg) :
    lane.entries msgs = msgs.flatMap fun m => m.steps.filterMap lane.pick := by
  induction msgs with
  | nil => rfl
  | cons m msgs ih =>
    rw [List.flatMap_cons, ← ih]
    exact List.filterMap_append

def AggStep.path : AggStep → Option ObservedPath
  | .directory => none
  | .scanned _ _ => none
  | .finding f => f.target.path
  | .issue i => i.path
  | .skip entry => some entry.path

theorem mem_steps_paths {m : Msg} {s : AggStep} {p : ObservedPath} (h : s ∈ m.steps) (hp : s.path = some p) :
    p ∈ m.paths := by
  cases m with
  | directory =>
    rw [List.mem_singleton.mp h] at hp
    cases hp
  | scanned path bytes findings issues skips members =>
    simp only [Msg.steps, List.mem_cons, List.mem_append, List.mem_map] at h
    obtain rfl | (⟨f, hf, rfl⟩ | ⟨i, hi, rfl⟩) | ⟨⟨reason, member⟩, -, rfl⟩ := h
    · cases hp
    · exact List.mem_cons_of_mem _ (List.mem_append_left _ (List.mem_filterMap.mpr ⟨f, hf, hp⟩))
    · exact List.mem_cons_of_mem _ (List.mem_append_right _ (List.mem_filterMap.mpr ⟨i, hi, hp⟩))
    · obtain rfl := Option.some.inj hp
      exact List.mem_cons_self
  | skipped path reason =>
    rw [List.mem_singleton.mp h] at hp
    obtain rfl := Option.some.inj hp
    exact List.mem_cons_self
  | issue i =>
    rw [List.mem_singleton.mp h] at hp
    exact Option.mem_toList.mpr hp
  | exited => exact absurd h List.not_mem_nil

/-- Messages that share no path agree, in any order, on what they have at a key that tells the path. -/
theorem entries_atKey {lane : Lane α} {key : α → κ} {path : α → Option ObservedPath}
    (hkey : ∀ a b, key a = key b → path a = path b)
    (hpath : ∀ s a, lane.pick s = some a → s.path = path a)
    (hperm : msgs.Perm msgs') (honce : OncePerPath msgs)
    (hunplaced : (lane.entries msgs).filter (path · = none) = (lane.entries msgs').filter (path · = none)) (k : κ) :
    atKey key k (lane.entries msgs) = atKey key k (lane.entries msgs') := by
  by_cases hused : ∃ a, key a = k
  · obtain ⟨a, ha⟩ := hused
    have hsame (b : α) (hb : key b = k) : path b = path a := hkey b a (hb.trans ha.symm)
    cases hplace : path a with
    | none =>
      -- what names no path keeps its order by hypothesis
      have hnone (l : List α) : atKey key k (l.filter (path · = none)) = atKey key k l := by
        refine atKey_filter fun b _ hb => ?_
        simpa using (hsame b hb).trans hplace
      rw [← hnone, hunplaced, hnone]
    | some p =>
      have hmem (m : Msg) (b : α) (hb : b ∈ m.steps.filterMap lane.pick) (hbk : key b = k) : p ∈ m.paths := by
        obtain ⟨s, hs, hpick⟩ := List.mem_filterMap.mp hb
        exact mem_steps_paths hs ((hpath s b hpick).trans ((hsame b hbk).trans hplace))
      rw [lane.entries_eq, lane.entries_eq]
      refine atKey_flatMap_perm hperm (honce.imp fun {m m'} hdisjoint => ?_)
      -- only one message is about the path
      by_cases hp : p ∈ m.paths
      · refine .inr (atKey_eq_nil fun b hb hbk => ?_)
        exact hdisjoint p hp (hmem m' b hb hbk)
      · refine .inl (atKey_eq_nil fun b hb hbk => ?_)
        exact hp (hmem m b hb hbk)
  · have hnil (l : List α) : atKey key k l = [] := atKey_eq_nil fun a _ ha => hused ⟨a, ha⟩
    rw [hnil, hnil]

theorem scanSteps_perm (targetIssues : List ScanIssue) (hperm : msgs.Perm msgs') :
    (scanSteps targetIssues msgs).Perm (scanSteps targetIssues msgs') :=
  (hperm.flatMap_right Msg.steps).append_left _

/-- A lane that omits nothing holds all entries, the targets' first. -/
theorem recorded_all {lane : Lane α} {agg : Aggregator} {steps : List AggStep} (hrecorded : lane.recorded agg = [])
    (homitted : lane.omitted (steps.foldl Aggregator.take agg) = 0) :
    lane.recorded (steps.foldl Aggregator.take agg) = steps.filterMap lane.pick := by
  obtain ⟨htake, hcount⟩ := lane.record_foldl agg steps
  have hroom : (steps.filterMap lane.pick).length ≤ lane.limit agg - (lane.recorded agg).length := by
    omega
  rw [htake, List.take_of_length_le hroom, hrecorded, List.nil_append]

theorem omitted_perm (lane : Lane α) (agg : Aggregator) {steps steps' : List AggStep} (hperm : steps.Perm steps') :
    lane.omitted (steps.foldl Aggregator.take agg) = lane.omitted (steps'.foldl Aggregator.take agg) := by
  rw [(lane.record_foldl agg steps).2, (lane.record_foldl agg steps').2, (hperm.filterMap lane.pick).length_eq]

/-- A lane that omits nothing is sorted alike for both orders of the messages. -/
theorem recorded_sorted (lane : Lane α) (key : α → κ) (path : α → Option ObservedPath) (agg : Aggregator)
    (targetIssues : List ScanIssue) (hkey : ∀ a b, key a = key b → path a = path b)
    (hpath : ∀ s a, lane.pick s = some a → s.path = path a)
    (hperm : msgs.Perm msgs') (honce : OncePerPath msgs)
    (hunplaced : (lane.entries msgs).filter (path · = none) = (lane.entries msgs').filter (path · = none))
    (hrecorded : lane.recorded agg = [])
    (homitted : lane.omitted ((scanSteps targetIssues msgs).foldl Aggregator.take agg) = 0) :
    stableSort key (lane.recorded ((scanSteps targetIssues msgs).foldl Aggregator.take agg)) =
      stableSort key (lane.recorded ((scanSteps targetIssues msgs').foldl Aggregator.take agg)) := by
  have homitted' := homitted
  rw [omitted_perm lane agg (scanSteps_perm targetIssues hperm)] at homitted'
  rw [recorded_all hrecorded homitted, recorded_all hrecorded homitted', stableSort_eq_iff]
  intro k
  have hsplit (msgs : List Msg) : (scanSteps targetIssues msgs).filterMap lane.pick =
      (targetIssues.map AggStep.issue).filterMap lane.pick ++ lane.entries msgs := List.filterMap_append
  rw [hsplit, hsplit, atKey_append, atKey_append, entries_atKey hkey hpath hperm honce hunplaced]

/-! ### Reports -/

/-- The statistics count what is recorded and what is omitted, and no list is longer than its limit. -/
structure ScanReport.Accounted (config : ScanConfig) (r : ScanReport) : Prop where
  findings : r.stats.findings = r.findings.length + r.truncated.findingsOmitted
  skipped : r.stats.entriesSkipped = r.skipped.length + r.truncated.skippedOmitted
  issues : r.stats.issues = r.issues.length + r.truncated.issuesOmitted
  findings_le : r.findings.length ≤ config.maxRecordedFindings
  skipped_le : r.skipped.length ≤ config.maxRecordedEntries
  issues_le : r.issues.length ≤ config.maxRecordedEntries

theorem new_accounts (config : ScanConfig) :
    findingLane.Accounts (Aggregator.new config) ∧ skipLane.Accounts (Aggregator.new config) ∧
      issueLane.Accounts (Aggregator.new config) :=
  ⟨⟨rfl, Nat.zero_le _⟩, ⟨rfl, Nat.zero_le _⟩, ⟨rfl, Nat.zero_le _⟩⟩

theorem report_accounted (scanner : Scanner) (targetIssues : List ScanIssue) (status : ScanStatus)
    (stopReason : Option StopReason) (abandoned : ℕ) (msgs : List Msg) :
    (scanner.report targetIssues status stopReason abandoned msgs).Accounted scanner.config := by
  obtain ⟨hfindings, hskipped, hissues⟩ := new_accounts scanner.config
  have hf := Lane.foldl_accounts hfindings (scanSteps targetIssues msgs)
  have hs := Lane.foldl_accounts hskipped (scanSteps targetIssues msgs)
  have hi := Lane.foldl_accounts hissues (scanSteps targetIssues msgs)
  have hflimit := findingLane.limit_foldl (Aggregator.new scanner.config) (scanSteps targetIssues msgs)
  have hslimit := skipLane.limit_foldl (Aggregator.new scanner.config) (scanSteps targetIssues msgs)
  have hilimit := issueLane.limit_foldl (Aggregator.new scanner.config) (scanSteps targetIssues msgs)
  rw [report_eq]
  refine ⟨?_, ?_, ?_, ?_, ?_, ?_⟩
  · exact hf.counted.trans (congrArg (· + _) (stableSort_length _ _).symm)
  · exact hs.counted.trans (congrArg (· + _) (stableSort_length _ _).symm)
  · exact hi.counted.trans (congrArg (· + _) (stableSort_length _ _).symm)
  · exact (stableSort_length _ _).trans_le (hf.bounded.trans_eq hflimit)
  · exact (stableSort_length _ _).trans_le (hs.bounded.trans_eq hslimit)
  · exact (stableSort_length _ _).trans_le (hi.bounded.trans_eq hilimit)

/-- When nothing is omitted, the report is the same for every order of the messages that keeps the order of what
names no path; and it always accounts for all that was counted. -/
theorem report_order (scanner : Scanner) (targetIssues : List ScanIssue) (status : ScanStatus)
    (stopReason : Option StopReason) (abandoned : ℕ) (msgs : List Msg) :
    (∀ msgs', msgs.Perm msgs' → OncePerPath msgs → SameUnplaced msgs msgs' →
      (scanner.report targetIssues status stopReason abandoned msgs).truncated.any = false →
        scanner.report targetIssues status stopReason abandoned msgs =
          scanner.report targetIssues status stopReason abandoned msgs') ∧
      (scanner.report targetIssues status stopReason abandoned msgs).Accounted scanner.config := by
  refine ⟨fun msgs' hperm honce hunplaced hany => ?_, report_accounted ..⟩
  rw [report_eq] at hany ⊢
  rw [report_eq]
  have hsteps := scanSteps_perm targetIssues hperm
  -- nothing omitted in the report is nothing omitted in any lane
  have hzero : findingLane.omitted ((scanSteps targetIssues msgs).foldl Aggregator.take
      (Aggregator.new scanner.config)) +
      skipLane.omitted ((scanSteps targetIssues msgs).foldl Aggregator.take (Aggregator.new scanner.config)) +
      issueLane.omitted ((scanSteps targetIssues msgs).foldl Aggregator.take (Aggregator.new scanner.config)) = 0 := by
    have hnot := of_decide_eq_false hany
    exact Nat.eq_zero_of_not_pos hnot
  -- nothing omitted: a lane has all its entries, and sorting them forgets the order of the messages
  have hfindings := recorded_sorted findingLane Finding.sortKey (·.target.path) (Aggregator.new scanner.config)
    targetIssues (fun a b h => orBot_injective (Prod.mk.inj (toLex.injective h)).1)
    (fun s a h => by cases s <;> cases h; rfl) hperm honce hunplaced.findings rfl (by omega)
  have hskipped := recorded_sorted skipLane SkippedEntry.path (some ·.path) (Aggregator.new scanner.config)
    targetIssues (fun a b h => congrArg some h) (fun s a h => by cases s <;> cases h; rfl) hperm honce
    (by simp) rfl (by omega)
  have hissues := recorded_sorted issueLane (fun i => orBot i.path) ScanIssue.path (Aggregator.new scanner.config)
    targetIssues (fun a b h => orBot_injective h) (fun s a h => by cases s <;> cases h; rfl) hperm honce
    hunplaced.issues rfl (by omega)
  have hstats : ((scanSteps targetIssues msgs).foldl Aggregator.take (Aggregator.new scanner.config)).stats =
      ((scanSteps targetIssues msgs').foldl Aggregator.take (Aggregator.new scanner.config)).stats := by
    rw [stats_foldl, stats_foldl, hsteps.foldl_eq]
  have htruncated : ((scanSteps targetIssues msgs).foldl Aggregator.take (Aggregator.new scanner.config)).truncated =
      ((scanSteps targetIssues msgs').foldl Aggregator.take (Aggregator.new scanner.config)).truncated := by
    have hf := omitted_perm findingLane (Aggregator.new scanner.config) hsteps
    have hs := omitted_perm skipLane (Aggregator.new scanner.config) hsteps
    have hi := omitted_perm issueLane (Aggregator.new scanner.config) hsteps
    exact Truncation.mk.injEq .. ▸ ⟨hf, hs, hi⟩
  simp only [Aggregator.finish, ScanReport.mk.injEq, true_and]
  exact ⟨hstats, hfindings, hskipped, hissues, htruncated, by rw [hstats, htruncated]⟩

/-! ### Samples -/

def plainScanner : Scanner := ⟨⟨.skip, 10, 10, none⟩, []⟩

/-- A read error of the directory listing itself, which names no path. -/
def listingError (message : String) : Msg := .issue ⟨none, .io, none, message, none⟩

def deniedFile (path : String) : Msg :=
  .issue ⟨some (ObservedPath.fromPath (NativePath.ofString path)), .permissionDenied, none, "denied", none⟩

def skippedLink (path : String) : Msg := .skipped (NativePath.ofString path) .symlinkNotFollowed

theorem report_order_sample :
    plainScanner.report [] .completed none 0 [deniedFile "/b", listingError "io", skippedLink "/a"] =
        plainScanner.report [] .completed none 0 [skippedLink "/a", deniedFile "/b", listingError "io"] ∧
      (plainScanner.report [] .completed none 0
        [deniedFile "/b", listingError "io", skippedLink "/a"]).Accounted plainScanner.config := by
  obtain ⟨hsame, haccounted⟩ := report_order plainScanner [] .completed none 0
    [deniedFile "/b", listingError "io", skippedLink "/a"]
  refine ⟨hsame _ ?_ ?_ ⟨rfl, rfl⟩ rfl, haccounted⟩
  · exact ((List.Perm.swap ..).cons _).trans (List.Perm.swap ..)
  · simp only [OncePerPath]
    decide

/-- Two listing errors change places in the report as they do in the messages. -/
theorem listing_errors_in_order :
    ¬ ∀ (scanner : Scanner) (msgs msgs' : List Msg), msgs.Perm msgs' → OncePerPath msgs →
      (scanner.report [] .completed none 0 msgs).truncated.any = false →
        (scanner.report [] .completed none 0 msgs).issues = (scanner.report [] .completed none 0 msgs').issues := by
  intro h
  have hsame := h plainScanner [listingError "first", listingError "second"]
    [listingError "second", listingError "first"] (List.Perm.swap ..) (by simp [OncePerPath, listingError, Msg.paths])
    rfl
  exact absurd hsame (by decide)

end AbyssalWarden
