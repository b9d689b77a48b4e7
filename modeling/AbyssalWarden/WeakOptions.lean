import AbyssalWarden.UnitReading

/-! Weakening options of kernel command lines and loader variables of units: both are found among the words that the
tokenizer gives, which are the first 16. -/
namespace AbyssalWarden.SystemCheck

def standardInit : List (List Char) :=
  ["/sbin/init", "/usr/sbin/init", "/usr/lib/systemd/systemd", "/lib/systemd/systemd", "/init"].map String.toList

/-- Why a word of the command line weakens the system, if it does. -/
def weakReason (tok : List Char) : Option String :=
  let (key, value) := match splitOnce '=' tok with
    | some (k, v) => (k, some v)
    | none => (tok, none)
  let option (name : String) (values : List String) : Bool :=
    key = name.toList && values.any fun v => value = some v.toList
  if option "selinux" ["0"] then some "disables SELinux"
  else if option "enforcing" ["0"] then some "puts SELinux in permissive mode"
  else if option "apparmor" ["0"] then some "disables AppArmor"
  else if option "security" ["none", ""] then some "disables the security module"
  else if option "audit" ["0"] then some "disables kernel auditing"
  else if option "module.sig_enforce" ["0"] then some "turns off module signature enforcement"
  else if option "ima_appraise" ["off", "fix", "log"] then some "turns off IMA appraisal"
  else if key = "rd.break".toList then some "drops to a root shell in the initramfs"
  else if (key = "systemd.debug_shell".toList ∨ key = "systemd.debug-shell".toList) ∧ value ≠ some ['0'] then
    some "starts an unauthenticated root shell on tty9"
  else if (key = "init".toList ∨ key = "rdinit".toList) ∧ value.any (· ∉ standardInit) then some "replaces init"
  else none

/-- A word with its reason -/
def weakOption (tok : List Char) : Option (List Char × String) := (weakReason tok).map fun why => (tok, why)

/-- Command-line options that disable a security mechanism or replace init, with the reason. -/
def weakCmdline (cmdline : List Char) : List (List Char × String) := (shellTokens cmdline).filterMap weakOption

/-! ### Loader variables -/

/-- The entry of an assignment: it has a command that starts nothing. -/
def Found.isAssignment (f : Found) : Bool := f.command.isSome && ! f.findExecutable

/-- The assignments that are recorded of a unit. -/
def UnitSource.recorded (src : UnitSource) (text : List Char) : List (List Char) :=
  ((src.inspect text).filter Found.isAssignment).filterMap (·.command)

/-- A word that gives a value to a loader variable -/
def AssignsLoader (word : List Char) : Prop :=
  "LD_PRELOAD=".toList <+: word ∨ "LD_AUDIT=".toList <+: word ∨ "LD_LIBRARY_PATH=".toList <+: word

instance : DecidablePred AssignsLoader := fun _ => inferInstanceAs (Decidable (_ ∨ _))

/-- A line that sets the environment to words -/
def SetsEnvironment (w : WordLine) (line : List Char) : Prop := SetsKey environmentKey w.text line

/-- The assignments of loader variables in lines, in order. A value with a quote that is left open has none. -/
inductive Assignments : List (List Char) → List (List Char) → Prop where
  | nil : Assignments [] []
  | environment {line : List Char} {w : WordLine} {ls as : List (List Char)} (hset : SetsEnvironment w line)
      (hrest : Assignments ls as) : Assignments (line :: ls) (w.values.filter (AssignsLoader ·) ++ as)
  | other {line : List Char} {ls as : List (List Char)} (hnot : ∀ w : WordLine, ¬ SetsEnvironment w line)
      (hrest : Assignments ls as) : Assignments (line :: ls) as

/-- All lines that set the environment set it to words: no quote is left open. -/
def Closed (ls : List (List Char)) : Prop :=
  ∀ line ∈ ls, ∀ v, SetsKey environmentKey v line → ∃ w : WordLine, w.text = v

/-- Of the words of a line, none that is an assignment comes late: not the seventeenth or a later one, and none at all
where the unit is a timer or 65 commands come before the line. -/
def InTime (isTimer : Bool) (commands : ℕ) (w : WordLine) : Prop :=
  (∀ word ∈ w.values.drop 16, ¬ AssignsLoader word) ∧
    (isTimer = true ∨ 64 < commands → ∀ word ∈ w.values, ¬ AssignsLoader word)

/-- No assignment of the lines of a unit comes late. -/
def AssignmentsSeen (src : UnitSource) (ls : List (List Char)) : Prop :=
  ∀ pre line post w cs, ls = pre ++ line :: post → SetsEnvironment w line → Commands pre cs →
    InTime src.isTimer cs.length w

/-! ### The first words -/

variable {α γ : Type*} {l a b a' b' : List α} {n : ℕ} {text v : List Char} {src : UnitSource}
  {S : List (List Char × List Char)}

theorem filterMap_take_eq_iff (f : α → Option γ) :
    (l.take n).filterMap f = l.filterMap f ↔ ∀ t ∈ l.drop n, f t = none := by
  have hsplit : l.filterMap f = (l.take n).filterMap f ++ (l.drop n).filterMap f := by
    rw [← List.filterMap_append, List.take_append_drop]
  rw [hsplit, List.self_eq_append_right, List.filterMap_eq_nil_iff]

/-- Parts that are sublists make the whole list only if each is its whole part. -/
theorem append_eq_iff_of_sublist (ha : a.Sublist a') (hb : b.Sublist b') : a ++ b = a' ++ b' ↔ a = a' ∧ b = b' := by
  constructor
  · intro h
    have hlen := congrArg List.length h
    rw [List.length_append, List.length_append] at hlen
    have ha' := ha.length_le
    have hb' := hb.length_le
    exact ⟨ha.eq_of_length (by omega), hb.eq_of_length (by omega)⟩
  · rintro ⟨rfl, rfl⟩
    rfl

theorem shellTokens_of_short (h : v.length ≤ maxText) : shellTokens v = (shellWords v).take 16 := by
  rw [shellTokens_eq, List.take_of_length_le h]

theorem weakCmdline_iff (line : WordLine) (h : line.text.length ≤ maxText) :
    weakCmdline line.text = line.values.filterMap weakOption ↔ ∀ t ∈ line.values.drop 16, weakOption t = none := by
  rw [weakCmdline, shellTokens_of_short h, shellWords_text, filterMap_take_eq_iff]

/-! ### What of the settings is recorded -/

/-- The assignments that are seen of a setting, with this many commands before it. -/
def seenOf (isTimer : Bool) (n : ℕ) (s : List Char × List Char) : List (List Char) :=
  if isTimer = false ∧ n ≤ 64 ∧ s.1 = environmentKey then (shellTokens s.2).filter setsLoader else []

/-- Those that are seen of the settings. -/
def seenWords (isTimer : Bool) : ℕ → List (List Char × List Char) → List (List Char)
  | _, [] => []
  | n, s :: rest => seenOf isTimer n s ++ seenWords isTimer (n + if isCommand s then 1 else 0) rest

theorem seenWords_of_late {isTimer : Bool} (h : isTimer = true ∨ 64 < n) : seenWords isTimer n S = [] := by
  induction S generalizing n with
  | nil => rfl
  | cons s S ih =>
    have hnone : seenOf isTimer n s = [] := by
      apply if_neg
      rintro ⟨htimer, hn, -⟩
      rcases h with h | h
      · rw [h] at htimer
        cases htimer
      · omega
    rw [seenWords, hnone, List.nil_append]
    exact ih (h.imp_right fun h => by omega)

theorem UnitFile.set_spec (unit : UnitFile) (s : List Char × List Char) :
    (unit.set s.1 s.2).environment = unit.environment ++ (if s.1 = environmentKey then [s.2] else []) ∧
    (unit.set s.1 s.2).exec.length = unit.exec.length + if isCommand s then 1 else 0 := by
  have hkey : environmentKey ∉ execKeys := by decide
  unfold UnitFile.set
  by_cases hexec : s.1 ∈ execKeys
  · have hne : s.1 ≠ environmentKey := fun heq => hkey (heq ▸ hexec)
    by_cases hv : s.2 = []
    · simp [isCommand, hexec, hv, hne]
    · simp [isCommand, hexec, hv, hne]
  · have hcommand : isCommand s = false := by
      simp [isCommand, hexec]
    simp only [if_neg hexec, hcommand, Bool.false_eq_true, if_false, Nat.add_zero]
    by_cases henv : s.1 = environmentKey
    · rw [if_pos henv, if_pos henv]
      exact ⟨rfl, rfl⟩
    · rw [if_neg henv, if_neg henv, List.append_nil]
      split_ifs
      all_goals exact ⟨rfl, rfl⟩

theorem setAll_environment (unit : UnitFile) (h : unit.exec.length ≤ 64) :
    ((setAll S unit).environment.flatMap shellTokens).filter setsLoader =
      (unit.environment.flatMap shellTokens).filter setsLoader ++ seenWords false unit.exec.length S := by
  induction S generalizing unit with
  | nil => rw [setAll, seenWords, List.append_nil]
  | cons s S ih =>
    obtain ⟨henv, hexec⟩ := unit.set_spec s
    have hone : ((unit.set s.1 s.2).environment.flatMap shellTokens).filter setsLoader =
        (unit.environment.flatMap shellTokens).filter setsLoader ++ seenOf false unit.exec.length s := by
      rw [henv, seenOf]
      by_cases hs : s.1 = environmentKey
      · simp [hs, h]
      · simp [hs]
    rw [setAll, seenWords, ← List.append_assoc, ← hone, ← hexec]
    split
    · rename_i hfull
      rw [seenWords_of_late (Or.inr hfull), List.append_nil]
    · rename_i hless
      exact ih _ (Nat.le_of_not_lt hless)

theorem filterMap_filter_map {ι : Type*} {mk : ι → α} {p : α → Bool} {get : α → Option ι} {l : List ι}
    (hp : ∀ x, p (mk x) = true) (hget : ∀ x, get (mk x) = some x) : ((l.map mk).filter p).filterMap get = l := by
  induction l with
  | nil => rfl
  | cons x l ih => rw [List.map_cons, List.filter_cons_of_pos (hp x), List.filterMap_cons_some (hget x), ih]

theorem recorded_eq (src : UnitSource) (text : List Char) :
    src.recorded text = seenWords src.isTimer 0 (settings text) := by
  have henv : ∀ parsed : UnitFile, ((src.environmentEntries parsed).filter Found.isAssignment).filterMap (·.command) =
      (parsed.environment.flatMap shellTokens).filter setsLoader := by
    intro parsed
    apply filterMap_filter_map
    · intro assignment
      rfl
    · intro assignment
      rfl
  -- commands are other entries
  have hexec : ∀ parsed : UnitFile, (src.execEntries parsed).filter Found.isAssignment = [] := by
    intro parsed
    rw [List.filter_eq_nil_iff]
    intro f hf
    obtain ⟨s, -, rfl⟩ := List.mem_map.mp hf
    exact Bool.false_ne_true
  have hwords : ((parseUnit text).environment.flatMap shellTokens).filter setsLoader =
      seenWords false 0 (settings text) := by
    rw [parseUnit_eq, setAll_environment UnitFile.default (by decide)]
    rfl
  unfold UnitSource.recorded UnitSource.inspect
  cases htimer : src.isTimer with
  | true =>
    rw [seenWords_of_late (Or.inl rfl)]
    rfl
  | false =>
    simp only [Bool.false_eq_true, if_false]
    split
    · have hbare : [src.bareEntry (parseUnit text)].filter Found.isAssignment = [] := rfl
      rw [List.filter_append, hbare, List.append_nil, henv, hwords]
    · rw [List.filter_append, hexec, List.append_nil, henv, hwords]

/-! ### The assignments of settings -/

/-- The assignments of one setting; a value with an open quote has none. -/
noncomputable def settingWords (s : List Char × List Char) : List (List Char) :=
  open Classical in if s.1 = environmentKey ∧ ∃ w : WordLine, w.text = s.2 then (shellWords s.2).filter setsLoader else []

theorem plainKey_environment : PlainKey environmentKey := ⟨by decide, by decide, _, rfl, by decide⟩

theorem setsLoader_iff {word : List Char} : setsLoader word = true ↔ AssignsLoader word := by
  have hsplit (name : List Char) (hname : '=' ∉ name) :
      name ++ ['='] <+: word ↔ ∃ rest, splitOnce '=' word = some (name, rest) := by
    constructor
    · rintro ⟨rest, rfl⟩
      refine ⟨rest, ?_⟩
      rw [List.append_assoc, List.singleton_append, splitOnce_append hname]
    · rintro ⟨rest, h⟩
      exact ⟨rest, by rw [splitOnce_eq_some h, List.append_assoc, List.singleton_append]⟩
  have hpreload := hsplit "LD_PRELOAD".toList (by decide)
  have haudit := hsplit "LD_AUDIT".toList (by decide)
  have hlibrary := hsplit "LD_LIBRARY_PATH".toList (by decide)
  unfold AssignsLoader
  rw [show "LD_PRELOAD=".toList = "LD_PRELOAD".toList ++ ['='] from rfl,
    show "LD_AUDIT=".toList = "LD_AUDIT".toList ++ ['='] from rfl,
    show "LD_LIBRARY_PATH=".toList = "LD_LIBRARY_PATH".toList ++ ['='] from rfl, hpreload, haudit, hlibrary, setsLoader]
  cases splitOnce '=' word with
  | none => simp
  | some kv => simp [loaderVars, Prod.ext_iff]

theorem filter_setsLoader (words : List (List Char)) : words.filter setsLoader = words.filter (AssignsLoader ·) := by
  apply List.filter_congr
  intro word _
  rw [Bool.eq_iff_iff, setsLoader_iff, decide_eq_true_eq]

theorem settingWords_environment (w : WordLine) :
    settingWords (environmentKey, w.text) = w.values.filter (AssignsLoader ·) := by
  rw [settingWords, if_pos ⟨rfl, w, rfl⟩, shellWords_text, filter_setsLoader]

variable {ls as : List (List Char)} {isTimer : Bool}

/-- The assignments of lines are those of their settings. -/
theorem assignments_iff : Assignments ls as ↔ as = (ls.filterMap settingOf).flatMap settingWords := by
  induction ls generalizing as with
  | nil =>
    constructor
    · intro h
      cases h
      rfl
    · rintro rfl
      exact .nil
  | cons line ls ih =>
    -- a line gives one setting at most, and its value is printed in one way for its words
    by_cases hset : ∃ w : WordLine, SetsEnvironment w line
    · obtain ⟨w, hset⟩ := hset
      have hread := settingOf_of_setsKey plainKey_environment hset
      rw [List.filterMap_cons_some hread, List.flatMap_cons, settingWords_environment]
      constructor
      · intro h
        cases h with
        | environment hset' hrest =>
          rename_i w' as
          have hread' := settingOf_of_setsKey plainKey_environment hset'
          have htext : w.text = w'.text := (Prod.mk.inj (Option.some.inj (hread.symm.trans hread'))).2
          have hvalues : w'.values = w.values := by rw [← shellWords_text, ← shellWords_text, htext]
          rw [hvalues, ih.mp hrest]
        | other hnot hrest => exact absurd hset (hnot w)
      · rintro rfl
        exact .environment hset (ih.mpr rfl)
    · have hskip : ((line :: ls).filterMap settingOf).flatMap settingWords =
          (ls.filterMap settingOf).flatMap settingWords := by
        cases hread : settingOf line with
        | none => rw [List.filterMap_cons_none hread]
        | some s =>
          have hnone : settingWords s = [] := by
            apply if_neg
            rintro ⟨hkey, w, hw⟩
            exact hset ⟨w, setsKey_of_settingOf (by rw [hread, ← hkey, hw])⟩
          rw [List.filterMap_cons_some hread, List.flatMap_cons, hnone, List.nil_append]
      rw [hskip, ← ih]
      constructor
      · intro h
        cases h with
        | environment hset' hrest => exact absurd ⟨_, hset'⟩ hset
        | other hnot hrest => exact hrest
      · exact .other fun w hw => hset ⟨w, hw⟩

/-! ### What is lost -/

/-- No assignment of the settings comes late. -/
def SettingsInTime (isTimer : Bool) (n : ℕ) (S : List (List Char × List Char)) : Prop :=
  ∀ pre w post, S = pre ++ (environmentKey, WordLine.text w) :: post → InTime isTimer (n + pre.countP isCommand) w

theorem settingsInTime_cons {s : List Char × List Char} : SettingsInTime isTimer n (s :: S) ↔
    (∀ w : WordLine, s = (environmentKey, w.text) → InTime isTimer n w) ∧
      SettingsInTime isTimer (n + if isCommand s then 1 else 0) S := by
  constructor
  · intro h
    constructor
    · rintro w rfl
      have hhead := h [] w S rfl
      rwa [List.countP_nil, Nat.add_zero] at hhead
    · intro pre w post heq
      have hlater := h (s :: pre) w post (by rw [heq]; rfl)
      rwa [List.countP_cons, Nat.add_comm (pre.countP isCommand), ← Nat.add_assoc] at hlater
  · rintro ⟨hhead, hlater⟩ pre w post heq
    cases pre with
    | nil =>
      obtain ⟨rfl, -⟩ := List.cons.inj heq
      exact hhead w rfl
    | cons s' pre =>
      obtain ⟨rfl, hS⟩ := List.cons.inj heq
      have hcount := hlater pre w post hS
      rwa [Nat.add_assoc, Nat.add_comm (if isCommand s then 1 else 0), ← List.countP_cons] at hcount

/-- All assignments of a line are seen when none comes late. -/
theorem seen_line_iff {w : WordLine} (hw : w.text.length ≤ maxText) :
    seenOf isTimer n (environmentKey, w.text) = w.values.filter (AssignsLoader ·) ↔ InTime isTimer n w := by
  have hnone (words : List (List Char)) : words.filter (AssignsLoader ·) = [] ↔ ∀ word ∈ words, ¬ AssignsLoader word := by
    simp
  have hsplit : w.values.filter (AssignsLoader ·) =
      (w.values.take 16).filter (AssignsLoader ·) ++ (w.values.drop 16).filter (AssignsLoader ·) := by
    rw [← List.filter_append, List.take_append_drop]
  have hdrop (h : ∀ word ∈ w.values, ¬ AssignsLoader word) : ∀ word ∈ w.values.drop 16, ¬ AssignsLoader word :=
    fun word hword => h word (List.mem_of_mem_drop hword)
  rw [seenOf, InTime]
  by_cases hlate : isTimer = true ∨ 64 < n
  · have hnot : ¬ (isTimer = false ∧ n ≤ 64 ∧ (environmentKey, w.text).1 = environmentKey) := by
      rintro ⟨htimer, hn, -⟩
      rcases hlate with h | h
      · rw [h] at htimer
        cases htimer
      · omega
    rw [if_neg hnot, eq_comm, hnone]
    exact ⟨fun h => ⟨hdrop h, fun _ => h⟩, fun h => h.2 hlate⟩
  · obtain ⟨htimer, hn⟩ := not_or.mp hlate
    have hseen : isTimer = false ∧ n ≤ 64 ∧ (environmentKey, w.text).1 = environmentKey :=
      ⟨Bool.not_eq_true _ |>.mp htimer, Nat.le_of_not_lt hn, rfl⟩
    rw [if_pos hseen, shellTokens_of_short hw, shellWords_text, filter_setsLoader, hsplit, List.self_eq_append_right, hnone]
    exact ⟨fun h => ⟨h, fun h => absurd h hlate⟩, fun h => h.1⟩

/-- Values up to the limit of the tokenizer -/
def ShortValues (S : List (List Char × List Char)) : Prop := ∀ s ∈ S, s.1 = environmentKey → s.2.length ≤ maxText

/-- What is seen of a setting whose value has no open quote is of its assignments. -/
theorem seenOf_sublist {s : List Char × List Char} (hs : s.1 = environmentKey → s.2.length ≤ maxText)
    (hclosed : s.1 = environmentKey → ∃ w : WordLine, w.text = s.2) : (seenOf isTimer n s).Sublist (settingWords s) := by
  rw [seenOf]
  split
  · rename_i h
    rw [settingWords, if_pos ⟨h.2.2, hclosed h.2.2⟩, shellTokens_of_short (hs h.2.2)]
    exact (List.take_sublist 16 _).filter setsLoader
  · exact List.nil_sublist _

theorem seenWords_sublist (hS : ShortValues S) (hclosed : ∀ s ∈ S, s.1 = environmentKey → ∃ w : WordLine, w.text = s.2) :
    (seenWords isTimer n S).Sublist (S.flatMap settingWords) := by
  induction S generalizing n with
  | nil => exact List.Sublist.refl _
  | cons s S ih =>
    obtain ⟨hs, hrest⟩ := List.forall_mem_cons.mp hS
    obtain ⟨hsclosed, hrestclosed⟩ := List.forall_mem_cons.mp hclosed
    rw [seenWords, List.flatMap_cons]
    exact (seenOf_sublist hs hsclosed).append (ih hrest hrestclosed)

/-- If no assignment comes late, all are seen. -/
theorem sublist_seenWords (hS : ShortValues S) (h : SettingsInTime isTimer n S) :
    (S.flatMap settingWords).Sublist (seenWords isTimer n S) := by
  induction S generalizing n with
  | nil => exact List.Sublist.refl _
  | cons s S ih =>
    obtain ⟨hs, hrest⟩ := List.forall_mem_cons.mp hS
    obtain ⟨hhead, htail⟩ := settingsInTime_cons.mp h
    rw [seenWords, List.flatMap_cons]
    refine List.Sublist.append ?_ (ih hrest htail)
    by_cases hset : s.1 = environmentKey ∧ ∃ w : WordLine, w.text = s.2
    · obtain ⟨hkey, w, hw⟩ := hset
      obtain rfl : s = (environmentKey, w.text) := Prod.ext hkey hw.symm
      rw [settingWords_environment, (seen_line_iff (hs rfl)).mpr (hhead w rfl)]
    · rw [settingWords, if_neg hset]
      exact List.nil_sublist _

/-- Where no quote is left open, exactly the assignments are seen if and only if none comes late. -/
theorem seenWords_eq_iff (hS : ShortValues S) (hclosed : ∀ s ∈ S, s.1 = environmentKey → ∃ w : WordLine, w.text = s.2) :
    seenWords isTimer n S = S.flatMap settingWords ↔ SettingsInTime isTimer n S := by
  induction S generalizing n with
  | nil =>
    refine iff_of_true rfl ?_
    intro pre w post h
    cases pre <;> cases h
  | cons s S ih =>
    obtain ⟨hs, hrest⟩ := List.forall_mem_cons.mp hS
    obtain ⟨hsclosed, hrestclosed⟩ := List.forall_mem_cons.mp hclosed
    rw [seenWords, List.flatMap_cons,
      append_eq_iff_of_sublist (seenOf_sublist hs hsclosed) (seenWords_sublist hrest hrestclosed), ih hrest hrestclosed,
      settingsInTime_cons]
    refine and_congr_left' ?_
    -- a line of another key has no assignments, and none are seen in it
    by_cases hkey : s.1 = environmentKey
    · obtain ⟨w, hw⟩ := hsclosed hkey
      obtain rfl : s = (environmentKey, w.text) := Prod.ext hkey hw.symm
      rw [settingWords_environment, seen_line_iff (hs rfl)]
      constructor
      · intro h w' hw'
        have hvalues : w'.values = w.values := by
          rw [← shellWords_text, ← shellWords_text, (Prod.mk.inj hw').2]
        rw [InTime, hvalues]
        exact h
      · intro h
        exact h w rfl
    · have hseen : seenOf isTimer n s = [] := if_neg fun h => hkey h.2.2
      have hwords : settingWords s = [] := if_neg fun h => hkey h.1
      rw [hseen, hwords]
      refine iff_of_true rfl ?_
      rintro w rfl
      exact absurd rfl hkey

/-! ### Lines and settings -/

theorem assignmentsSeen_iff (src : UnitSource) :
    AssignmentsSeen src ls ↔ SettingsInTime src.isTimer 0 (ls.filterMap settingOf) := by
  have hcount {pre : List (List Char)} {cs : List (ExecKey × List Char)} (h : Commands pre cs) :
      (pre.filterMap settingOf).countP isCommand = cs.length := by
    rw [List.countP_eq_length_filter, commands_iff.mp h, List.length_map]
  constructor
  · intro h pre w post heq
    obtain ⟨lpre, lrest, rfl, rfl, hrest⟩ := List.filterMap_eq_append_iff.mp heq
    obtain ⟨skipped, line, lpost, rfl, hskipped, hline, -⟩ := List.filterMap_eq_cons_iff.mp hrest
    obtain ⟨cs, hcs⟩ := exists_commands (lpre ++ skipped)
    have hseen := h (lpre ++ skipped) line lpost w cs (by simp) (setsKey_of_settingOf hline) hcs
    have hsame : (lpre ++ skipped).filterMap settingOf = lpre.filterMap settingOf := by
      rw [List.filterMap_append, List.filterMap_eq_nil_iff.mpr hskipped, List.append_nil]
    rw [Nat.zero_add, ← hsame, hcount hcs]
    exact hseen
  · rintro h pre line post w cs rfl hset hcs
    have hread := settingOf_of_setsKey plainKey_environment hset
    have hseen := h (pre.filterMap settingOf) w (post.filterMap settingOf)
      (by rw [List.filterMap_append, List.filterMap_cons_some hread])
    rwa [Nat.zero_add, hcount hcs] at hseen

theorem closed_settings (h : Closed ls) :
    ∀ s ∈ ls.filterMap settingOf, s.1 = environmentKey → ∃ w : WordLine, w.text = s.2 := by
  intro s hs hkey
  obtain ⟨line, hline, hread⟩ := List.mem_filterMap.mp hs
  exact h line hline s.2 (setsKey_of_settingOf (by rw [hread, ← hkey]))

theorem shortValues_settings (h : ∀ line ∈ ls, ∀ v, SetsKey environmentKey v line → v.length ≤ maxText) :
    ShortValues (ls.filterMap settingOf) := by
  intro s hs hkey
  obtain ⟨line, hline, hread⟩ := List.mem_filterMap.mp hs
  exact h line hline s.2 (setsKey_of_settingOf (by rw [hread, ← hkey]))

/-- All weakening words of a command line are returned when none stands after the sixteenth word. All assignments of loader
variables in a unit are recorded when none comes late, and where no quote is left open only then. Texts up to the limit of
the tokenizer are meant, and units in which no backslash joins a comment with another line. -/
theorem weak_options_exactly (line : WordLine) (src : UnitSource) (text : List Char) (as : List (List Char)) :
    (line.text.length ≤ maxText →
      (weakCmdline line.text = line.values.filterMap weakOption ↔
        ∀ t ∈ line.values.drop 16, weakOption t = none)) ∧
    (Separate isComment (lines text) →
      (∀ l ∈ unitLines text, ∀ v, SetsKey environmentKey v l → v.length ≤ maxText) →
      Assignments (unitLines text) as →
        (AssignmentsSeen src (unitLines text) → as.Sublist (src.recorded text)) ∧
        (Closed (unitLines text) → (src.recorded text = as ↔ AssignmentsSeen src (unitLines text)))) := by
  refine ⟨weakCmdline_iff line, ?_⟩
  intro hsep hshort has
  have hS := shortValues_settings hshort
  rw [assignments_iff.mp has, assignmentsSeen_iff, recorded_eq, settings_eq hsep]
  refine ⟨sublist_seenWords hS, ?_⟩
  intro hclosed
  exact seenWords_eq_iff hS (closed_settings hclosed)

/-- A word of letters and a blank -/
def plainWord (text : String) (h : text.toList ≠ [] ∧ ∀ c ∈ text.toList, isWhitespace c = false ∧ c ≠ '\'' ∧ c ≠ '"') :
    Word :=
  ⟨[.bare text.toList h.2], [' '], ⟨_, List.mem_singleton.mpr rfl, h.1⟩, by decide⟩

/-- Sixteen words before `selinux=0` -/
def lateOption : WordLine where
  lead := []
  words := List.replicate 16 (plainWord "quiet" (by decide)) ++ [plainWord "selinux=0" (by decide)]
  blankLead := blank_nil
  separated := by
    intro word hword
    rw [List.dropLast_concat] at hword
    rw [List.eq_of_mem_replicate hword]
    exact List.cons_ne_nil _ _

theorem late_option_unreported : weakCmdline lateOption.text = [] ∧
    lateOption.values.filterMap weakOption = [("selinux=0".toList, "disables SELinux")] := by
  decide

end AbyssalWarden.SystemCheck
