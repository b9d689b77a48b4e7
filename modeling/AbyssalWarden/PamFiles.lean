import AbyssalWarden.PamRules

/-! Whole PAM files, printed from rules with comments and includes between them. -/
namespace AbyssalWarden.Pam

section

variable {conf : Bool}

/-- Lines of which each but the last ends in a backslash. -/
def continued : List (List Char) → List (List Char)
  | [] => []
  | [piece] => [piece]
  | piece :: pieces => (piece ++ ['\\']) :: continued pieces

/-- A rule that is broken at blanks into lines. -/
structure BrokenRule (conf : Bool) where
  rule : Rule conf
  pieces : List (List Char)
  joined : [' '].intercalate pieces = rule.text

def BrokenRule.lines (b : BrokenRule conf) : List (List Char) := continued b.pieces

def BrokenRule.OneLine (b : BrokenRule conf) : Prop := b.pieces = [b.rule.text]

/-- What the check reports of the lines of a rule. -/
def BrokenRule.reports (b : BrokenRule conf) : List Report := b.lines.filterMap (checkLine conf)

/-- The rule, where it is to be reported. -/
def BrokenRule.due (b : BrokenRule conf) : List (Rule conf) := b.rule.due

/-- A part of a file: an empty line, a comment or an include, a rule. -/
inductive Item (conf : Bool) where
  | blank (spaces : List Char) (hspaces : ∀ c ∈ spaces, c = ' ' ∨ c = '\t')
  | note (spaces : List Char) (mark : Char) (text : List Char) (hspaces : ∀ c ∈ spaces, c = ' ' ∨ c = '\t')
    (hmark : mark = '#' ∨ mark = '@') (htext : '\n' ∉ text ∧ '\r' ∉ text)
  | rule (b : BrokenRule conf)

def Item.lines : Item conf → List (List Char)
  | .blank spaces _ => [spaces]
  | .note spaces mark text _ _ _ => [spaces ++ mark :: text]
  | .rule b => b.lines

def Item.rules : Item conf → List (BrokenRule conf)
  | .rule b => [b]
  | _ => []

/-- The text of a file. -/
def fileText (items : List (Item conf)) : List Char := unlines '\n' (items.flatMap Item.lines)

/-! ### Lines -/

/-- No character ends a line. -/
def OnLine (s : List Char) : Prop := ∀ c ∈ s, c ≠ '\n' ∧ c ≠ '\r'

theorem onLine_spaces {s : List Char} (h : ∀ c ∈ s, c = ' ' ∨ c = '\t') : OnLine s := by
  intro c hc
  rcases h c hc with rfl | rfl
  all_goals decide

theorem onLine_word {s : List Char} (h : ∀ c ∈ s, isWhitespace c = false) : OnLine s := by
  intro c hc
  have hword := h c hc
  constructor
  · rintro rfl
    cases hword
  · rintro rfl
    cases hword

theorem onLine_append {s t : List Char} (hs : OnLine s) (ht : OnLine t) : OnLine (s ++ t) := by
  intro c hc
  rcases List.mem_append.mp hc with hc | hc
  · exact hs c hc
  · exact ht c hc

theorem onLine_control {control : Control} (h : control.Valid) : OnLine control.text := by
  cases control with
  | word w => exact onLine_word h.2.1
  | group content =>
    intro c hc
    have hparts : OnLine (content.flatMap groupText) := by
      intro c hc
      obtain ⟨part, hpart, hc⟩ := List.mem_flatMap.mp hc
      cases part with
      | none =>
        rcases List.mem_cons.mp hc with rfl | hc
        · decide
        · rw [List.mem_singleton.mp hc]
          decide
      | some d =>
        rw [List.mem_singleton.mp hc]
        exact (h.1 d hpart).2
    rw [Control.text, List.cons_append, List.mem_cons, List.mem_append, List.mem_singleton] at hc
    rcases hc with rfl | hc | rfl
    · decide
    · exact hparts c hc
    · decide

theorem onLine_text (r : Rule conf) : OnLine r.text := by
  have hargs : OnLine (r.args.flatMap SpacedWord.print) := by
    intro c hc
    obtain ⟨a, ha, hc⟩ := List.mem_flatMap.mp hc
    exact onLine_append (onLine_spaces (r.argSpaces a ha)) (onLine_word a.word) c hc
  have hcall : OnLine r.call := onLine_append (onLine_word r.moduleWord) hargs
  have hbody : OnLine r.body :=
    onLine_append (onLine_word r.kind_word) (onLine_append (onLine_spaces r.typeApart.2)
      (onLine_append (onLine_control r.controlValid) (onLine_append (onLine_spaces r.controlApart.2) hcall)))
  have hcore : OnLine r.core := by
    rw [Rule.core]
    split
    case isTrue hconf =>
      exact onLine_append (onLine_word (r.serviceWord hconf).1) (onLine_append (onLine_spaces r.serviceApart.2) hbody)
    case isFalse => exact hbody
  exact onLine_append (onLine_append (onLine_spaces r.leadSpaces) hcore) (onLine_spaces r.trailSpaces)

theorem onLine_continued {pieces : List (List Char)} (h : OnLine ([' '].intercalate pieces)) :
    ∀ l ∈ continued pieces, OnLine l := by
  induction pieces with
  | nil => exact List.forall_mem_nil _
  | cons piece pieces ih =>
    cases pieces with
    | nil =>
      have hpiece : [' '].intercalate [piece] = piece := by simp [List.intercalate]
      rw [hpiece] at h
      exact List.forall_mem_singleton.mpr h
    | cons next pieces =>
      have hsplit : [' '].intercalate (piece :: next :: pieces) = piece ++ ' ' :: [' '].intercalate (next :: pieces) := by
        simp [List.intercalate]
      rw [hsplit] at h
      have hpiece : OnLine piece := fun c hc => h c (List.mem_append_left _ hc)
      have hrest : OnLine ([' '].intercalate (next :: pieces)) :=
        fun c hc => h c (List.mem_append_right _ (List.mem_cons_of_mem _ hc))
      have hslash : OnLine ['\\'] := by
        intro c hc
        rw [List.mem_singleton.mp hc]
        decide
      exact List.forall_mem_cons.mpr ⟨onLine_append hpiece hslash, ih hrest⟩

theorem onLine_item (i : Item conf) : ∀ l ∈ i.lines, OnLine l := by
  cases i with
  | blank spaces hspaces => exact List.forall_mem_singleton.mpr (onLine_spaces hspaces)
  | note spaces mark text hspaces hmark htext =>
    refine List.forall_mem_singleton.mpr (onLine_append (onLine_spaces hspaces) ?_)
    intro c hc
    rcases List.mem_cons.mp hc with rfl | hc
    · rcases hmark with rfl | rfl
      all_goals decide
    · exact ⟨fun h => htext.1 (h ▸ hc), fun h => htext.2 (h ▸ hc)⟩
  | rule b => exact onLine_continued (b.joined ▸ onLine_text b.rule)

/-- The lines of the items are checked one by one. -/
theorem checkText_fileText (items : List (Item conf)) :
    checkText conf (fileText items) = items.flatMap fun i => i.lines.filterMap (checkLine conf) := by
  have hlines : ∀ l ∈ items.flatMap Item.lines, '\n' ∉ l ∧ '\r' ∉ l := by
    intro l hl
    obtain ⟨i, -, hl⟩ := List.mem_flatMap.mp hl
    have honline := onLine_item i l hl
    exact ⟨fun h => (honline _ h).1 rfl, fun h => (honline _ h).2 rfl⟩
  rw [checkText, fileText, lines_unlines hlines, List.filterMap_flatMap]

/-- Lines without a rule give nothing. -/
theorem checkLine_note {spaces text : List Char} {mark : Char} (hspaces : ∀ c ∈ spaces, c = ' ' ∨ c = '\t')
    (hmark : mark = '#' ∨ mark = '@') : checkLine conf (spaces ++ mark :: text) = none := by
  have hblank : isWhitespace mark = false := by
    rcases hmark with rfl | rfl
    all_goals decide
  have hhead := head?_trim_cons (s := text) hblank
  rw [checkLine, trim_append_left (blank_of_spaces hspaces), parseLine, if_pos, Option.bind_none]
  rw [hhead]
  rcases hmark with rfl | rfl
  · exact Or.inr (Or.inl rfl)
  · exact Or.inr (Or.inr rfl)

theorem checkLine_blank {spaces : List Char} (hspaces : ∀ c ∈ spaces, c = ' ' ∨ c = '\t') : checkLine conf spaces = none := by
  have htrim : trim spaces = [] := by
    have hleft := trim_append_left (s := []) (blank_of_spaces hspaces)
    rw [List.append_nil] at hleft
    exact hleft
  rw [checkLine, htrim, parseLine, if_pos (Or.inl rfl), Option.bind_none]

/-- The reports of a file are those of its rules. -/
theorem checkText_rules (items : List (Item conf)) :
    checkText conf (fileText items) = (items.flatMap Item.rules).flatMap BrokenRule.reports := by
  rw [checkText_fileText, List.flatMap_assoc]
  congr 1
  funext i
  cases i with
  | blank spaces hspaces => simp [Item.lines, Item.rules, checkLine_blank hspaces]
  | note spaces mark text hspaces hmark htext => simp [Item.lines, Item.rules, checkLine_note hspaces hmark]
  | rule b => simp [Item.lines, Item.rules, BrokenRule.reports]

/-- The rules of a file that are to be reported, in order. -/
def dueRules (items : List (Item conf)) : List (Rule conf) := (items.flatMap Item.rules).flatMap BrokenRule.due

theorem told_oneLine_iff {b : BrokenRule conf} (h : b.OneLine) :
    List.Forall₂ Rule.ToldBy b.due b.reports ↔ b.rule.Readable := by
  have hreports : b.reports = b.rule.reported.toList := by
    rw [BrokenRule.reports, BrokenRule.lines, h, continued, Rule.reported]
    cases hline : checkLine conf b.rule.text with
    | none => simp [hline]
    | some report => simp [hline]
  rw [hreports, BrokenRule.due, Rule.told_iff_readable]

/-- When the rules of a file are each on one line and readable, its reports tell of its rules that are to be reported, one
by one and in order. In any file the reports are those of its rules, and what is reported of a rule on one line is what is
to be said of it exactly when the rule is readable. -/
theorem pam_files_read (items : List (Item conf)) :
    ((∀ b ∈ items.flatMap Item.rules, b.OneLine ∧ b.rule.Readable) →
      List.Forall₂ Rule.ToldBy (dueRules items) (checkText conf (fileText items))) ∧
    checkText conf (fileText items) = (items.flatMap Item.rules).flatMap BrokenRule.reports ∧
    ∀ b ∈ items.flatMap Item.rules, b.OneLine → (List.Forall₂ Rule.ToldBy b.due b.reports ↔ b.rule.Readable) := by
  refine ⟨?_, checkText_rules items, fun b _ h => told_oneLine_iff h⟩
  intro h
  rw [checkText_rules, dueRules, List.flatMap_def, List.flatMap_def]
  apply List.rel_flatten
  rw [List.forall₂_map_left_iff, List.forall₂_map_right_iff, List.forall₂_same]
  intro b hb
  obtain ⟨hline, hreadable⟩ := h b hb
  exact (told_oneLine_iff hline).mpr hreadable

end

/-! ### Rules that are not read -/

/-- A rule for a module with one argument, on one line without blanks around it. -/
def sampleRule (typeText : List Char) (spelled : typeText.map Char.toLower = RuleType.auth.name) (control : Control)
    (controlValid : control.Valid) (module : List Char) (named : module ≠ []) (word : ∀ c ∈ module, isWhitespace c = false)
    (arg : List Char) (argNamed : arg ≠ []) (argWord : ∀ c ∈ arg, isWhitespace c = false) : Rule false where
  lead := []
  service := []
  serviceGap := [' ']
  dash := false
  type := .auth
  typeText := typeText
  typeGap := [' ']
  control := control
  controlGap := [' ']
  module := module
  args := [⟨[' '], arg, blank_space, argNamed, argWord⟩]
  trail := []
  leadSpaces := by decide
  serviceWord h := by cases h
  serviceApart := ⟨by decide, by decide⟩
  spelled := spelled
  typeApart := ⟨by decide, by decide⟩
  controlValid := controlValid
  controlApart := ⟨by decide, by decide⟩
  moduleNamed := named
  moduleWord := word
  argSpaces := by simp
  trailSpaces := by decide

/-- A rule that runs a program, with another spelling of its type or another control. -/
def programRule (typeText : List Char) (spelled : typeText.map Char.toLower = RuleType.auth.name) (control : Control)
    (controlValid : control.Valid) : Rule false :=
  sampleRule typeText spelled control controlValid "pam_exec.so".toList (by decide) (by decide) "/bin/x".toList
    (by decide) (by decide)

def required : Control := .word "required".toList

theorem required_valid : required.Valid := ⟨by decide, by decide, by decide⟩

/-- `[x=\]]` -/
def escaped : Control := .group [some 'x', some '=', none]

theorem escaped_valid : escaped.Valid := by
  constructor
  · intro c hc
    simp only [List.mem_cons, Option.some.injEq, reduceCtorEq, List.not_mem_nil, or_false] at hc
    rcases hc with rfl | rfl
    · decide
    · decide
  · decide

def capitalsRule : BrokenRule false where
  rule := programRule "AUTH".toList (by decide) required required_valid
  pieces := ["AUTH required pam_exec.so /bin/x".toList]
  joined := by decide

def escapedRule : BrokenRule false where
  rule := programRule "auth".toList (by decide) escaped escaped_valid
  pieces := ["auth [x=\\]] pam_exec.so /bin/x".toList]
  joined := by decide

def splitRule : BrokenRule false where
  rule := programRule "auth".toList (by decide) required required_valid
  pieces := ["auth required".toList, "pam_exec.so /bin/x".toList]
  joined := by decide

/-- A program that is not given by an absolute path. -/
def quietRule : BrokenRule false where
  rule := sampleRule "auth".toList (by decide) required required_valid "pam_exec.so".toList (by decide) (by decide)
    "quiet".toList (by decide) (by decide)
  pieces := ["auth required pam_exec.so quiet".toList]
  joined := by decide

/-- A module outside the directories, with an argument. -/
def debugRule : BrokenRule false where
  rule := sampleRule "auth".toList (by decide) required required_valid "/tmp/x.so".toList (by decide) (by decide)
    "debug".toList (by decide) (by decide)
  pieces := ["auth required /tmp/x.so debug".toList]
  joined := by decide

/-- Nothing is reported of the first three rules, and the entries of the other two do not have their arguments. -/
theorem pam_files_not_read :
    ¬ ∃ b ∈ [capitalsRule, escapedRule, splitRule, quietRule, debugRule],
      List.Forall₂ Rule.ToldBy (dueRules [.rule b]) (checkText false (fileText [.rule b])) := by
  have hnone : ∀ b ∈ [capitalsRule, escapedRule, splitRule],
      checkText false (fileText [.rule b]) = [] ∧ b.rule.Flagged := by
    decide
  have hwords : ∀ b ∈ [quietRule, debugRule], b.rule.Flagged ∧
      ∀ report ∈ checkText false (fileText [.rule b]), splitWhitespace (report.command.getD []) ≠
        if RunsProgram b.rule.module then b.rule.words else b.rule.module :: b.rule.words := by
    decide
  have hdue (b : BrokenRule false) (h : b.rule.Flagged) : dueRules [.rule b] = [b.rule] := by
    simp [dueRules, Item.rules, BrokenRule.due, Rule.due, h]
  rintro ⟨b, hb, htold⟩
  rw [show [capitalsRule, escapedRule, splitRule, quietRule, debugRule] =
    [capitalsRule, escapedRule, splitRule] ++ [quietRule, debugRule] from rfl, List.mem_append] at hb
  rcases hb with hb | hb
  · obtain ⟨hnil, hflagged⟩ := hnone b hb
    rw [hnil, hdue b hflagged] at htold
    cases htold
  · obtain ⟨hflagged, hreports⟩ := hwords b hb
    rw [hdue b hflagged] at htold
    cases hreport : checkText false (fileText [.rule b]) with
    | nil =>
      rw [hreport] at htold
      cases htold
    | cons report rest =>
      rw [hreport] at htold hreports
      obtain ⟨hhead, -⟩ := List.forall₂_cons.mp htold
      exact hreports report List.mem_cons_self hhead.command

end AbyssalWarden.Pam
