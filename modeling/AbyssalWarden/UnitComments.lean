import AbyssalWarden.UdevPrograms
import AbyssalWarden.UnitText

/-! Comment lines among continued lines. Lines are joined before comments are left out, so a comment is joined with what
it follows or precedes when there is a backslash between them. -/
namespace AbyssalWarden.SystemCheck

/-- A line whose first character that is not blank starts a comment of a unit. -/
def isComment (line : List Char) : Bool :=
  match line.dropWhile isWhitespace with
  | [] => false
  | c :: _ => c = '#' || c = ';'

/-- A line that starts a comment of a rule file. -/
def isRuleComment (line : List Char) : Bool := line.head? = some '#'

/-- The lines without the comments. -/
def withoutComments (comment : List Char → Bool) (ls : List (List Char)) : List (List Char) :=
  ls.filter fun l => ! comment l

/-- No backslash joins a comment with a line that is none. -/
def Separate (comment : List Char → Bool) (ls : List (List Char)) : Prop :=
  ls.IsChain fun a b => a.getLast? = some '\\' → comment a = comment b

/-- A line as it is joined with the next ones. -/
def uncontinued (line : List Char) : List Char := (stripBackslash line).getD line

variable {β : Type*} {comment : List Char → Bool} {f : List Char → List β} {ls : List (List Char)}
  {line cur : List Char}

theorem stripBackslash_eq_some {stripped : List Char} (h : stripBackslash line = some stripped) :
    line.getLast? = some '\\' ∧ uncontinued line = stripped := by
  refine ⟨?_, by rw [uncontinued, h, Option.getD_some]⟩
  unfold stripBackslash at h
  split at h
  · assumption
  · cases h

theorem uncontinued_of_none (h : stripBackslash line = none) : uncontinued line = line := by
  rw [uncontinued, h, Option.getD_none]

/-- If nothing is read of joined lines that start with a comment, then comments can be left out. The lines are joined
from a fresh line, from continued lines without a comment, or from a comment. -/
theorem flatMap_joinLines (hf : ∀ line rest, comment line = true → f (uncontinued line ++ rest) = [])
    (hsep : Separate comment ls) :
    (joinLines [] ls).flatMap f = (joinLines [] (withoutComments comment ls)).flatMap f ∧
    ((∀ l ∈ ls.head?, comment l = false) → ∀ cur,
      (joinLines cur ls).flatMap f = (joinLines cur (withoutComments comment ls)).flatMap f) ∧
    ((∀ l ∈ ls.head?, comment l = true) → ∀ line rest, comment line = true →
      (joinLines (uncontinued line ++ rest) ls).flatMap f =
        (joinLines [] (withoutComments comment ls)).flatMap f) := by
  induction ls with
  | nil =>
    refine ⟨rfl, fun _ _ => rfl, fun _ line rest hline => ?_⟩
    simp only [withoutComments, List.filter_nil, joinLines]
    split
    · rfl
    · rw [List.flatMap_singleton, hf line rest hline]
      rfl
  | cons l ls ih =>
    obtain ⟨hfresh, hplain, hcomment⟩ := ih hsep.tail
    have hnext (hl : l.getLast? = some '\\') : ∀ m ∈ ls.head?, comment m = comment l := by
      intro m hm
      cases ls with
      | nil => cases hm
      | cons m' ls =>
        obtain rfl : m' = m := Option.some.inj hm
        exact ((List.isChain_cons_cons.mp hsep).1 hl).symm
    -- from continued lines without a comment, which a fresh line is, too
    have hkeep (hl : comment l = false) (cur : List Char) :
        (joinLines cur (l :: ls)).flatMap f = (joinLines cur (withoutComments comment (l :: ls))).flatMap f := by
      have hfilter : withoutComments comment (l :: ls) = l :: withoutComments comment ls :=
        List.filter_cons_of_pos (by simp [hl])
      rw [hfilter, joinLines, joinLines]
      cases hstrip : stripBackslash l with
      | none => simp only [List.flatMap_cons, hfresh]
      | some stripped =>
        obtain ⟨hlast, -⟩ := stripBackslash_eq_some hstrip
        exact hplain (fun m hm => (hnext hlast m hm).trans hl) _
    have hdrop (hl : comment l = true) : withoutComments comment (l :: ls) = withoutComments comment ls :=
      List.filter_cons_of_neg (by simp [hl])
    -- from a comment: all that is joined with it is read as nothing
    have hskip (hl : comment l = true) (line rest : List Char) (hline : comment line = true) :
        (joinLines (uncontinued line ++ rest) (l :: ls)).flatMap f =
          (joinLines [] (withoutComments comment ls)).flatMap f := by
      rw [joinLines]
      cases hstrip : stripBackslash l with
      | none =>
        simp only [List.append_assoc, List.flatMap_cons, hf line _ hline, List.nil_append]
        exact hfresh
      | some stripped =>
        obtain ⟨hlast, -⟩ := stripBackslash_eq_some hstrip
        simp only [List.append_assoc]
        exact hcomment (fun m hm => (hnext hlast m hm).trans hl) line _ hline
    refine ⟨?_, fun hhead => hkeep (hhead l rfl), fun hhead line rest hline => ?_⟩
    · cases hl : comment l with
      | false => exact hkeep hl []
      | true =>
        rw [hdrop hl, joinLines]
        cases hstrip : stripBackslash l with
        | none =>
          have hnone : f l = [] := by
            have h := hf l [] hl
            rwa [uncontinued_of_none hstrip, List.append_nil] at h
          simp only [List.nil_append, List.flatMap_cons, hnone]
          exact hfresh
        | some stripped =>
          obtain ⟨hlast, heq⟩ := stripBackslash_eq_some hstrip
          simp only [List.nil_append, ← heq]
          exact hcomment (fun m hm => (hnext hlast m hm).trans hl) l [' '] hl
    · rw [hdrop (hhead l rfl)]
      exact hskip (hhead l rfl) line rest hline

/-! ### Units and rules -/

/-- The first character that is not blank is still there without a backslash at the end, and with more text. -/
theorem head_uncontinued {c : Char} {w rest : List Char} (hw : Blank w) (hc : isWhitespace c = false) (hne : c ≠ '\\')
    (hline : line = w ++ c :: rest) (more : List Char) : (trim (uncontinued line ++ more)).head? = some c := by
  have hform : ∃ rest, uncontinued line = w ++ c :: rest := by
    unfold uncontinued stripBackslash
    split
    · rename_i hlast
      cases hrest : rest with
      | nil =>
        rw [hline, hrest, List.getLast?_concat] at hlast
        exact absurd (Option.some.inj hlast) hne
      | cons d rest =>
        refine ⟨(d :: rest).dropLast, ?_⟩
        rw [Option.getD_some, hline, hrest, List.dropLast_append_cons, List.dropLast_cons_cons]
    · exact ⟨rest, by rw [Option.getD_none, hline]⟩
  obtain ⟨rest', hrest'⟩ := hform
  rw [hrest', List.append_assoc, trim_append_left hw]
  exact head?_trim_cons hc

theorem settingOf_comment (h : isComment line = true) (rest : List Char) :
    (settingOf (uncontinued line ++ rest)).toList = [] := by
  cases hdrop : line.dropWhile isWhitespace with
  | nil =>
    rw [isComment, hdrop] at h
    cases h
  | cons c t =>
    rw [isComment, hdrop, Bool.or_eq_true, decide_eq_true_eq, decide_eq_true_eq] at h
    have hsplit : line = line.takeWhile isWhitespace ++ c :: t := by
      rw [← hdrop, List.takeWhile_append_dropWhile]
    have hw : Blank (line.takeWhile isWhitespace) := fun d hd => List.mem_takeWhile_imp hd
    -- the sign of a comment is neither a blank nor a backslash
    have hc : isWhitespace c = false ∧ c ≠ '\\' := by
      rcases h with heq | heq
      · rw [heq]
        decide
      · rw [heq]
        decide
    have hhead := head_uncontinued hw hc.1 hc.2 hsplit rest
    -- so it is still the first character when lines are joined
    have hskip : trim (uncontinued line ++ rest) = [] ∨ (trim (uncontinued line ++ rest)).head? = some '#' ∨
        (trim (uncontinued line ++ rest)).head? = some ';' ∨ (trim (uncontinued line ++ rest)).head? = some '[' := by
      rw [hhead]
      rcases h with heq | heq
      · exact Or.inr (Or.inl (congrArg some heq))
      · exact Or.inr (Or.inr (Or.inl (congrArg some heq)))
    unfold settingOf
    rw [if_pos hskip]
    rfl

theorem programs_comment (h : isRuleComment line = true) (rest : List Char) :
    Udev.programs (uncontinued line ++ rest) = [] := by
  cases line with
  | nil => cases h
  | cons c t =>
    obtain rfl : c = '#' := Option.some.inj (of_decide_eq_true h)
    have hnil : Blank [] := fun d hd => absurd hd List.not_mem_nil
    have hhead : (trim (uncontinued ('#' :: t) ++ rest)).head? = some '#' :=
      head_uncontinued hnil (by decide) (by decide) (List.nil_append ('#' :: t)).symm rest
    rw [Udev.programs]
    exact if_pos hhead

/-- The text of lines -/
def textOf (ls : List (List Char)) : List Char := unlines '\n' ls

/-- What `check` of the udev rules gets of a text. -/
def rulePrograms (text : List Char) : List (List Char × List Char) := (logicalLines text).flatMap Udev.programs

theorem settings_textOf (hls : ∀ l ∈ ls, '\n' ∉ l ∧ l.getLast? ≠ some '\r') :
    settings (textOf ls) = (joinLines [] ls).flatMap fun line => (settingOf line).toList := by
  rw [settings, logicalLines, textOf, lines_unlines_of_last hls, List.filterMap_eq_flatMap_toList]

theorem withoutComments_subset : ∀ l ∈ withoutComments comment ls, l ∈ ls := fun _ hl => List.mem_of_mem_filter hl

/-- Comment lines that no backslash joins with other lines can be left out of a unit and of a rule file. -/
theorem comments_hide_nothing (ls : List (List Char)) (hls : ∀ l ∈ ls, '\n' ∉ l ∧ l.getLast? ≠ some '\r') :
    (Separate isComment ls →
      parseUnit (textOf ls) = parseUnit (textOf (withoutComments isComment ls))) ∧
    (Separate isRuleComment ls →
      rulePrograms (textOf ls) = rulePrograms (textOf (withoutComments isRuleComment ls))) := by
  constructor
  · intro hsep
    have hrest : ∀ l ∈ withoutComments isComment ls, '\n' ∉ l ∧ l.getLast? ≠ some '\r' := fun l hl =>
      hls l (withoutComments_subset l hl)
    rw [parseUnit_eq, parseUnit_eq, settings_textOf hls, settings_textOf hrest,
      (flatMap_joinLines (fun line rest hline => settingOf_comment hline rest) hsep).1]
  · intro hsep
    have hrest : ∀ l ∈ withoutComments isRuleComment ls, '\n' ∉ l ∧ l.getLast? ≠ some '\r' := fun l hl =>
      hls l (withoutComments_subset l hl)
    simp only [rulePrograms, logicalLines, textOf, lines_unlines_of_last hls, lines_unlines_of_last hrest]
    exact (flatMap_joinLines (fun line rest hline => programs_comment hline rest) hsep).1

/-- A comment that goes on in another one, and a command -/
def continuedComment : List (List Char) := ["# see \\".toList, "; the manual".toList, "ExecStart=/tmp/x".toList]

theorem comments_hide_nothing_sample :
    parseUnit (textOf continuedComment) = parseUnit (textOf (withoutComments isComment continuedComment)) :=
  (comments_hide_nothing continuedComment (by decide)).1 (by unfold Separate; decide)

/-- A comment that ends in a backslash, and a command -/
def swallowedCommand : List (List Char) := ["# see \\".toList, "ExecStart=/tmp/x".toList]

/-- The command is read when the comment is left out, and not with it. -/
theorem comment_hides_command : (parseUnit (textOf swallowedCommand)).exec = [] ∧
    (parseUnit (textOf (withoutComments isComment swallowedCommand))).exec =
      [("ExecStart".toList, "/tmp/x".toList)] ∧
    parseUnit (textOf swallowedCommand) ≠ parseUnit (textOf (withoutComments isComment swallowedCommand)) := by
  decide

end AbyssalWarden.SystemCheck
