import AbyssalWarden.PamStacks

/-! PAM stacks as they are printed from rules, and which rules the check reads as PAM does. -/
namespace AbyssalWarden.Pam

/-! ### Fields -/

section

variable {w g r rest : List Char} {c : Char}

/-- Words with a space between them are read again. -/
theorem splitWhitespace_intercalate {ws : List (List Char)} (h : ∀ w ∈ ws, w ≠ [] ∧ ∀ c ∈ w, isWhitespace c = false) :
    splitWhitespace ([' '].intercalate ws) = ws := by
  induction ws with
  | nil => rfl
  | cons w ws ih =>
    obtain ⟨⟨hne, hword⟩, hrest⟩ := List.forall_mem_cons.mp h
    cases ws with
    | nil =>
      have hsingle : [' '].intercalate [w] = w := by simp [List.intercalate]
      rw [hsingle, splitWhitespace_single hne hword]
    | cons next ws =>
      have hsplit : [' '].intercalate (w :: next :: ws) = w ++ ' ' :: [' '].intercalate (next :: ws) := by
        simp [List.intercalate]
      rw [hsplit, splitWhitespace_append hne hword (by decide), ih hrest]

/-- Blanks between fields. -/
def Gap (g : List Char) : Prop := g ≠ [] ∧ ∀ c ∈ g, c = ' ' ∨ c = '\t'

/-- Text that goes on with a character that is not white space. -/
def StartsField (s : List Char) : Prop := ∃ c ∈ s.head?, isWhitespace c = false

theorem blank_of_spaces (h : ∀ c ∈ g, c = ' ' ∨ c = '\t') : Blank g := by
  intro c hc
  rcases h c hc with rfl | rfl
  all_goals decide

theorem Gap.blank (h : Gap g) : Blank g := blank_of_spaces h.2

theorem trimStart_blank (hg : Blank g) (hrest : StartsField rest) : trimStart (g ++ rest) = rest := by
  obtain ⟨c, hc, hblank⟩ := hrest
  rw [trimStart, List.dropWhile_append_of_pos hg]
  cases rest with
  | nil => cases hc
  | cons d rest =>
    obtain rfl : d = c := Option.some.inj hc
    exact List.dropWhile_cons_of_neg (by rw [hblank]; exact Bool.false_ne_true)

theorem trimStart_field (hrest : StartsField rest) : trimStart rest = rest :=
  trimStart_blank (g := []) (List.forall_mem_nil _) hrest

/-- A field is split off at the first blank after it. -/
theorem splitBlank_field (hw : ∀ c ∈ w, isWhitespace c = false) (hg : Gap g) :
    splitBlank (w ++ (g ++ rest)) = some (w, g.tail ++ rest) := by
  obtain ⟨c, g, rfl⟩ := List.exists_cons_of_ne_nil hg.1
  have hc := hg.blank c List.mem_cons_self
  have hall : ∀ d ∈ w, (!isWhitespace d) = true := fun d hd => by rw [hw d hd]; rfl
  rw [splitBlank, List.cons_append, if_pos (List.any_eq_true.mpr ⟨c, by simp, hc⟩), List.takeWhile_append_of_pos hall,
    List.dropWhile_append_of_pos hall, List.takeWhile_cons_of_neg (by simp [hc]),
    List.dropWhile_cons_of_neg (by simp [hc]), List.append_nil]
  rfl

theorem tail_blank (hg : Gap g) : Blank g.tail := fun c hc => hg.blank c (List.mem_of_mem_tail hc)

end

/-! ### Modules -/

/-- A module that runs a program: `pam_exec.so`, in any directory. -/
def RunsProgram (module : List Char) : Prop :=
  ∃ dir, module = dir ++ "pam_exec.so".toList ∧ (dir = [] ∨ dir.getLast? = some '/')

/-- A module with an absolute path outside the directories of modules. -/
def OutsideModuleDirs (module : List Char) : Prop := ['/'] <+: module ∧ ∀ dir ∈ moduleDirs, ¬ dir <+: module

theorem splitOn_single {s : List Char} (h : '/' ∉ s) : s.splitOn '/' = [s] :=
  List.splitOnP_eq_singleton fun _ hc => beq_eq_false_iff_ne.mpr fun heq => h (heq ▸ hc)

/-- The last component of a path stands after its last slash. -/
theorem getLast?_splitOn {dir name : List Char} (hname : '/' ∉ name) :
    ((dir ++ '/' :: name).splitOn '/').getLast? = some name := by
  rw [List.splitOn_append_cons_self, splitOn_single hname, List.getLast?_concat]

theorem isPamExec_iff (module : List Char) : isPamExec module = true ↔ RunsProgram module := by
  have hname : '/' ∉ "pam_exec.so".toList := by decide
  rw [isPamExec, decide_eq_true_eq]
  constructor
  · intro h
    by_cases hslash : '/' ∈ module
    · obtain ⟨b, a, hrev, hb⟩ := List.eq_append_cons_of_mem (List.mem_reverse.mpr hslash)
      have hsplit : module = a.reverse ++ '/' :: b.reverse := by
        rw [← List.reverse_reverse module, hrev]
        simp
      rw [hsplit, getLast?_splitOn (by simpa using hb), Option.some.injEq] at h
      refine ⟨a.reverse ++ ['/'], ?_, Or.inr (List.getLast?_concat ..)⟩
      rw [hsplit, h, List.append_assoc, List.singleton_append]
    · rw [splitOn_single hslash] at h
      exact ⟨[], Option.some.inj h, Or.inl rfl⟩
  · rintro ⟨dir, rfl, rfl | hdir⟩
    · rw [List.nil_append, splitOn_single hname]
      rfl
    · obtain ⟨dir, rfl⟩ := List.getLast?_eq_some_iff.mp hdir
      rw [List.append_assoc, List.singleton_append, getLast?_splitOn hname]

theorem isNonstandard_iff (module : List Char) : isNonstandard module = true ↔ OutsideModuleDirs module := by
  simp [isNonstandard, OutsideModuleDirs]

instance (module : List Char) : Decidable (RunsProgram module) := decidable_of_iff _ (isPamExec_iff module)

instance (module : List Char) : Decidable (OutsideModuleDirs module) := decidable_of_iff _ (isNonstandard_iff module)

/-- The module is to be reported. -/
def Suspicious (module : List Char) : Prop := OutsideModuleDirs module ∨ RunsProgram module

instance (module : List Char) : Decidable (Suspicious module) := inferInstanceAs (Decidable (_ ∨ _))

theorem isReported_iff (module : List Char) : isReported module = true ↔ Suspicious module := by
  rw [isReported, Bool.or_eq_true, isNonstandard_iff, isPamExec_iff, Suspicious]

/-! ### Rules -/

inductive RuleType where
  | auth
  | account
  | password
  | session
  deriving DecidableEq

def RuleType.name : RuleType → List Char
  | .auth => "auth".toList
  | .account => "account".toList
  | .password => "password".toList
  | .session => "session".toList

/-- A control: a word, or a group in brackets in which a closing bracket is escaped. -/
inductive Control where
  | word (w : List Char)
  | group (content : List (Option Char))

/-- A part of a group: an escaped bracket, or a character. -/
def groupText : Option Char → List Char
  | none => ['\\', ']']
  | some c => [c]

def Control.text : Control → List Char
  | .word w => w
  | .group content => '[' :: content.flatMap groupText ++ [']']

/-- A word that is no comment, or a group that ends with its closing bracket, on one line. -/
def Control.Valid : Control → Prop
  | .word w => w ≠ [] ∧ (∀ c ∈ w, isWhitespace c = false) ∧ w.head? ≠ some '['
  | .group content => (∀ c, some c ∈ content → c ≠ ']' ∧ c ≠ '\n' ∧ c ≠ '\r') ∧ content.getLast? ≠ some (some '\\')

/-- A rule as it is printed; in `pam.conf` after a service. Its text may be broken at blanks into several lines. -/
structure Rule (conf : Bool) where
  lead : List Char
  service : List Char
  serviceGap : List Char
  dash : Bool
  type : RuleType
  typeText : List Char
  typeGap : List Char
  control : Control
  controlGap : List Char
  module : List Char
  args : List SpacedWord
  trail : List Char
  leadSpaces : ∀ c ∈ lead, c = ' ' ∨ c = '\t'
  serviceWord : conf = true → (∀ c ∈ service, isWhitespace c = false) ∧ (∃ c ∈ service.head?, c ≠ '#' ∧ c ≠ '@')
  serviceApart : Gap serviceGap
  spelled : typeText.map Char.toLower = type.name
  typeApart : Gap typeGap
  controlValid : control.Valid
  controlApart : Gap controlGap
  moduleNamed : module ≠ []
  moduleWord : ∀ c ∈ module, isWhitespace c = false
  argSpaces : ∀ a ∈ args, ∀ c ∈ a.gap, c = ' ' ∨ c = '\t'
  trailSpaces : ∀ c ∈ trail, c = ' ' ∨ c = '\t'

namespace Rule

variable {conf : Bool} {r : Rule conf}

def kind (r : Rule conf) : List Char := (if r.dash then ['-'] else []) ++ r.typeText

/-- The module and its arguments. -/
def call (r : Rule conf) : List Char := r.module ++ r.args.flatMap SpacedWord.print

/-- From the type on. -/
def body (r : Rule conf) : List Char := r.kind ++ (r.typeGap ++ (r.control.text ++ (r.controlGap ++ r.call)))

def core (r : Rule conf) : List Char := if conf then r.service ++ (r.serviceGap ++ r.body) else r.body

/-- The rule on one line. -/
def text (r : Rule conf) : List Char := r.lead ++ r.core ++ r.trail

/-- The arguments of the module. -/
def words (r : Rule conf) : List (List Char) := r.args.map (·.text)

/-- The module is to be reported. -/
def Flagged (r : Rule conf) : Prop := Suspicious r.module

instance : Decidable r.Flagged := inferInstanceAs (Decidable (Suspicious _))

/-- The type is in lower case. -/
def Lower (r : Rule conf) : Prop := r.typeText = r.type.name

instance : Decidable r.Lower := inferInstanceAs (Decidable (_ = _))

theorem typeText_head : ∃ c ∈ r.typeText.head?, c.toLower = 'a' ∨ c.toLower = 'p' ∨ c.toLower = 's' := by
  have hspelled := r.spelled
  cases htext : r.typeText with
  | nil =>
    rw [htext] at hspelled
    cases htype : r.type <;> rw [htype] at hspelled <;> cases hspelled
  | cons c rest =>
    rw [htext, List.map_cons] at hspelled
    refine ⟨c, rfl, ?_⟩
    cases htype : r.type <;> rw [htype] at hspelled
    · exact Or.inl (List.cons.inj hspelled).1
    · exact Or.inl (List.cons.inj hspelled).1
    · exact Or.inr (Or.inl (List.cons.inj hspelled).1)
    · exact Or.inr (Or.inr (List.cons.inj hspelled).1)

theorem kind_word : ∀ c ∈ r.kind, isWhitespace c = false := by
  intro c hc
  rw [kind, List.mem_append] at hc
  rcases hc with hc | hc
  · split at hc
    · rw [List.mem_singleton.mp hc]
      decide
    · cases hc
  · have hlower : c.toLower ∈ r.type.name := by
      rw [← r.spelled]
      exact List.mem_map_of_mem hc
    have hletters : ∀ t : RuleType, ∀ d ∈ t.name, isWhitespace d = false := by
      intro t
      cases t <;> decide
    rw [← isWhitespace_toLower]
    exact hletters _ _ hlower

theorem kind_head : ∃ c ∈ r.kind.head?, isWhitespace c = false ∧ c ≠ '#' ∧ c ≠ '@' := by
  rw [kind]
  cases r.dash with
  | true => exact ⟨'-', rfl, by decide⟩
  | false =>
    obtain ⟨c, hc, hlower⟩ := r.typeText_head
    have hword := r.kind_word c (List.mem_append_right _ (List.mem_of_head? hc))
    refine ⟨c, hc, hword, ?_, ?_⟩
    · rintro rfl
      revert hlower
      decide
    · rintro rfl
      revert hlower
      decide

/-- The type is known exactly when it is in lower case. -/
theorem kind_mem_kinds : r.kind.dropWhile (· = '-') ∈ kinds ↔ r.Lower := by
  have hdrop : r.kind.dropWhile (· = '-') = r.typeText := by
    obtain ⟨c, hc, hlower⟩ := r.typeText_head
    -- only a dash before the type is left out
    have hdash : c ≠ '-' := by
      rintro rfl
      revert hlower
      decide
    have htext : r.typeText.dropWhile (· = '-') = r.typeText := by
      cases htypeText : r.typeText with
      | nil => rfl
      | cons d rest =>
        rw [htypeText] at hc
        obtain rfl : d = c := Option.some.inj hc
        exact List.dropWhile_cons_of_neg (by simpa using hdash)
    rw [kind]
    split
    · rw [List.singleton_append, List.dropWhile_cons_of_pos (by decide), htext]
    · exact htext
  have hlower : ∀ k ∈ kinds, k.map Char.toLower = k := by decide
  rw [hdrop]
  constructor
  · intro h
    rw [Lower, ← r.spelled, hlower _ h]
  · intro h
    rw [h]
    cases r.type <;> decide

theorem call_last : ∃ b ∈ r.call.getLast?, isWhitespace b = false := by
  rw [call]
  rcases List.eq_nil_or_concat r.args with hnil | ⟨args, a, hargs⟩
  · rw [hnil, List.flatMap_nil, List.append_nil, List.getLast?_eq_some_getLast r.moduleNamed]
    exact ⟨_, rfl, r.moduleWord _ (List.getLast_mem _)⟩
  · have hlast : (r.module ++ r.args.flatMap SpacedWord.print).getLast? = some (a.text.getLast a.named) := by
      rw [hargs, List.concat_eq_append, List.flatMap_append, List.flatMap_singleton, SpacedWord.print,
        ← List.append_assoc, ← List.append_assoc, List.getLast?_append, List.getLast?_eq_some_getLast a.named]
      rfl
    exact ⟨_, hlast, a.word _ (List.getLast_mem _)⟩

theorem body_head : ∃ c ∈ r.body.head?, isWhitespace c = false ∧ c ≠ '#' ∧ c ≠ '@' := by
  obtain ⟨c, hc, h⟩ := r.kind_head
  refine ⟨c, ?_, h⟩
  rw [body, List.head?_append, hc]
  rfl

theorem core_head : ∃ c ∈ r.core.head?, isWhitespace c = false ∧ c ≠ '#' ∧ c ≠ '@' := by
  rw [core]
  split
  case isTrue hconf =>
    obtain ⟨hword, c, hc, hcomment, hinclude⟩ := r.serviceWord hconf
    refine ⟨c, ?_, hword c (List.mem_of_head? hc), hcomment, hinclude⟩
    rw [List.head?_append, hc]
    rfl
  case isFalse => exact r.body_head

theorem core_eq : ∃ s, r.core = s ++ r.call := by
  rw [core, body]
  split
  · exact ⟨r.service ++ (r.serviceGap ++ (r.kind ++ (r.typeGap ++ (r.control.text ++ r.controlGap)))), by
      simp only [List.append_assoc]⟩
  · exact ⟨r.kind ++ (r.typeGap ++ (r.control.text ++ r.controlGap)), by simp only [List.append_assoc]⟩

/-- The blanks around a rule are trimmed. -/
theorem trim_text : trim r.text = r.core := by
  obtain ⟨c, hc, hblank, -, -⟩ := r.core_head
  obtain ⟨s, hs⟩ := r.core_eq
  obtain ⟨b, hb, hbblank⟩ := r.call_last
  have hlast : r.core = s ++ r.call.dropLast ++ [b] := by
    rw [hs, List.append_assoc, List.dropLast_append_getLast? b hb]
  calc trim r.text = trim (r.lead ++ r.core) := trim_append_right (blank_of_spaces r.trailSpaces)
    _ = trim r.core := trim_append_left (blank_of_spaces r.leadSpaces)
    _ = r.core := trim_of_ends hblank hbblank hc hlast

/-! ### What is read of a rule on one line -/

/-- No closing bracket is escaped. -/
def Unescaped (r : Rule conf) : Prop :=
  match r.control with
  | .word _ => True
  | .group content => none ∉ content

/-- What is left of a group after the first of its closing brackets. -/
def stray (r : Rule conf) : List Char :=
  match r.control with
  | .word _ => []
  | .group content => if none ∈ content then (content.dropWhile Option.isSome).tail.flatMap groupText ++ [']'] else []

theorem splitWhitespace_call : splitWhitespace r.call = r.module :: r.args.map (·.text) := by
  have hspace : Blank [' '] := by decide
  have hprint := splitWhitespace_print (⟨[' '], r.module, by decide, r.moduleNamed, r.moduleWord⟩ :: r.args) endsWord_nil
  rw [List.append_nil, List.flatMap_cons, SpacedWord.print, List.append_assoc, splitWhitespace_blank_append hspace,
    splitWhitespace_nil, List.append_nil] at hprint
  exact hprint

theorem groupText_bracket {content : List (Option Char)} (hplain : ∀ c, some c ∈ content → c ≠ ']' ∧ c ≠ '\n' ∧ c ≠ '\r')
    (h : none ∉ content) : ']' ∉ content.flatMap groupText := by
  intro hmem
  obtain ⟨part, hpart, hc⟩ := List.mem_flatMap.mp hmem
  cases part with
  | none => exact h hpart
  | some c => exact (hplain c hpart).1 (List.mem_singleton.mp hc).symm

/-- The first bracket that closes, and what follows it. -/
theorem splitOnce_group {content : List (Option Char)} {rest : List Char}
    (hplain : ∀ c, some c ∈ content → c ≠ ']' ∧ c ≠ '\n' ∧ c ≠ '\r') :
    (splitOnce ']' (content.flatMap groupText ++ ']' :: rest)).map Prod.snd =
      some (if none ∈ content then (content.dropWhile Option.isSome).tail.flatMap groupText ++ ']' :: rest else rest) := by
  by_cases hescape : none ∈ content
  · rw [if_pos hescape]
    -- up to the first escape there is no bracket
    obtain ⟨pre, post, rfl, hpre⟩ := List.eq_append_cons_of_mem hescape
    have hbracket : ']' ∉ pre.flatMap groupText ++ ['\\'] := by
      rw [List.mem_append, not_or]
      exact ⟨groupText_bracket (fun c hc => hplain c (List.mem_append_left _ hc)) hpre, by decide⟩
    have hsome : ∀ part ∈ pre, part.isSome = true := by
      intro part hpart
      cases part with
      | none => exact absurd hpart hpre
      | some c => rfl
    have hlist : (pre ++ none :: post).flatMap groupText ++ ']' :: rest =
        (pre.flatMap groupText ++ ['\\']) ++ ']' :: (post.flatMap groupText ++ ']' :: rest) := by
      simp [groupText]
    rw [hlist, splitOnce_append hbracket, List.dropWhile_append_of_pos hsome, List.dropWhile_cons_of_neg (by decide)]
    rfl
  · rw [if_neg hescape, splitOnce_append (groupText_bracket hplain hescape), Option.map_some]

/-- What is read after the control: what is left of its group, then the module and its arguments. -/
theorem afterControl_eq : ∃ rest, afterControl (r.control.text ++ (r.controlGap ++ r.call)) = some rest ∧
    splitWhitespace rest = splitWhitespace r.stray ++ r.module :: r.args.map (·.text) := by
  have hvalid := r.controlValid
  rw [stray]
  cases hcontrol : r.control with
  | word w =>
    rw [hcontrol] at hvalid
    obtain ⟨hne, hword, hbracket⟩ := hvalid
    refine ⟨r.controlGap.tail ++ r.call, ?_, ?_⟩
    -- a word of a control does not start with a bracket
    · obtain ⟨c, w, rfl⟩ := List.exists_cons_of_ne_nil hne
      have hc : c ≠ '[' := fun h => hbracket (congrArg some h)
      have hsplit : splitBlank ((c :: w) ++ (r.controlGap ++ r.call)) = some (c :: w, r.controlGap.tail ++ r.call) :=
        splitBlank_field hword r.controlApart
      rw [Control.text, afterControl.eq_def]
      rw [List.cons_append] at hsplit ⊢
      split
      case h_1 heq => exact absurd (List.cons.inj heq).1 hc
      case h_2 => rw [hsplit, Option.map_some]
    · rw [splitWhitespace_blank_append (tail_blank r.controlApart), splitWhitespace_call]
      rfl
  | group content =>
    rw [hcontrol] at hvalid
    have hlist : (Control.group content).text ++ (r.controlGap ++ r.call) =
        '[' :: (content.flatMap groupText ++ ']' :: (r.controlGap ++ r.call)) := by
      simp [Control.text]
    rw [hlist, afterControl, splitOnce_group hvalid.1]
    refine ⟨_, rfl, ?_⟩
    -- the group ends at the first bracket, escaped or not
    by_cases hescape : none ∈ content
    · simp only [if_pos hescape]
      have hgap (before : List Char) : splitWhitespace (before ++ r.controlGap ++ r.call) =
          splitWhitespace before ++ splitWhitespace r.call := splitWhitespace_gap r.controlApart.1 r.controlApart.blank
      have hgap := hgap ((content.dropWhile Option.isSome).tail.flatMap groupText ++ [']'])
      rw [List.append_assoc, List.append_assoc, List.singleton_append, splitWhitespace_call] at hgap
      exact hgap
    · simp only [if_neg hescape]
      rw [splitWhitespace_blank_append r.controlApart.blank, splitWhitespace_call]
      rfl

theorem control_head : StartsField (r.control.text ++ (r.controlGap ++ r.call)) := by
  have hvalid := r.controlValid
  cases hcontrol : r.control with
  | word w =>
    rw [hcontrol] at hvalid
    obtain ⟨c, w, rfl⟩ := List.exists_cons_of_ne_nil hvalid.1
    exact ⟨c, rfl, hvalid.2.1 c List.mem_cons_self⟩
  | group content => exact ⟨'[', rfl, by decide⟩

theorem body_field : StartsField r.body := by
  obtain ⟨c, hc, hblank, -⟩ := r.body_head
  exact ⟨c, hc, hblank⟩

theorem core_field : StartsField r.core := by
  obtain ⟨c, hc, hblank, -⟩ := r.core_head
  exact ⟨c, hc, hblank⟩

theorem afterService_core : ∃ rest, afterService conf r.core = some rest ∧ trimStart rest = r.body := by
  cases conf with
  | false => exact ⟨r.body, rfl, trimStart_field r.body_field⟩
  | true =>
    have hcore : r.core = r.service ++ (r.serviceGap ++ r.body) := rfl
    have hsplit : splitBlank (r.service ++ (r.serviceGap ++ r.body)) = some (r.service, r.serviceGap.tail ++ r.body) :=
      splitBlank_field (r.serviceWord rfl).1 r.serviceApart
    refine ⟨r.serviceGap.tail ++ r.body, ?_, trimStart_blank (tail_blank r.serviceApart) r.body_field⟩
    rw [afterService, if_pos rfl, trimStart_field r.core_field, hcore, hsplit, Option.map_some]

/-- A rule on one line is read with its own type; its module comes after what is left of its group. -/
theorem parseLine_core : parseLine r.core conf =
    pamLine r.kind (splitWhitespace r.stray ++ r.module :: r.args.map (·.text)) := by
  obtain ⟨c, hc, -, hcomment, hinclude⟩ := r.core_head
  obtain ⟨service, hservice, hbody⟩ := r.afterService_core
  obtain ⟨rest, hrest, hwords⟩ := r.afterControl_eq
  have hfirst : ¬ (r.core = [] ∨ r.core.head? = some '#' ∨ r.core.head? = some '@') := by
    rintro (hnil | hhash | hat)
    · rw [hnil] at hc
      cases hc
    · exact hcomment (Option.some.inj (hc.symm.trans hhash))
    · exact hinclude (Option.some.inj (hc.symm.trans hat))
  have hkind : splitBlank r.body = some (r.kind, r.typeGap.tail ++ (r.control.text ++ (r.controlGap ++ r.call))) :=
    splitBlank_field r.kind_word r.typeApart
  rw [parseLine, if_neg hfirst, hservice]
  simp only [Option.bind_eq_bind, Option.bind_some, hbody, hkind, trimStart_blank (tail_blank r.typeApart) r.control_head,
    hrest, hwords]

/-! ### Reports -/

/-- What is to be said of a rule that is reported: its text, the findings of its module, and an entry with the module and
its arguments. The entry of a module that runs a program has the arguments as its command, any other has the module
with them. -/
structure ToldBy (r : Rule conf) (report : Report) : Prop where
  entry : report.entry = snippet (String.ofList r.core)
  nonstandard : report.nonstandard = if OutsideModuleDirs r.module then some ("loads ".toList ++ r.module) else none
  pamExec : report.pamExec = if RunsProgram r.module then some (r.kind ++ " runs pam_exec".toList) else none
  detail : report.detail = r.kind ++ ' ' :: r.module
  command : splitWhitespace (report.command.getD []) = if RunsProgram r.module then r.words else r.module :: r.words

/-- The rule, where its module is to be reported. -/
def due (r : Rule conf) : List (Rule conf) := if r.Flagged then [r] else []

/-- What the check reports of a rule on one line. -/
def reported (r : Rule conf) : Option Report := checkLine conf r.text

/-- The words that are read after the control. -/
def wordsRead (r : Rule conf) : List (List Char) := splitWhitespace r.stray ++ r.module :: r.words

/-- The first of them is read as the module. -/
def moduleRead (r : Rule conf) : List Char := (splitWhitespace r.stray).head?.getD r.module

def argsRead (r : Rule conf) : List (List Char) := r.wordsRead.tail

/-- The arguments that an entry shows: those of a module that runs a program, when one of them is an absolute path. -/
def shownArgs (module : List Char) (args : List (List Char)) : List (List Char) :=
  if RunsProgram module ∧ ∃ arg ∈ args, ['/'] <+: arg then args else []

/-- A rule that is to be reported has its type in lower case, its own module is read after the control, and all of its
arguments are shown; of any other rule, no module that is to be reported is read. -/
def Readable (r : Rule conf) : Prop :=
  (r.Flagged → r.Lower ∧ r.moduleRead = r.module ∧ shownArgs r.module r.argsRead = r.words) ∧
    (¬ r.Flagged → r.Lower → ¬ Suspicious r.moduleRead)

theorem wordsRead_eq : r.wordsRead = r.moduleRead :: r.argsRead := by
  rw [argsRead, wordsRead, moduleRead]
  cases splitWhitespace r.stray with
  | nil => rfl
  | cons w ws => rfl

theorem stray_eq_nil_iff : splitWhitespace r.stray = [] ↔ r.Unescaped := by
  rw [stray, Unescaped]
  cases r.control with
  | word w => exact ⟨fun _ => trivial, fun _ => splitWhitespace_blank (List.forall_mem_nil _)⟩
  | group content =>
    by_cases hescape : none ∈ content
    · simp only [if_pos hescape]
      constructor
      · intro h
        have hblank := blank_of_splitWhitespace h ']' (List.mem_append_right _ List.mem_cons_self)
        exact absurd hblank (by decide)
      · intro h
        exact absurd hescape h
    · simp only [if_neg hescape]
      exact ⟨fun _ => hescape, fun _ => splitWhitespace_blank (List.forall_mem_nil _)⟩

/-- Without an escaped bracket the rule's own words are read. -/
theorem wordsRead_of_unescaped (h : r.Unescaped) : r.moduleRead = r.module ∧ r.argsRead = r.words := by
  have hread : r.moduleRead :: r.argsRead = r.module :: r.words := by
    rw [← wordsRead_eq, wordsRead, stray_eq_nil_iff.mpr h, List.nil_append]
  exact List.cons.inj hread

/-- A rule on one line is readable if its type is in lower case, no bracket in its control is escaped, and it has no
arguments or runs a program that is given by an absolute path. -/
theorem readable_of_plain (hlower : r.Lower) (hplain : r.Unescaped)
    (hargs : r.words = [] ∨ RunsProgram r.module ∧ ∃ arg ∈ r.words, ['/'] <+: arg) : r.Readable := by
  obtain ⟨hmodule, hread⟩ := wordsRead_of_unescaped hplain
  rw [Readable, hmodule, hread]
  refine ⟨fun _ => ⟨hlower, rfl, ?_⟩, fun hnot _ => hnot⟩
  rcases hargs with hnil | hprogram
  · rw [hnil, shownArgs, ite_self]
  · exact if_pos hprogram

/-! ### What is shown -/

theorem mem_argsRead {arg : List Char} (h : arg ∈ r.argsRead) : arg ≠ [] ∧ ∀ c ∈ arg, isWhitespace c = false := by
  have hread : arg ∈ r.wordsRead := List.mem_of_mem_tail h
  rw [wordsRead, List.mem_append, List.mem_cons] at hread
  rcases hread with hstray | rfl | hword
  · exact ⟨of_decide_eq_true (List.mem_filter.mp hstray).2, mem_splitWhitespace hstray⟩
  · exact ⟨r.moduleNamed, r.moduleWord⟩
  · obtain ⟨a, -, rfl⟩ := List.mem_map.mp hword
    exact ⟨a.named, a.word⟩

/-- The words of the command that an entry has. -/
theorem splitWhitespace_entryCommand {l : PamLine} (hmodule : l.module ≠ [] ∧ ∀ c ∈ l.module, isWhitespace c = false)
    (hargs : ∀ arg ∈ l.args, arg ≠ [] ∧ ∀ c ∈ arg, isWhitespace c = false) :
    splitWhitespace ((entryCommand l).getD []) =
      if RunsProgram l.module then shownArgs l.module l.args else [l.module] := by
  have hstart (arg : List Char) : ['/'].isPrefixOf arg = true ↔ ['/'] <+: arg := List.isPrefixOf_iff_prefix
  by_cases hprogram : RunsProgram l.module
  · have hexec := (isPamExec_iff _).mpr hprogram
    simp only [entryCommand, hexec, if_true, shownArgs, hprogram, true_and]
    cases hfind : l.args.find? (['/'].isPrefixOf ·) with
    | none =>
      have hnot : ¬ ∃ arg ∈ l.args, ['/'] <+: arg := by
        rintro ⟨arg, harg, hpath⟩
        exact List.find?_eq_none.mp hfind arg harg ((hstart arg).mpr hpath)
      rw [if_neg hnot]
      rfl
    | some p =>
      have hsome : ∃ arg ∈ l.args, ['/'] <+: arg :=
        ⟨p, List.mem_of_find?_eq_some hfind, (hstart p).mp (List.find?_some hfind)⟩
      have hne : [' '].intercalate l.args ≠ [] := by
        intro hnil
        have hwords := splitWhitespace_intercalate hargs
        rw [hnil, splitWhitespace_nil] at hwords
        obtain ⟨arg, harg, -⟩ := hsome
        rw [← hwords] at harg
        cases harg
      rw [if_pos hsome, Option.map_some, if_neg hne, Option.getD_some, splitWhitespace_intercalate hargs]
  · have hexec : ¬ isPamExec l.module = true := fun h => hprogram ((isPamExec_iff _).mp h)
    simp only [entryCommand, if_neg hexec, if_neg hprogram, if_true, Option.map_some, Option.getD_some]
    exact splitWhitespace_single hmodule.1 hmodule.2

theorem moduleRead_word : r.moduleRead ≠ [] ∧ ∀ c ∈ r.moduleRead, isWhitespace c = false := by
  have hread : r.moduleRead ∈ r.wordsRead := by
    rw [wordsRead_eq]
    exact List.mem_cons_self
  rw [wordsRead, List.mem_append, List.mem_cons] at hread
  rcases hread with hstray | heq | hword
  · exact ⟨of_decide_eq_true (List.mem_filter.mp hstray).2, mem_splitWhitespace hstray⟩
  · rw [heq]
    exact ⟨r.moduleNamed, r.moduleWord⟩
  · obtain ⟨a, -, heq⟩ := List.mem_map.mp hword
    rw [← heq]
    exact ⟨a.named, a.word⟩

/-- A rule whose type is in lower case is reported with what is read after its control. -/
theorem reported_eq : r.reported =
    if r.Lower ∧ Suspicious r.moduleRead then reportOf r.core ⟨r.kind, r.moduleRead, r.argsRead⟩ else none := by
  have hline : parseLine r.core conf = if r.Lower then some ⟨r.kind, r.moduleRead, r.argsRead⟩ else none := by
    rw [parseLine_core, ← words, ← wordsRead, wordsRead_eq, pamLine]
    exact if_congr kind_mem_kinds rfl rfl
  rw [reported, checkLine, trim_text, hline]
  by_cases hlower : r.Lower
  · by_cases hsuspicious : Suspicious r.moduleRead
    · rw [if_pos hlower, if_pos ⟨hlower, hsuspicious⟩, Option.bind_some]
    · have hnot : ¬ isReported r.moduleRead = true := fun h => hsuspicious ((isReported_iff _).mp h)
      rw [if_pos hlower, if_neg fun h => hsuspicious h.2, Option.bind_some, reportOf, if_neg hnot]
  · rw [if_neg hlower, if_neg fun h => hlower h.1, Option.bind_none]

/-- What is read is what is to be said of the rule exactly when the module is the rule's and its arguments are shown. -/
theorem toldBy_iff {report : Report} (h : reportOf r.core ⟨r.kind, r.moduleRead, r.argsRead⟩ = some report) :
    r.ToldBy report ↔ r.moduleRead = r.module ∧ shownArgs r.module r.argsRead = r.words := by
  -- the words of the command, as the entry shows them
  have hcommand : splitWhitespace (report.command.getD []) =
      if RunsProgram r.moduleRead then shownArgs r.moduleRead r.argsRead else [r.moduleRead] := by
    rw [← splitWhitespace_entryCommand (l := ⟨r.kind, r.moduleRead, r.argsRead⟩) moduleRead_word fun _ => mem_argsRead]
    rw [reportOf] at h
    split at h
    · obtain rfl := Option.some.inj h
      rfl
    · cases h
  have hshown (hnot : ¬ RunsProgram r.module) : shownArgs r.module r.argsRead = [] := if_neg fun h => hnot h.1
  -- the detail ends in the module, and the command has the arguments
  constructor
  · intro htold
    have hmodule : r.moduleRead = r.module := by
      have hdetail := htold.detail
      rw [reportOf] at h
      split at h
      · obtain rfl := Option.some.inj h
        exact (List.cons.inj (List.append_cancel_left hdetail)).2
      · cases h
    refine ⟨hmodule, ?_⟩
    have hwords := htold.command
    rw [hcommand, hmodule] at hwords
    by_cases hprogram : RunsProgram r.module
    · rwa [if_pos hprogram, if_pos hprogram] at hwords
    · rw [if_neg hprogram, if_neg hprogram] at hwords
      rw [hshown hprogram, (List.cons.inj hwords).2]
  · rintro ⟨hmodule, hwords⟩
    rw [hmodule] at h hcommand
    rw [reportOf] at h
    split at h
    case isFalse => cases h
    case isTrue =>
      obtain rfl := Option.some.inj h
      refine ⟨rfl, ?_, ?_, rfl, ?_⟩
      · exact if_congr (isNonstandard_iff _) rfl rfl
      · exact if_congr (isPamExec_iff _) rfl rfl
      · rw [hcommand]
        by_cases hprogram : RunsProgram r.module
        · rw [if_pos hprogram, if_pos hprogram, hwords]
        · rw [if_neg hprogram, if_neg hprogram, ← hwords, hshown hprogram]

/-- A rule on one line is reported as it should be exactly when it is readable. -/
theorem told_iff_readable : List.Forall₂ ToldBy r.due r.reported.toList ↔ r.Readable := by
  rw [reported_eq, due, Readable]
  by_cases hread : r.Lower ∧ Suspicious r.moduleRead
  · obtain ⟨report, hreport⟩ : ∃ report, reportOf r.core ⟨r.kind, r.moduleRead, r.argsRead⟩ = some report :=
      ⟨_, if_pos ((isReported_iff _).mpr hread.2)⟩
    rw [if_pos hread, hreport, Option.toList_some]
    by_cases hflagged : r.Flagged
    · rw [if_pos hflagged]
      simp only [List.forall₂_cons, List.Forall₂.nil, and_true, toldBy_iff hreport, hflagged, hread.1, true_and,
        forall_const, not_true_eq_false, false_implies]
    · have hnot : ¬ List.Forall₂ ToldBy (if r.Flagged then [r] else []) [report] := by
        rw [if_neg hflagged]
        rintro ⟨⟩
      exact iff_of_false hnot fun h => h.2 hflagged hread.1 hread.2
  · rw [if_neg hread, Option.toList_none]
    by_cases hflagged : r.Flagged
    · have hnot : ¬ List.Forall₂ ToldBy (if r.Flagged then [r] else []) [] := by
        rw [if_pos hflagged]
        rintro ⟨⟩
      refine iff_of_false hnot fun h => hread ?_
      obtain ⟨hlower, hmodule, -⟩ := h.1 hflagged
      exact ⟨hlower, hmodule ▸ hflagged⟩
    · rw [if_neg hflagged]
      exact iff_of_true .nil ⟨fun h => absurd h hflagged, fun _ hlower hsuspicious => hread ⟨hlower, hsuspicious⟩⟩

end Rule

end AbyssalWarden.Pam
