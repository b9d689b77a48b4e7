import AbyssalWarden.LocationRules
import AbyssalWarden.WinRules

/-! The place of a Windows executable in other spellings of its path. -/
namespace AbyssalWarden.WinRules

open Spelling

/-- Slashes as backslashes, and letters in lower case. -/
def folded (path : List Char) : List Char := lowercase (path.map fun c => if c = '/' then '\\' else c)

/-- Slashes and letter case do not matter. -/
theorem classify_folded {t t' : List Char} (h : folded t = folded t') : classify t = classify t' := by
  rw [folded, folded] at h
  rw [classify, classify, h]

/-! ### Marks among the parts of a path -/

def recycleBin : List Char := "$recycle.bin".toList

/-- The names of the marks that are directories. -/
def markNames : List (List (List Char)) :=
  [["temp".toList], ["tmp".toList], ["users".toList, "public".toList], ["perflogs".toList], ["windows".toList, "tasks".toList]]

/-- The directories of the second test. -/
def homes : List (List Char) := ["users".toList, "programdata".toList]

/-- What follows the first part of a path shows a mark. -/
def Marked (xs : List (List Char)) : Prop :=
  (∃ names ∈ markNames, ∃ pre post, post ≠ [] ∧ xs = pre ++ (names ++ post)) ∨ ∃ part ∈ xs, recycleBin <:+: part

theorem tempMarks_iff {t : List Char} : t ∈ tempMarks ↔
    t = recycleBin ∨ ∃ names ∈ markNames, t = '\\' :: names.flatMap (· ++ ['\\']) := by
  simp only [tempMarks, markNames, List.mem_cons, List.not_mem_nil, or_false, exists_eq_or_imp, exists_eq_left]
  have hrecycle : recycleBin = "$recycle.bin".toList := rfl
  have htemp : '\\' :: ["temp".toList].flatMap (· ++ ['\\']) = "\\temp\\".toList := rfl
  have htmp : '\\' :: ["tmp".toList].flatMap (· ++ ['\\']) = "\\tmp\\".toList := rfl
  have hpublic : '\\' :: ["users".toList, "public".toList].flatMap (· ++ ['\\']) = "\\users\\public\\".toList := rfl
  have hlogs : '\\' :: ["perflogs".toList].flatMap (· ++ ['\\']) = "\\perflogs\\".toList := rfl
  have htasks : '\\' :: ["windows".toList, "tasks".toList].flatMap (· ++ ['\\']) = "\\windows\\tasks\\".toList := rfl
  rw [hrecycle, htemp, htmp, hpublic, hlogs, htasks]
  tauto

theorem markNames_clean : ∀ names ∈ markNames, ∀ n ∈ names, '\\' ∉ n ∧ isIdle n = false ∧ n ≠ up ∧ n ≠ ['?'] ∧ n ≠ "unc".toList ∧
    ':' ∉ n := by decide

/-! ### What the code reads of a path, by its parts -/

section

variable {t start : List Char} {xs ys : List (List Char)}

theorem classify_def : classify t = if tempMarks.any (fun m => (folded t).tails.any (m.isPrefixOf ·)) then .temp
    else if ":\\users\\".toList.isPrefixOf (afterFirst (folded t)) ||
      ":\\programdata\\".toList.isPrefixOf (afterFirst (folded t)) then .userWritable
    else .other := rfl

theorem classify_eq_temp_iff : classify t = .temp ↔ ∃ m ∈ tempMarks, m <:+: folded t := by
  have hany : (tempMarks.any fun m => (folded t).tails.any (m.isPrefixOf ·)) = true ↔ ∃ m ∈ tempMarks, m <:+: folded t := by
    rw [List.any_eq_true]
    apply exists_congr
    intro m
    apply and_congr_right
    intro _
    rw [List.any_eq_true, List.infix_iff_prefix_suffix]
    simp only [List.mem_tails, List.isPrefixOf_iff_prefix, and_comm]
  rw [← hany, classify_def]
  split
  case isTrue h => exact iff_of_true rfl h
  case isFalse h =>
    split
    · exact iff_of_false nofun h
    · exact iff_of_false nofun h

theorem classify_eq_userWritable_iff : classify t = .userWritable ↔ classify t ≠ .temp ∧
    ∃ home ∈ homes, ":\\".toList ++ home ++ ['\\'] <+: afterFirst (folded t) := by
  have husers : ":\\users\\".toList = ":\\".toList ++ "users".toList ++ ['\\'] := rfl
  have hdata : ":\\programdata\\".toList = ":\\".toList ++ "programdata".toList ++ ['\\'] := rfl
  have hhome : (":\\users\\".toList.isPrefixOf (afterFirst (folded t)) ||
      ":\\programdata\\".toList.isPrefixOf (afterFirst (folded t))) = true ↔
      ∃ home ∈ homes, ":\\".toList ++ home ++ ['\\'] <+: afterFirst (folded t) := by
    rw [Bool.or_eq_true, List.isPrefixOf_iff_prefix, List.isPrefixOf_iff_prefix, husers, hdata]
    simp only [homes, List.mem_cons, List.not_mem_nil, or_false, exists_eq_or_imp, exists_eq_left]
  rw [← hhome, classify_def]
  split
  · exact iff_of_false nofun fun h => h.1 rfl
  · split
    case isTrue h => exact iff_of_true rfl ⟨nofun, h⟩
    case isFalse h => exact iff_of_false nofun fun h' => h h'.2

/-- The temp marks of a path are those of its parts after the first. -/
theorem temp_iff_marked (hsplit : (folded t).splitOn '\\' = start :: xs) (hstart : ¬ recycleBin <:+: start) :
    classify t = .temp ↔ Marked xs := by
  have hnames {names : List (List Char)} (h : names ∈ markNames) : '\\' :: names.flatMap (· ++ ['\\']) <:+: folded t ↔
      ∃ pre post, post ≠ [] ∧ xs = pre ++ (names ++ post) := by
    rw [isInfix_iff fun n hn => (markNames_clean names h n hn).1, hsplit]
    constructor
    · rintro ⟨pre, post, hpre, hpost, heq⟩
      obtain ⟨part, pre, rfl⟩ := List.exists_cons_of_ne_nil hpre
      exact ⟨pre, post, hpost, (List.cons.inj heq).2⟩
    · rintro ⟨pre, post, hpost, rfl⟩
      exact ⟨start :: pre, post, List.cons_ne_nil _ _, hpost, rfl⟩
  have hbin : recycleBin <:+: folded t ↔ ∃ part ∈ xs, recycleBin <:+: part := by
    have hplain : '\\' ∉ recycleBin := by decide
    rw [isInfix_word_iff hplain, hsplit]
    simp [hstart]
  rw [classify_eq_temp_iff, Marked]
  constructor
  · rintro ⟨m, hm, hinfix⟩
    rcases tempMarks_iff.mp hm with rfl | ⟨names, h, rfl⟩
    · exact Or.inr (hbin.mp hinfix)
    · exact Or.inl ⟨names, h, (hnames h).mp hinfix⟩
  · rintro (⟨names, h, hplace⟩ | hplace)
    · exact ⟨_, tempMarks_iff.mpr (Or.inr ⟨names, h, rfl⟩), (hnames h).mpr hplace⟩
    · exact ⟨recycleBin, tempMarks_iff.mpr (Or.inl rfl), hbin.mpr hplace⟩

/-- On a drive, the directory of the second test is the first one. -/
theorem home_iff {letter : Char} (hletter : letter.toNat < 0x80) (hxs : xs ≠ [])
    (hsplit : (folded t).splitOn '\\' = [letter, ':'] :: xs) :
    (∃ home ∈ homes, ":\\".toList ++ home ++ ['\\'] <+: afterFirst (folded t)) ↔
      ∃ home ∈ homes, ∃ rest, rest ≠ [] ∧ xs = home :: rest := by
  -- behind the letter and the colon stand the parts
  have htext : folded t = letter :: ':' :: '\\' :: ['\\'].intercalate xs := by
    have hwhole : ['\\'].intercalate ((folded t).splitOn '\\') = folded t := List.intercalate_splitOn '\\'
    rw [← hwhole, hsplit, List.intercalate_cons_of_ne_nil hxs]
    rfl
  have hparts : (['\\'].intercalate xs).splitOn '\\' = xs := by
    apply List.splitOn_intercalate _ _ hxs
    intro part hpart
    apply not_mem_of_mem_splitOn (p := folded t)
    rw [hsplit]
    exact List.mem_cons_of_mem _ hpart
  rw [htext, afterFirst, if_pos hletter]
  apply exists_congr
  intro home
  apply and_congr_right
  intro hhome
  have hclean : ∀ h ∈ homes, '\\' ∉ h := by decide
  have hnames : ∀ n ∈ [home], '\\' ∉ n := List.forall_mem_singleton.mpr (hclean home hhome)
  have hprefix := isPrefix_iff (p := ['\\'].intercalate xs) hnames
  rw [List.flatMap_singleton, hparts] at hprefix
  rw [List.append_assoc]
  exact (List.cons_prefix_cons.trans (and_iff_right rfl)).trans
    ((List.cons_prefix_cons.trans (and_iff_right rfl)).trans hprefix)

/-- A path that starts with two separators is on no drive. -/
theorem not_home (hxs : xs ≠ []) (hsplit : (folded t).splitOn '\\' = [] :: [] :: xs) :
    ¬ ∃ home ∈ homes, ":\\".toList ++ home ++ ['\\'] <+: afterFirst (folded t) := by
  have htext : folded t = '\\' :: '\\' :: ['\\'].intercalate xs := by
    have hwhole : ['\\'].intercalate ((folded t).splitOn '\\') = folded t := List.intercalate_splitOn '\\'
    rw [← hwhole, hsplit,
      List.intercalate_cons_of_ne_nil (List.cons_ne_nil _ _), List.intercalate_cons_of_ne_nil hxs]
    rfl
  rintro ⟨home, -, hprefix⟩
  rw [htext, afterFirst, if_pos (by decide)] at hprefix
  rw [List.append_assoc] at hprefix
  exact absurd (List.cons_prefix_cons.mp hprefix).1 (by decide)

end

/-! ### Absolute paths -/

/-- Neither separators nor capitals. -/
def Folded (part : List Char) : Prop := ∀ c ∈ part, c ≠ '\\' ∧ c ≠ '/' ∧ c.toLower = c

instance (part : List Char) : Decidable (Folded part) := inferInstanceAs (Decidable (∀ c ∈ part, _))

/-- A drive, or a share of a server. -/
inductive Root where
  | drive (letter : Char) (hletter : letter.isLower = true)
  | share (server name : List Char) (hserver : Folded server ∧ isIdle server = false) (hname : Folded name ∧ isIdle name = false)

/-- What comes before the first separator. -/
def Root.start : Root → List Char
  | .drive letter _ => [letter, ':']
  | .share .. => []

/-- The parts after it that are no components. -/
def Root.fixed : Root → List (List Char)
  | .drive .. => []
  | .share server name _ _ => [[], server, name]

/-- The parts of the root after the first, with the prefix of verbatim paths. -/
def Root.verbatim : Root → List (List Char)
  | .drive letter _ => [[], ['?'], [letter, ':']]
  | .share server name _ _ => [[], ['?'], "unc".toList, server, name]

/-- An absolute path, up to slashes and letter case. -/
structure Place where
  root : Root
  parts : List (List Char)
  clean : ∀ part ∈ parts, Folded part
  rooted : root.fixed = [] → parts ≠ []

def Place.text (place : Place) : List Char := ['\\'].intercalate (place.root.start :: (place.root.fixed ++ place.parts))

/-- The path with the prefix `\\?\`. -/
def Place.verbatimText (place : Place) : List Char := ['\\'].intercalate ([] :: (place.root.verbatim ++ place.parts))

section

variable {t part : List Char} {xs ys names : List (List Char)} {root : Root} {place : Place}

theorem mem_intercalate {c : Char} (h : c ∈ ['\\'].intercalate xs) : c = '\\' ∨ ∃ part ∈ xs, c ∈ part := by
  induction xs with
  | nil => cases h
  | cons part xs ih =>
    cases xs with
    | nil =>
      rw [List.intercalate_singleton] at h
      exact Or.inr ⟨part, List.mem_cons_self, h⟩
    | cons next xs =>
      rw [List.intercalate_cons_cons, List.append_assoc, List.mem_append, List.singleton_append, List.mem_cons] at h
      rcases h with h | h | h
      · exact Or.inr ⟨part, List.mem_cons_self, h⟩
      · exact Or.inl h
      · rcases ih h with h | ⟨other, hother, h⟩
        · exact Or.inl h
        · exact Or.inr ⟨other, List.mem_cons_of_mem _ hother, h⟩

theorem folded_eq_self (h : ∀ c ∈ t, c ≠ '/' ∧ c.toLower = c) : folded t = t := by
  have hself : ∀ c ∈ t, (Char.toLower ∘ fun c => if c = '/' then '\\' else c) c = id c := by
    intro c hc
    obtain ⟨hslash, hlower⟩ := h c hc
    rw [Function.comp_apply, if_neg hslash, hlower]
    rfl
  rw [folded, lowercase, List.map_map, List.map_congr_left hself, List.map_id]

theorem folded_intercalate (h : ∀ part ∈ xs, Folded part) : folded (['\\'].intercalate xs) = ['\\'].intercalate xs := by
  apply folded_eq_self
  intro c hc
  rcases mem_intercalate hc with rfl | ⟨part, hpart, hc⟩
  · decide
  · exact (h part hpart c hc).2

theorem splitOn_intercalate_folded (h : ∀ part ∈ xs, Folded part) (hxs : xs ≠ []) :
    (['\\'].intercalate xs).splitOn '\\' = xs :=
  List.splitOn_intercalate '\\' (fun part hpart hc => (h part hpart _ hc).1 rfl) hxs

theorem folded_start : Folded root.start := by
  cases root with
  | drive letter hletter =>
    intro c hc
    rcases List.mem_pair.mp hc with rfl | rfl
    · refine ⟨?_, ?_, ?_⟩
      · rintro rfl
        cases hletter
      · rintro rfl
        cases hletter
      · simp only [Char.isLower, Bool.and_eq_true, decide_eq_true_eq, ge_iff_le, UInt32.le_iff_toNat_le] at hletter
        rw [Char.toLower, dif_neg]
        rintro ⟨-, hupper⟩
        exact absurd (hletter.1.trans hupper) (by decide)
    · decide
  | share server name hserver hname => exact List.forall_mem_nil _

theorem folded_fixed : ∀ part ∈ root.fixed, Folded part := by
  cases root with
  | drive letter hletter => exact List.forall_mem_nil _
  | share server name hserver hname =>
    simp only [Root.fixed, List.forall_mem_cons]
    exact ⟨List.forall_mem_nil _, hserver.1, hname.1, List.forall_mem_nil _⟩

theorem folded_verbatim : ∀ part ∈ root.verbatim, Folded part := by
  cases root with
  | drive letter hletter =>
    have hstart : Folded (Root.drive letter hletter).start := folded_start
    rw [Root.start] at hstart
    simp only [Root.verbatim, List.forall_mem_cons]
    exact ⟨by decide, by decide, hstart, List.forall_mem_nil _⟩
  | share server name hserver hname =>
    simp only [Root.verbatim, List.forall_mem_cons]
    exact ⟨by decide, by decide, by decide, hserver.1, hname.1, List.forall_mem_nil _⟩

theorem folded_all : ∀ part ∈ place.root.start :: (place.root.fixed ++ place.parts), Folded part := by
  intro part hpart
  rcases List.mem_cons.mp hpart with rfl | hpart
  · exact folded_start
  · rcases List.mem_append.mp hpart with hpart | hpart
    · exact folded_fixed part hpart
    · exact place.clean part hpart

theorem folded_text : folded place.text = place.text := folded_intercalate folded_all

theorem splitOn_text (h : folded t = place.text) :
    (folded t).splitOn '\\' = place.root.start :: (place.root.fixed ++ place.parts) := by
  rw [h, Place.text, splitOn_intercalate_folded folded_all (List.cons_ne_nil _ _)]

theorem splitOn_verbatim (h : folded t = place.verbatimText) :
    (folded t).splitOn '\\' = [] :: (place.root.verbatim ++ place.parts) := by
  have hall : ∀ part ∈ [] :: (place.root.verbatim ++ place.parts), Folded part := by
    intro part hpart
    rcases List.mem_cons.mp hpart with rfl | hpart
    · exact List.forall_mem_nil _
    · rcases List.mem_append.mp hpart with hpart | hpart
      · exact folded_verbatim part hpart
      · exact place.clean part hpart
  rw [h, Place.verbatimText, splitOn_intercalate_folded hall (List.cons_ne_nil _ _)]

/-- Directly below a directory of users, on a drive. -/
def AtHome (root : Root) (xs : List (List Char)) : Prop :=
  root.fixed = [] ∧ ∃ home ∈ homes, ∃ rest, rest ≠ [] ∧ xs = home :: rest

theorem not_recycleBin_short (h : part.length < 12) : ¬ recycleBin <:+: part := by
  intro hinfix
  have hle := hinfix.length_le
  have hlength : recycleBin.length = 12 := by decide
  omega

theorem temp_iff (h : folded t = place.text) : classify t = .temp ↔ Marked (place.root.fixed ++ place.parts) := by
  apply temp_iff_marked (splitOn_text h)
  apply not_recycleBin_short
  cases place.root with
  | drive letter hletter =>
    rw [Root.start, List.length_cons, List.length_singleton]
    decide
  | share server name hserver hname =>
    rw [Root.start, List.length_nil]
    decide

theorem userWritable_iff (h : folded t = place.text) : classify t = .userWritable ↔
    ¬ Marked (place.root.fixed ++ place.parts) ∧ AtHome place.root place.parts := by
  have hsplit := splitOn_text h
  have hrooted := place.rooted
  rw [classify_eq_userWritable_iff, Ne, temp_iff h]
  apply and_congr_right
  intro _
  cases hroot : place.root with
  | drive letter hletter =>
    rw [hroot] at hsplit hrooted
    have hascii : letter.toNat < 0x80 := by
      have hletter := hletter
      simp only [Char.isLower, Bool.and_eq_true, decide_eq_true_eq, ge_iff_le, UInt32.le_iff_toNat_le] at hletter
      exact Nat.lt_of_le_of_lt hletter.2 (by decide)
    rw [home_iff hascii (hrooted rfl) hsplit, AtHome]
    exact (and_iff_right rfl).symm
  | share server name hserver hname =>
    rw [hroot] at hsplit
    exact iff_of_false (not_home (List.cons_ne_nil _ _) hsplit) fun hhome => List.cons_ne_nil _ _ hhome.1

/-! ### The prefix of verbatim paths -/

/-- A part that is no mark and no part of one. -/
def Neutral (part : List Char) : Prop := (∀ names ∈ markNames, part ∉ names) ∧ ¬ recycleBin <:+: part

theorem markNames_ne_nil : ∀ names ∈ markNames, names ≠ [] := by decide

theorem marked_cons (h : Neutral part) : Marked (part :: xs) ↔ Marked xs := by
  constructor
  · rintro (⟨names, hnames, pre, post, hpost, heq⟩ | ⟨other, hother, hinfix⟩)
    · left
      cases pre with
      | nil =>
        obtain ⟨n, names', rfl⟩ := List.exists_cons_of_ne_nil (markNames_ne_nil names hnames)
        rw [List.nil_append, List.cons_append] at heq
        exact absurd (by rw [(List.cons.inj heq).1]; exact List.mem_cons_self) (h.1 _ hnames)
      | cons p pre => exact ⟨names, hnames, pre, post, hpost, (List.cons.inj heq).2⟩
    · rcases List.mem_cons.mp hother with rfl | hother
      · exact absurd hinfix h.2
      · exact Or.inr ⟨other, hother, hinfix⟩
  · rintro (⟨names, hnames, pre, post, hpost, rfl⟩ | ⟨other, hother, hinfix⟩)
    · exact Or.inl ⟨names, hnames, part :: pre, post, hpost, rfl⟩
    · exact Or.inr ⟨other, List.mem_cons_of_mem _ hother, hinfix⟩

theorem neutral_of_short (h : part.length < 12) (hnames : ∀ names ∈ markNames, part ∉ names) : Neutral part :=
  ⟨hnames, not_recycleBin_short h⟩

theorem marked_verbatim : Marked (root.verbatim ++ xs) ↔ Marked (root.fixed ++ xs) := by
  have hempty : Neutral [] := neutral_of_short (by decide) (by decide)
  have hquestion : Neutral ['?'] := neutral_of_short (by decide) (by decide)
  have hunc : Neutral "unc".toList := neutral_of_short (by decide) (by decide)
  cases root with
  | drive letter hletter =>
    have hdrive : Neutral [letter, ':'] := by
      refine neutral_of_short (by rw [List.length_cons, List.length_singleton]; decide) fun names hnames hmem => ?_
      exact (markNames_clean names hnames _ hmem).2.2.2.2.2 (by simp)
    simp only [Root.verbatim, Root.fixed, List.cons_append, List.nil_append]
    rw [marked_cons hempty, marked_cons hquestion, marked_cons hdrive]
  | share server name hserver hname =>
    simp only [Root.verbatim, Root.fixed, List.cons_append, List.nil_append]
    rw [marked_cons hempty, marked_cons hquestion, marked_cons hunc, marked_cons hempty]

/-- The prefix of verbatim paths hides that a path is directly below a directory of users, and nothing else. -/
theorem classify_verbatim_iff {t' : List Char} (h : folded t = place.text) (h' : folded t' = place.verbatimText) :
    classify t' = classify t ↔ (AtHome place.root place.parts → Marked (place.root.fixed ++ place.parts)) := by
  have hsplit := splitOn_verbatim h'
  -- the verbatim prefix changes nothing about temporary directories
  have htemp : classify t' = .temp ↔ classify t = .temp := by
    rw [temp_iff_marked hsplit (not_recycleBin_short (by decide)), marked_verbatim, temp_iff h]
  -- behind the prefix the directory of users is too deep to be found
  have hhome : classify t' ≠ .userWritable := by
    rw [Ne, classify_eq_userWritable_iff, not_and]
    intro _
    cases hroot : place.root with
    | drive letter hletter =>
      rw [hroot] at hsplit
      exact not_home (List.cons_ne_nil _ _) hsplit
    | share server name hserver hname =>
      rw [hroot] at hsplit
      exact not_home (List.cons_ne_nil _ _) hsplit
  rw [← temp_iff h]
  have huser := userWritable_iff h
  rw [← temp_iff h] at huser
  cases hverdict : classify t with
  | temp => exact iff_of_true (htemp.mpr hverdict) fun _ => rfl
  | userWritable =>
    refine iff_of_false hhome fun himp => ?_
    cases himp (huser.mp hverdict).2
  | other =>
    refine iff_of_true ?_ fun hat => ?_
    · cases hverdict' : classify t' with
      | temp => exact absurd (htemp.mp hverdict') (by rw [hverdict]; nofun)
      | userWritable => exact absurd hverdict' hhome
      | other => rfl
    · have hat' := huser.mpr ⟨by rw [hverdict]; nofun, hat⟩
      rw [hverdict] at hat'
      cases hat'

end

end AbyssalWarden.WinRules
