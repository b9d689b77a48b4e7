import AbyssalWarden.WindowsSpellings

/-! Which location verdicts hold for every spelling of a place. -/
namespace AbyssalWarden.WinRules

open Spelling

section

variable {part : List Char} {xs ys names : List (List Char)} {root : Root} {place : Place}

/-- Directories that are a mark of their own. -/
def scratch : List (List Char) := ["temp".toList, "tmp".toList, "perflogs".toList]

/-- The components of a place show a mark however they are spelled: something goes on after a scratch directory, the
recycle bin, or a mark in the root. -/
def Lasting (root : Root) (names : List (List Char)) : Prop :=
  (∃ n ∈ scratch, n ∈ (root.fixed ++ names).dropLast) ∨ (∃ part ∈ root.fixed ++ names, recycleBin <:+: part) ∨
    ∃ mark ∈ markNames, ∃ pre post, root.fixed = pre ++ (mark ++ post) ∧ (post ≠ [] ∨ names ≠ [])

/-- The components of a place show a mark, or a directory of users, in some spelling. -/
def Named (root : Root) (names : List (List Char)) : Prop :=
  (∃ mark ∈ markNames, mark <:+: root.fixed ++ names) ∨ (∃ part ∈ root.fixed ++ names, recycleBin <:+: part) ∨
    root.fixed = [] ∧ ∃ home ∈ homes, names.head? = some home

theorem scratch_mark {n : List Char} (h : n ∈ scratch) : [n] ∈ markNames := by
  have hall : ∀ n ∈ scratch, [n] ∈ markNames := by decide
  exact hall n h

/-- A mark is a scratch directory, or two names. -/
theorem mark_cases {mark : List (List Char)} (h : mark ∈ markNames) :
    (∃ n ∈ scratch, mark = [n]) ∨ ∃ a b, mark = [a, b] ∧ a ≠ here ∧ b ≠ here := by
  have hall : ∀ mark ∈ markNames, (mark.length = 1 ∧ ∀ n ∈ mark, n ∈ scratch) ∨
      mark.length = 2 ∧ ∀ n ∈ mark, n ≠ here := by decide
  rcases hall mark h with ⟨hlength, hscratch⟩ | ⟨hlength, hhere⟩
  · obtain ⟨n, rfl⟩ := List.length_eq_one_iff.mp hlength
    exact Or.inl ⟨n, hscratch n List.mem_cons_self, rfl⟩
  · obtain ⟨a, b, rfl⟩ := List.length_eq_two.mp hlength
    exact Or.inr ⟨a, b, rfl, hhere a (by simp), hhere b (by simp)⟩

/-- A name before the end has something after it. -/
theorem exists_after_of_mem_dropLast {n : List Char} (h : n ∈ xs.dropLast) : ∃ pre post, post ≠ [] ∧ xs = pre ++ ([n] ++ post) := by
  rcases List.eq_nil_or_concat xs with rfl | ⟨ys, last, rfl⟩
  · cases h
  · rw [List.concat_eq_append, List.dropLast_concat] at h
    obtain ⟨pre, post, rfl⟩ := List.append_of_mem h
    refine ⟨pre, post ++ [last], List.append_ne_nil_of_right_ne_nil _ (List.cons_ne_nil _ _), ?_⟩
    rw [List.concat_eq_append, List.append_assoc]
    rfl

theorem sublist_dropLast (h : xs.Sublist ys) : xs.dropLast.Sublist ys.dropLast := by
  have htail := h.reverse.tail.reverse
  rwa [List.tail_reverse, List.tail_reverse, List.reverse_reverse, List.reverse_reverse] at htail

/-- What lasts is shown by every spelling that holds the components in their order. -/
theorem marked_of_lasting (h : Lasting root names) (hsub : names.Sublist xs) : Marked (root.fixed ++ xs) := by
  have hall : (root.fixed ++ names).Sublist (root.fixed ++ xs) := (List.Sublist.refl _).append hsub
  rcases h with ⟨n, hn, hmem⟩ | ⟨part, hpart, hinfix⟩ | ⟨mark, hmark, pre, post, hfixed, hpost⟩
  · obtain ⟨pre, post, hpost, hsplit⟩ := exists_after_of_mem_dropLast ((sublist_dropLast hall).subset hmem)
    exact Or.inl ⟨[n], scratch_mark hn, pre, post, hpost, hsplit⟩
  · exact Or.inr ⟨part, hall.subset hpart, hinfix⟩
  · refine Or.inl ⟨mark, hmark, pre, post ++ xs, ?_, ?_⟩
    · rcases hpost with hpost | hnames
      · exact List.append_ne_nil_of_left_ne_nil hpost xs
      · apply List.append_ne_nil_of_right_ne_nil
        rintro rfl
        exact hnames (List.sublist_nil.mp hsub)
    · rw [hfixed, List.append_assoc, List.append_assoc]

/-! ### The spelling that hides most -/

/-- On a drive, a component that stays before all others. -/
def Root.lead : Root → List (List Char)
  | .drive .. => [here]
  | .share .. => []

/-- The components with a component that stays before each. -/
def apart (root : Root) (names : List (List Char)) : List (List Char) := root.lead ++ names.flatMap fun n => [here, n]

theorem filter_apart (h : ∀ n ∈ names, isIdle n = false) : (apart root names).filter (!isIdle ·) = names := by
  have hnames : (names.flatMap fun n => [here, n]).filter (!isIdle ·) = names := by
    induction names with
    | nil => rfl
    | cons n names ih =>
      obtain ⟨hn, htail⟩ := List.forall_mem_cons.mp h
      rw [List.flatMap_cons, List.filter_append, ih htail, List.filter_cons_of_neg (by decide),
        List.filter_cons_of_pos (by rw [hn]; rfl)]
      rfl
  rw [apart, List.filter_append, hnames]
  cases root with
  | drive letter hletter => rfl
  | share server name hserver hname => rfl

theorem mem_apart (h : part ∈ apart root names) : part = here ∨ part ∈ names := by
  rcases List.mem_append.mp h with h | h
  · cases root with
    | drive letter hletter => exact Or.inl (List.mem_singleton.mp h)
    | share server name hserver hname => cases h
  · obtain ⟨n, hn, h⟩ := List.mem_flatMap.mp h
    rcases List.mem_pair.mp h with rfl | rfl
    · exact Or.inl rfl
    · exact Or.inr hn

/-- Of two parts side by side one is the component that stays. -/
theorem apart_alternates : (apart root names).IsChain fun a b => a = here ∨ b = here := by
  have hnames : (names.flatMap fun n => [here, n]).IsChain fun a b => a = here ∨ b = here := by
    induction names with
    | nil => exact List.IsChain.nil
    | cons n names ih =>
      rw [List.flatMap_cons]
      refine List.isChain_append.mpr ⟨List.isChain_pair.mpr (Or.inl rfl), ih, ?_⟩
      intro a _ b hb
      cases names with
      | nil => cases hb
      | cons n' names => exact Or.inr (Option.some.inj hb).symm
  rw [apart]
  cases root with
  | drive letter hletter =>
    refine List.isChain_append.mpr ⟨List.isChain_singleton _, hnames, ?_⟩
    intro a ha b _
    exact Or.inl (Option.some.inj ha).symm
  | share server name hserver hname => exact hnames

theorem head_apart {n : List Char} {rest : List (List Char)} (h : apart root names = n :: rest) : n = here := by
  rw [apart] at h
  cases root with
  | drive letter hletter => exact (List.cons.inj h).1.symm
  | share server name hserver hname =>
    cases names with
    | nil => cases h
    | cons n' names => exact (List.cons.inj h).1.symm

/-- The parts before the last one are the root, components before the last, and components that stay. -/
theorem mem_dropLast_apart {n : List Char} (hn : n ≠ here) (h : n ∈ (root.fixed ++ apart root names).dropLast) :
    n ∈ (root.fixed ++ names).dropLast := by
  rcases List.eq_nil_or_concat names with rfl | ⟨pre, last, rfl⟩
  · cases root with
    | drive letter hletter => cases h
    | share server name hserver hname => exact h
  · have hlast : (root.fixed ++ apart root (pre ++ [last])).dropLast = root.fixed ++ apart root pre ++ [here] := by
      have hlist : root.fixed ++ apart root (pre ++ [last]) = root.fixed ++ apart root pre ++ [here] ++ [last] := by
        rw [apart, apart, List.flatMap_append, List.flatMap_singleton]
        simp only [List.append_assoc, List.cons_append, List.nil_append]
      rw [hlist, List.dropLast_concat]
    rw [List.concat_eq_append] at h ⊢
    rw [hlast, List.append_assoc, List.mem_append, List.mem_append, List.mem_singleton] at h
    rw [← List.append_assoc, List.dropLast_concat, List.mem_append]
    rcases h with h | h | h
    · exact Or.inl h
    · exact Or.inr ((mem_apart h).resolve_left hn)
    · exact absurd h hn

/-- Two names side by side are both in the root. -/
theorem pair_in_root {a b : List Char} {pre post : List (List Char)} (ha : a ≠ here) (hb : b ≠ here)
    (h : root.fixed ++ apart root names = pre ++ ([a, b] ++ post)) :
    ∃ t, root.fixed = pre ++ ([a, b] ++ t) ∧ post = t ++ apart root names := by
  rcases List.append_eq_append_iff.mp h with ⟨t, -, hrest⟩ | ⟨t, hfixed, hrest⟩
  · have hchain : (apart root names).IsChain fun a b => a = here ∨ b = here := apart_alternates
    rw [hrest] at hchain
    have hpair := (List.isChain_append.mp hchain).2.1
    rw [List.cons_append, List.cons_append, List.isChain_cons_cons] at hpair
    exact absurd hpair.1 (not_or.mpr ⟨ha, hb⟩)
  · rcases t with _ | ⟨a', _ | ⟨b', t⟩⟩
    · exact absurd (head_apart hrest.symm) ha
    · exact absurd (head_apart (List.cons.inj hrest).2.symm) hb
    · obtain ⟨hfirst, htail⟩ := List.cons.inj hrest
      obtain ⟨hsecond, hpost⟩ := List.cons.inj htail
      subst hfirst hsecond
      exact ⟨t, hfixed, hpost⟩

/-- What does not last is hidden by the components that stay. -/
theorem lasting_of_marked_apart (h : Marked (root.fixed ++ apart root names)) : Lasting root names := by
  have hscratch : ∀ n ∈ scratch, n ≠ here := by decide
  rcases h with ⟨mark, hmark, pre, post, hpost, hsplit⟩ | ⟨part, hpart, hinfix⟩
  · rcases mark_cases hmark with ⟨n, hn, rfl⟩ | ⟨a, b, rfl, ha, hb⟩
    · refine Or.inl ⟨n, hn, mem_dropLast_apart (hscratch n hn) ?_⟩
      rw [hsplit, List.dropLast_append_of_ne_nil (List.append_ne_nil_of_right_ne_nil _ hpost),
        List.dropLast_append_of_ne_nil hpost]
      simp
    · obtain ⟨t, hfixed, hrest⟩ := pair_in_root ha hb hsplit
      refine Or.inr (Or.inr ⟨[a, b], hmark, pre, t, hfixed, ?_⟩)
      by_contra hnone
      rw [not_or, not_not, not_not] at hnone
      obtain ⟨rfl, rfl⟩ := hnone
      cases root with
      | drive letter hletter => exact absurd hfixed.symm (List.append_ne_nil_of_right_ne_nil _ (List.cons_ne_nil _ _))
      | share server name hserver hname => exact hpost hrest
  · rcases List.mem_append.mp hpart with hpart | hpart
    · exact Or.inr (Or.inl ⟨part, List.mem_append_left _ hpart, hinfix⟩)
    · rcases mem_apart hpart with rfl | hpart
      · exact absurd hinfix (not_recycleBin_short (by decide))
      · exact Or.inr (Or.inl ⟨part, List.mem_append_right _ hpart, hinfix⟩)

theorem not_atHome_apart : ¬ AtHome root (apart root names) := by
  rintro ⟨hfixed, home, hhome, rest, -, heq⟩
  have hne : ∀ h ∈ homes, h ≠ here := by decide
  exact hne home hhome (head_apart heq)

/-! ### Verdicts -/

variable {t : List Char} {pairs : Bool}

theorem text_temp_iff (place : Place) : classify place.text = .temp ↔ Marked (place.root.fixed ++ place.parts) :=
  temp_iff folded_text

theorem text_userWritable_iff (place : Place) : classify place.text = .userWritable ↔
    ¬ Marked (place.root.fixed ++ place.parts) ∧ AtHome place.root place.parts := userWritable_iff folded_text

theorem other_of_unmarked (h : folded t = place.text) (hmarked : ¬ Marked (place.root.fixed ++ place.parts))
    (hhome : ¬ AtHome place.root place.parts) : classify t = .other := by
  have htemp := (temp_iff h).not.mpr hmarked
  have huser := (userWritable_iff h).not.mpr fun hboth => hhome hboth.2
  cases hverdict : classify t with
  | temp => exact absurd hverdict htemp
  | userWritable => exact absurd hverdict huser
  | other => rfl

/-- A path at the same root, with other parts. -/
def Place.withParts (place : Place) (parts : List (List Char)) (clean : ∀ part ∈ parts, Folded part)
    (rooted : place.root.fixed = [] → parts ≠ []) : Place := ⟨place.root, parts, clean, rooted⟩

theorem clean_location : ∀ part ∈ location '\\' pairs place.parts, Folded part :=
  fun part hpart => place.clean part (location_sublist.subset hpart)

/-- The spelling with a component that stays before each of the components of the place. -/
def Place.apart (place : Place) (pairs : Bool) : Place :=
  place.withParts (WinRules.apart place.root (location '\\' pairs place.parts))
    (fun part hpart => by
      rcases mem_apart hpart with rfl | hpart
      · decide
      · exact clean_location part hpart)
    (fun hfixed => by
      cases hroot : place.root with
      | drive letter hletter => exact List.cons_ne_nil _ _
      | share server name hserver hname =>
        rw [hroot] at hfixed
        cases hfixed)

theorem respelled_apart : Respelled '\\' pairs place.parts (place.apart pairs).parts := by
  refine respelled_location.trans (respelled_of_filter ?_)
  have hkept : (location '\\' pairs place.parts).filter (!isIdle ·) = location '\\' pairs place.parts :=
    List.filter_eq_self.mpr fun part hpart => by rw [location_kept part hpart]; rfl
  rw [hkept]
  exact (filter_apart location_kept).symm

theorem classify_apart (h : ¬ Lasting place.root (location '\\' pairs place.parts)) (ht : folded t = (place.apart pairs).text) :
    classify t = .other :=
  other_of_unmarked ht (fun hmarked => h (lasting_of_marked_apart hmarked)) not_atHome_apart

/-- The verdict is the same for all spellings of a place. -/
def SameVerdict (pairs : Bool) (place : Place) : Prop :=
  ∀ place' : Place, place'.root = place.root → Respelled '\\' pairs place.parts place'.parts →
    ∀ t t', folded t = place.text → folded t' = place'.text → classify t' = classify t

theorem sameVerdict_of_lasting (h : Lasting place.root (location '\\' pairs place.parts)) : SameVerdict pairs place := by
  intro place' hroot hparts t t' ht ht'
  have htemp : classify t = .temp := (temp_iff ht).mpr (marked_of_lasting h location_sublist)
  have hlasting : Lasting place'.root (location '\\' pairs place'.parts) := by
    rw [hroot, ← respelled_iff.mp hparts]
    exact h
  rw [htemp, (temp_iff ht').mpr (marked_of_lasting hlasting location_sublist)]

/-- Two spellings that must have one verdict: the one that hides most, and any other. -/
theorem SameVerdict.other (h : SameVerdict pairs place) (hlasting : ¬ Lasting place.root (location '\\' pairs place.parts))
    (place' : Place) (hroot : place'.root = place.root) (hparts : Respelled '\\' pairs place.parts place'.parts) :
    classify place'.text = .other := by
  have hshown := h place' hroot hparts place.text place'.text folded_text folded_text
  have hhidden := h (place.apart pairs) rfl respelled_apart place.text (place.apart pairs).text folded_text folded_text
  rw [hshown, ← hhidden, classify_apart hlasting folded_text]

/-- With names that are taken back, the verdict is the same for all spellings exactly when a mark lasts. -/
theorem sameVerdict_true_iff : SameVerdict true place ↔ Lasting place.root (location '\\' true place.parts) := by
  constructor
  · intro h
    by_contra hlasting
    have hclean : ∀ part ∈ "temp".toList :: up :: place.parts, Folded part :=
      List.forall_mem_cons.mpr ⟨by decide, List.forall_mem_cons.mpr ⟨by decide, place.clean⟩⟩
    have hparts : Respelled '\\' true place.parts ("temp".toList :: up :: place.parts) :=
      (Inserted.pair [] place.parts "temp".toList rfl (by decide)).respelled
    have hother := h.other hlasting (place.withParts _ hclean fun _ => List.cons_ne_nil _ _) rfl hparts
    have htemp := (text_temp_iff (place.withParts _ hclean fun _ => List.cons_ne_nil _ _)).mpr
      (Or.inl ⟨["temp".toList], List.mem_cons_self, place.root.fixed, up :: place.parts, List.cons_ne_nil _ _, rfl⟩)
    rw [hother] at htemp
    cases htemp
  · exact sameVerdict_of_lasting

theorem fixed_suffix : root.fixed.filter (!isIdle ·) <:+ root.fixed := by
  cases root with
  | drive letter hletter => exact List.suffix_refl _
  | share server name hserver hname =>
    refine ⟨[[]], ?_⟩
    rw [Root.fixed, List.filter_cons_of_neg (by decide), List.filter_cons_of_pos (by rw [hserver.2]; rfl),
      List.filter_cons_of_pos (by rw [hname.2]; rfl)]
    rfl

/-- A mark of a spelling is one of its components. -/
theorem named_of_marked (h : Marked (root.fixed ++ xs)) : Named root (xs.filter (!isIdle ·)) := by
  rcases h with ⟨mark, hmark, pre, post, -, hsplit⟩ | ⟨part, hpart, hinfix⟩
  · left
    have hkept : mark.filter (!isIdle ·) = mark :=
      List.filter_eq_self.mpr fun n hn => by rw [(markNames_clean mark hmark n hn).2.1]; rfl
    have hfilter := congrArg (List.filter (!isIdle ·)) hsplit
    rw [List.filter_append, List.filter_append, List.filter_append, hkept] at hfilter
    have hinfix : mark <:+: root.fixed.filter (!isIdle ·) ++ xs.filter (!isIdle ·) := by
      rw [hfilter, ← List.append_assoc]
      exact List.infix_append _ _ _
    obtain ⟨s, hs⟩ : root.fixed.filter (!isIdle ·) <:+ root.fixed := fixed_suffix
    refine ⟨mark, hmark, hinfix.trans ⟨s, [], ?_⟩⟩
    rw [List.append_nil, ← List.append_assoc, hs]
  · right
    left
    rcases List.mem_append.mp hpart with hpart | hpart
    · exact ⟨part, List.mem_append_left _ hpart, hinfix⟩
    · have hidle : isIdle part = false := by
        rw [Bool.eq_false_iff]
        intro hidle
        rcases of_decide_eq_true hidle with rfl | rfl
        · exact not_recycleBin_short (by decide) hinfix
        · exact not_recycleBin_short (by decide) hinfix
      exact ⟨part, List.mem_append_right _ (List.mem_filter.mpr ⟨hpart, by rw [hidle]; rfl⟩), hinfix⟩

theorem named_of_atHome (h : AtHome root xs) : Named root (xs.filter (!isIdle ·)) := by
  obtain ⟨hfixed, home, hhome, rest, -, rfl⟩ := h
  have hidle : ∀ h ∈ homes, isIdle h = false := by decide
  refine Or.inr (Or.inr ⟨hfixed, home, hhome, ?_⟩)
  rw [List.filter_cons_of_pos (by rw [hidle home hhome]; rfl)]
  rfl

/-- What a place shows in some spelling is shown with a component that stays at the end. -/
theorem shown_of_named (h : Named root names) : Marked (root.fixed ++ (names ++ [here])) ∨ AtHome root (names ++ [here]) := by
  rcases h with ⟨mark, hmark, s, t, hsplit⟩ | ⟨part, hpart, hinfix⟩ | ⟨hfixed, home, hhome, hhead⟩
  · refine Or.inl (Or.inl ⟨mark, hmark, s, t ++ [here], List.append_ne_nil_of_right_ne_nil _ (List.cons_ne_nil _ _), ?_⟩)
    rw [← List.append_assoc, ← hsplit, List.append_assoc, List.append_assoc]
  · refine Or.inl (Or.inr ⟨part, ?_, hinfix⟩)
    rw [← List.append_assoc]
    exact List.mem_append_left _ hpart
  · cases names with
    | nil => cases hhead
    | cons n rest =>
      obtain rfl := Option.some.inj hhead
      exact Or.inr ⟨hfixed, n, hhome, rest ++ [here], List.append_ne_nil_of_right_ne_nil _ (List.cons_ne_nil _ _), rfl⟩

/-- With components that stay and repeated separators, the verdict is the same for all spellings exactly when every mark
of the place lasts. -/
theorem sameVerdict_false_iff : SameVerdict false place ↔
    (Named place.root (location '\\' false place.parts) → Lasting place.root (location '\\' false place.parts)) := by
  constructor
  -- a mark that does not last is undone by a component that stays
  · intro h hnamed
    by_contra hlasting
    have hclean : ∀ part ∈ location '\\' false place.parts ++ [here], Folded part := by
      intro part hpart
      rcases List.mem_append.mp hpart with hpart | hpart
      · exact clean_location part hpart
      · rw [List.mem_singleton.mp hpart]
        decide
    have hparts : Respelled '\\' false place.parts (location '\\' false place.parts ++ [here]) := by
      have hdot : Respelled '\\' false (location '\\' false place.parts ++ []) (location '\\' false place.parts ++ [here]) :=
        (Inserted.dot _ []).respelled
      rw [List.append_nil] at hdot
      exact respelled_location.trans hdot
    have hrooted : place.root.fixed = [] → location '\\' false place.parts ++ [here] ≠ [] :=
      fun _ => List.append_ne_nil_of_right_ne_nil _ (List.cons_ne_nil _ _)
    have hother := h.other hlasting (place.withParts _ hclean hrooted) rfl hparts
    have htemp := text_temp_iff (place.withParts _ hclean hrooted)
    have huser := text_userWritable_iff (place.withParts _ hclean hrooted)
    rw [hother] at htemp huser
    have hmarked : ¬ Marked (place.root.fixed ++ (location '\\' false place.parts ++ [here])) :=
      fun hmarked => Location.noConfusion (htemp.mpr hmarked)
    rcases shown_of_named hnamed with hshown | hhome
    · exact hmarked hshown
    · exact Location.noConfusion (huser.mpr ⟨hmarked, hhome⟩)
  · intro h
    -- a place without a mark is an other one however it is spelled
    by_cases hnamed : Named place.root (location '\\' false place.parts)
    · exact sameVerdict_of_lasting (h hnamed)
    · have hother : ∀ (place' : Place) (t : List Char), place'.root = place.root →
          Respelled '\\' false place.parts place'.parts → folded t = place'.text → classify t = .other := by
        intro place' t hroot hparts ht
        rw [respelled_iff.mp hparts, ← hroot, location_false] at hnamed
        exact other_of_unmarked ht (fun hmarked => hnamed (named_of_marked hmarked)) fun hhome => hnamed (named_of_atHome hhome)
      intro place' hroot hparts t t' ht ht'
      rw [hother place' t' hroot hparts ht', hother place t rfl Respelled.refl ht]

end

end AbyssalWarden.WinRules

namespace AbyssalWarden.Locations

open Spelling

/-- Which verdicts on the places `/p` and `place` hold for all their spellings. Components that stay and repeated
separators do not matter to the two rules about executables; they matter to modules below a module directory, and on
Windows to places that show a mark which does not last. With names that are taken back, only hidden names and lasting
marks are seen in every spelling. On Windows, slashes and letter case do not matter, and the prefix of verbatim paths
hides that a path is directly below a directory of users. -/
theorem location_verdicts_exact (p : List Char) (own : Bool) (place : WinRules.Place) :
    (∀ q, Respelled '/' false (parts p) (parts q) →
      inTempDir ('/' :: q) = inTempDir ('/' :: p) ∧ isHidden ('/' :: q) = isHidden ('/' :: p) ∧
        locationRule ('/' :: q) own = locationRule ('/' :: p) own) ∧
    ((∀ q, Respelled '/' false (parts p) (parts q) → Pam.isNonstandard ('/' :: q) = Pam.isNonstandard ('/' :: p)) ↔
      ¬ BelowModules p) ∧
    (¬ ∀ q, Respelled '/' true (parts p) (parts q) → inTempDir ('/' :: q) = inTempDir ('/' :: p)) ∧
    (¬ ∀ q, Respelled '/' true (parts p) (parts q) → locationRule ('/' :: q) own = locationRule ('/' :: p) own) ∧
    ((∀ q, Respelled '/' true (parts p) (parts q) → isHidden ('/' :: q) = isHidden ('/' :: p)) ↔ Dotted p) ∧
    (¬ ∀ q, Respelled '/' true (parts p) (parts q) → Pam.isNonstandard ('/' :: q) = Pam.isNonstandard ('/' :: p)) ∧
    (∀ t t', WinRules.folded t = WinRules.folded t' → WinRules.classify t = WinRules.classify t') ∧
    (∀ t t', WinRules.folded t = place.text → WinRules.folded t' = place.verbatimText →
      (WinRules.classify t' = WinRules.classify t ↔
        (WinRules.AtHome place.root place.parts → WinRules.Marked (place.root.fixed ++ place.parts)))) ∧
    (WinRules.SameVerdict false place ↔
      (WinRules.Named place.root (location '\\' false place.parts) →
        WinRules.Lasting place.root (location '\\' false place.parts))) ∧
    (WinRules.SameVerdict true place ↔ WinRules.Lasting place.root (location '\\' true place.parts)) :=
  ⟨fun _ h => ⟨inTempDir_plain h, isHidden_plain h, locationRule_plain h⟩, isNonstandard_plain_iff, inTempDir_unstable,
    locationRule_unstable, isHidden_stable_iff, isNonstandard_unstable, fun _ _ => WinRules.classify_folded,
    fun _ _ => WinRules.classify_verbatim_iff, WinRules.sameVerdict_false_iff, WinRules.sameVerdict_true_iff⟩

/-- Each of the four rules is dodged by some spelling of one place. -/
theorem location_verdicts_dodged :
    (Respelled '/' true (parts "tmp/x".toList) (parts "var/../tmp/x".toList) ∧
      inTempDir "/tmp/x".toList = true ∧ inTempDir "/var/../tmp/x".toList = false) ∧
    (Respelled '/' true (parts "srv/.config".toList) (parts "srv/.config/a/..".toList) ∧
      isHidden "/srv/.config".toList = true ∧ isHidden "/srv/.config/a/..".toList = false) ∧
    (Respelled '/' false (parts "lib/security/pam_unix.so".toList) (parts "lib/./security/pam_unix.so".toList) ∧
      Pam.isNonstandard "/lib/security/pam_unix.so".toList = false ∧
      Pam.isNonstandard "/lib/./security/pam_unix.so".toList = true) ∧
    WinRules.classify "C:\\Users\\a\\x.exe".toList = .userWritable ∧
    WinRules.classify "\\\\?\\C:\\Users\\a\\x.exe".toList = .other ∧
    WinRules.classify "C:\\.\\Users\\a\\x.exe".toList = .other ∧
    WinRules.classify "C:\\Users\\Public\\x.exe".toList = .temp ∧
    WinRules.classify "C:\\Users\\.\\Public\\x.exe".toList = .userWritable := by
  refine ⟨⟨respelled_iff.mpr ?_, ?_, ?_⟩, ⟨respelled_iff.mpr ?_, ?_, ?_⟩, ⟨respelled_iff.mpr ?_, ?_, ?_⟩, ?_, ?_, ?_, ?_, ?_⟩
  all_goals decide

end AbyssalWarden.Locations
