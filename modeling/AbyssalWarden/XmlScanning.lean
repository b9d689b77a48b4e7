import AbyssalWarden.XmlForest

/-! The scanner for the elements of a name finds those of a printed document. -/
namespace AbyssalWarden.TaskXml

section

variable {name s t b : List Char} {c : Char} {n m k : ℕ} {full : ℕ → Bool}

/-! ### The loop -/

/-- What is found ends the text and starts with the pattern. -/
theorem findStr_eq_some {pat found : List Char} (h : findStr pat s = some found) : found <:+ s ∧ pat <+: found := by
  induction s with
  | nil =>
    rw [findStr] at h
    split at h
    case isTrue hpat =>
      obtain rfl := Option.some.inj h
      exact ⟨List.suffix_refl _, hpat ▸ List.nil_prefix⟩
    case isFalse => cases h
  | cons c s ih =>
    rw [findStr] at h
    split at h
    case isTrue hpat =>
      obtain rfl := Option.some.inj h
      exact ⟨List.suffix_refl _, List.isPrefixOf_iff_prefix.mp hpat⟩
    case isFalse => exact ⟨(ih h).1.trans (List.suffix_cons c s), (ih h).2⟩

/-- What is left after a round. -/
def Next.rest? : Next → Option (List Char)
  | .finished => none
  | .other rest => some rest
  | .empty rest => some rest
  | .whole _ rest => some rest

theorem nextBody_rest {head body rest : List Char} (h : (nextBody name head body).rest? = some rest) :
    rest.length ≤ body.length := by
  rw [nextBody] at h
  split at h
  · obtain rfl := Option.some.inj h
    exact le_rfl
  · split at h
    · cases h
    · rename_i ended hended
      obtain rfl := Option.some.inj h
      rw [List.length_drop]
      exact (Nat.sub_le _ _).trans (findStr_eq_some hended).1.length_le

theorem nextTag_rest {after rest : List Char} (h : (nextTag name after).rest? = some rest) : rest.length ≤ after.length := by
  rw [nextTag] at h
  split at h
  · obtain rfl := Option.some.inj h
    exact le_rfl
  · split at h
    · cases h
    · rename_i head body hsplit
      exact (nextBody_rest h).trans (splitOnce_length hsplit).le

/-- Every round takes something away. -/
theorem next_rest {rest : List Char} (h : (next name s).rest? = some rest) : rest.length < s.length := by
  rw [next] at h
  split at h
  · cases h
  · rename_i found hfound
    have hrest := nextTag_rest h
    obtain ⟨hsuffix, hprefix⟩ := findStr_eq_some hfound
    have hle := hsuffix.length_le
    have hpos := hprefix.length_le
    rw [opening, List.length_cons] at hpos
    rw [List.length_drop, opening, List.length_cons] at hrest
    omega

theorem elementsFrom_succ : elementsFrom full name (n + 1) k s =
    match next name s with
    | .finished => []
    | .other rest => elementsFrom full name n k rest
    | .empty rest => [] :: elementsFrom full name n (k + 1) rest
    | .whole body rest => body :: if full (k + 1) then [] else elementsFrom full name n (k + 1) rest := rfl

/-- Enough fuel is as good as more. -/
theorem elementsFrom_fuel (hn : s.length < n) (hm : s.length < m) :
    elementsFrom full name n k s = elementsFrom full name m k s := by
  induction n generalizing s m k with
  | zero => cases hn
  | succ n ih =>
    obtain ⟨m, rfl⟩ : ∃ m', m = m' + 1 := ⟨m - 1, by omega⟩
    rw [elementsFrom_succ, elementsFrom_succ]
    cases hnext : next name s with
    | finished => rfl
    | other rest =>
      have hrest : rest.length < s.length := next_rest (congrArg Next.rest? hnext)
      exact ih (by omega) (by omega)
    | empty rest =>
      have hrest : rest.length < s.length := next_rest (congrArg Next.rest? hnext)
      exact congrArg _ (ih (by omega) (by omega))
    | whole body rest =>
      have hrest : rest.length < s.length := next_rest (congrArg Next.rest? hnext)
      have htail := ih (m := m) (k := k + 1) (s := rest) (by omega) (by omega)
      simp only [htail]

variable (name) in
/-- The loop without a bound on the number of elements. -/
def scanAll (s : List Char) : List (List Char) := elementsFrom (fun _ => false) name (s.length + 1) 0 s

theorem elementsFrom_unbounded : elementsFrom (fun _ => false) name n k s = elementsFrom (fun _ => false) name n m s := by
  induction n generalizing s k m with
  | zero => rfl
  | succ n ih =>
    rw [elementsFrom_succ, elementsFrom_succ]
    cases next name s with
    | finished => rfl
    | other rest => exact ih
    | empty rest => exact congrArg _ ih
    | whole body rest => exact congrArg _ ih

theorem scanAll_eq : scanAll name s =
    match next name s with
    | .finished => []
    | .other rest => scanAll name rest
    | .empty rest => [] :: scanAll name rest
    | .whole body rest => body :: scanAll name rest := by
  have hfuel {k : ℕ} {rest : List Char} (h : (next name s).rest? = some rest) :
      elementsFrom (fun _ => false) name s.length k rest = scanAll name rest := by
    rw [scanAll, elementsFrom_unbounded (k := k) (m := 0)]
    exact elementsFrom_fuel (next_rest h) (Nat.lt_succ_self _)
  rw [scanAll, elementsFrom_succ]
  cases hnext : next name s with
  | finished => rfl
  | other rest => exact hfuel (by rw [hnext]; rfl)
  | empty rest => exact congrArg _ (hfuel (by rw [hnext]; rfl))
  | whole body rest => exact congrArg _ (hfuel (by rw [hnext]; rfl))

/-- The bound changes nothing where the elements do not exceed it. -/
theorem elementsFrom_of_length (h : k + (elementsFrom (fun _ => false) name n k s).length ≤ 64) :
    elementsFrom (64 ≤ ·) name n k s = elementsFrom (fun _ => false) name n k s := by
  induction n generalizing s k with
  | zero => rfl
  | succ n ih =>
    rw [elementsFrom_succ] at h ⊢
    rw [elementsFrom_succ]
    cases hnext : next name s with
    | finished => rfl
    | other rest =>
      rw [hnext] at h
      exact ih h
    | empty rest =>
      rw [hnext] at h
      simp only [List.length_cons] at h
      exact congrArg _ (ih (by omega))
    | whole body rest =>
      rw [hnext] at h
      simp only [List.length_cons, Bool.false_eq_true, if_false] at h
      simp only [Bool.false_eq_true, if_false]
      -- the bound is reached, so there can be no more elements
      split
      case isTrue hfull =>
        have hfull := of_decide_eq_true hfull
        have hnil := List.length_eq_zero_iff.mp
          (by omega : (elementsFrom (fun _ => false) name n (k + 1) rest).length = 0)
        rw [hnil]
      case isFalse => exact congrArg _ (ih (by omega))

theorem elements_eq_scanAll (h : (scanAll name s).length ≤ 64) : elements s name = scanAll name s :=
  elementsFrom_of_length (by rw [Nat.zero_add]; exact h)

/-- The bound does not matter to the first element. -/
theorem head?_elements : (elements s name).head? = (scanAll name s).head? := by
  have hhead : ∀ {n k : ℕ} {s : List Char}, (elementsFrom (64 ≤ ·) name n k s).head? =
      (elementsFrom (fun _ => false) name n k s).head? := by
    intro n
    induction n with
    | zero => intro k s; rfl
    | succ n ih =>
      intro k s
      rw [elementsFrom_succ, elementsFrom_succ]
      cases next name s with
      | finished => rfl
      | other rest => exact ih
      | empty rest => rfl
      | whole body rest => rfl
  exact hhead

/-! ### Rounds -/

theorem next_opening {after : List Char} : next name (opening name ++ after) = nextTag name after := by
  have hne : opening name ≠ [] := List.cons_ne_nil _ _
  rw [next, findStr_of_prefix hne (List.prefix_append _ _)]
  dsimp only
  rw [List.drop_left]

theorem next_cons_of_not (h : ¬ opening name <+: c :: s) : next name (c :: s) = next name s := by
  rw [next, next, findStr_cons_of_not h]

theorem scanAll_cons_of_not (h : ¬ opening name <+: c :: s) : scanAll name (c :: s) = scanAll name s := by
  rw [scanAll_eq, next_cons_of_not h, ← scanAll_eq]

theorem scanAll_append_of_not_mem (h : '<' ∉ b) : scanAll name (b ++ t) = scanAll name t := by
  induction b with
  | nil => rfl
  | cons c b ih =>
    rw [List.mem_cons, not_or] at h
    rw [List.cons_append, scanAll_cons_of_not fun hprefix => h.1 (List.cons_prefix_cons.mp hprefix).1, ih h.2]

/-- A place where no tag of the name starts is passed over. -/
theorem scanAll_cons (hname : '<' ∉ name) (h : ¬ Starts name (c :: s)) : scanAll name (c :: s) = scanAll name s := by
  by_cases hopening : opening name <+: c :: s
  · obtain ⟨after, hafter⟩ := hopening
    obtain ⟨rfl, hs⟩ : '<' = c ∧ name ++ after = s := by
      rw [opening, List.cons_append] at hafter
      exact List.cons.inj hafter
    have hstart : startsTag after = false := by
      cases after with
      | nil => rfl
      | cons d after =>
        rw [startsTag, List.head?_cons, Option.any_some, Bool.eq_false_iff]
        intro hd
        refine h ⟨d, hd, after, ?_⟩
        rw [← hafter, List.append_assoc]
        rfl
    rw [← hs, scanAll_append_of_not_mem hname, hs, ← hafter, scanAll_eq, next_opening, nextTag, if_pos hstart]
  · exact scanAll_cons_of_not hopening

theorem scanAll_quiet (hname : '<' ∉ name) (h : Quiet (Starts name) b t) : scanAll name (b ++ t) = scanAll name t := by
  induction b with
  | nil => rfl
  | cons c b ih =>
    have hfirst : ¬ Starts name (c :: (b ++ t)) := h [] (c :: b) rfl (List.cons_ne_nil _ _)
    rw [List.cons_append, scanAll_cons hname hfirst]
    exact ih fun pre s heq => h (c :: pre) s (by rw [heq]; rfl)

/-- A round that meets a tag of the name. -/
theorem scanAll_tag {after : List Char} : scanAll name (opening name ++ after) =
    match nextTag name after with
    | .finished => []
    | .other rest => scanAll name rest
    | .empty rest => [] :: scanAll name rest
    | .whole body rest => body :: scanAll name rest := by
  rw [scanAll_eq, next_opening]

end

/-! ### Printed documents -/

section

variable {name s t : List Char} {P : List Char → Prop} {tag : Tag}

theorem textOf_clean {ps : List Piece} : '<' ∉ textOf ps := by
  intro h
  obtain ⟨p, -, hp⟩ := List.mem_flatMap.mp h
  cases p with
  | raw c hc => exact hc.1 (List.mem_singleton.mp hp).symm
  | ref r =>
    rw [Piece.text, List.cons_append, List.mem_cons, List.mem_append, List.mem_singleton] at hp
    rcases hp with hp | hp | hp
    · exact absurd hp (by decide)
    · exact (entity_clean r _ hp).2.2 rfl
    · exact absurd hp (by decide)

/-- A comment holds no match if its text holds none: a match does not go on into the end of the comment. -/
theorem quiet_comment {c : List Char} (hP : FromMarkup P) (hopen : ∀ u, ¬ P ('<' :: '!' :: u))
    (hinside : Quiet P c (['-', '-', '>'] ++ t)) : Quiet P (commentText c) t := by
  refine quiet_append (quiet_markup hP (by decide) (hopen _)) (quiet_append ?_ (quiet_of_not_mem hP (by decide)))
  exact hinside

theorem quiet_tag {last : List Char} (hP : FromMarkup P) (hlast : '<' ∉ last) (h : ¬ P (tag.text last ++ t)) :
    Quiet P (tag.text last) t := by
  refine quiet_markup hP ?_ h
  simp [name_clean.1, inner_clean.1, hlast]

theorem quiet_endTag {endGap : List Char} (hP : FromMarkup P) (hgap : ∀ c ∈ endGap, isTagBlank c = true)
    (h : ¬ P (tag.endText endGap ++ t)) : Quiet P (tag.endText endGap) t := by
  refine quiet_markup hP ?_ h
  have hclean : '<' ∉ endGap := fun h => (isTagBlank_ne (hgap _ h)).2.1 rfl
  simp [name_clean.1, hclean]

/-- The end of an element. -/
def Ends (name s : List Char) : Prop := closing name <+: s

theorem ends_fromMarkup : FromMarkup (Ends name) := by
  rintro s ⟨t, rfl⟩
  rfl

theorem not_ends {c : Char} (hc : c ≠ '/') : ¬ Ends name ('<' :: c :: s) := by
  intro h
  exact hc (List.cons_prefix_cons.mp (List.cons_prefix_cons.mp h).2).1.symm

theorem not_ends_tag {last : List Char} : ¬ Ends name (tag.text last ++ t) := by
  obtain ⟨c, n, hn⟩ := List.exists_cons_of_ne_nil tag.named.1
  rw [Tag.text, hn]
  apply not_ends
  rintro rfl
  have hslash := (isNameChar_ne (tag.named.2 '/' (hn ▸ List.mem_cons_self))).1
  cases hslash

theorem not_ends_name (hname : Wanted name) {endGap : List Char} (hgap : ∀ c ∈ endGap, isTagBlank c = true)
    (hne : tag.name ≠ name) : ¬ Ends name (tag.endText endGap ++ t) := by
  intro h
  have hprefix := (List.cons_prefix_cons.mp (List.cons_prefix_cons.mp h).2).2
  rw [List.append_assoc, List.append_eq, List.append_eq, List.append_assoc, List.append_assoc, List.singleton_append,
    ← List.append_assoc] at hprefix
  have hclean : '>' ∉ tag.name ++ endGap := by
    rw [List.mem_append, not_or]
    exact ⟨name_clean.2, fun h => (isTagBlank_ne (hgap _ h)).2.2.1 rfl⟩
  have heq := (concat_prefix_iff (hname.not_mem (by decide)) hclean).mp hprefix
  apply hne
  cases endGap with
  | nil => rwa [List.append_nil] at heq
  | cons c endGap =>
    -- a blank is no letter
    have hc := hgap c List.mem_cons_self
    have hmem : c ∈ name := heq ▸ List.mem_append_right _ List.mem_cons_self
    exact absurd hmem (hname.not_mem (by
      simp only [isTagBlank, Bool.or_eq_true, decide_eq_true_eq, or_assoc] at hc
      rcases hc with rfl | rfl | rfl | rfl
      all_goals decide))

/-- In a closed forest the end of the element starts nowhere. -/
theorem quiet_ends (hname : Wanted name) {f : Forest} (h : f.Closed name) : Quiet (Ends name) f.print t := by
  induction f generalizing t with
  | nil => exact quiet_nil
  | text ps rest ih => exact quiet_append (quiet_of_not_mem ends_fromMarkup textOf_clean) (ih h)
  | comment c hc rest ih =>
    refine quiet_append (quiet_comment ends_fromMarkup (fun u => not_ends (by decide)) ?_) (ih h.2)
    intro pre u heq _ hends
    have hdash : '-' ∉ closing name := by
      have hnot := hname.not_mem (c := '-') (by decide)
      simp [closing, hnot]
    obtain ⟨v, hv⟩ := prefix_of_append hdash hends
    apply h.1
    rw [heq]
    exact ⟨pre, v, by rw [← hv, List.append_assoc]⟩
  | empty tag rest ih => exact quiet_append (quiet_tag ends_fromMarkup (by decide) not_ends_tag) (ih h)
  | elem tag endGap hgap body rest ihbody ih =>
    exact quiet_append (quiet_tag ends_fromMarkup (by decide) not_ends_tag)
      (quiet_append (ihbody h.2.1)
        (quiet_append (quiet_endTag ends_fromMarkup hgap (not_ends_name hname hgap h.1)) (ih h.2.2)))

/-- The content of an element is found up to its end. -/
theorem nextBody_whole (hname : Wanted name) {f : Forest} (h : f.Closed name) {head : List Char}
    (hhead : head.getLast? ≠ some '/') : nextBody name head (f.print ++ (closing name ++ t)) = .whole f.print t := by
  have hnot : ¬ closing name <:+: f.print := by
    rintro ⟨u, v, huv⟩
    refine quiet_ends hname h (t := []) u (closing name ++ v) (by rw [← huv, List.append_assoc]) (List.cons_ne_nil _ _) ?_
    rw [Ends, List.append_nil]
    exact List.prefix_append _ _
  have hlt : '<' ∉ '/' :: name ++ ['>'] := by
    have hlt := hname.not_mem (c := '<') (by decide)
    simp [hlt]
  have hfind : findStr (closing name) (f.print ++ (closing name ++ t)) = some (closing name ++ t) :=
    findStr_append hlt hnot
  rw [nextBody, if_neg hhead, hfind]
  dsimp only
  rw [List.drop_left, List.length_append, Nat.add_sub_cancel, List.take_left]

/-! ### Elements -/

theorem startsTag_inner {x : Char} (hx : isDelimiter x = true) : startsTag (tag.inner ++ x :: t) = true := by
  obtain ⟨d, rest, hd, hlist⟩ : ∃ d rest, isDelimiter d = true ∧ tag.inner ++ x :: t = d :: rest := inner_delimiter hx
  rw [hlist, startsTag, List.head?_cons, Option.any_some, hd]

/-- An element without content. -/
theorem scanAll_empty (htag : tag.name = name) (hvalues : ∀ a ∈ tag.attributes, '>' ∉ a.value) :
    scanAll name (tag.text ['/', '>'] ++ t) = [] :: scanAll name t := by
  have hlist : tag.text ['/', '>'] ++ t = opening name ++ (tag.inner ++ '/' :: '>' :: t) := by
    rw [Tag.text, opening, htag]
    simp
  have hclean : '>' ∉ tag.inner ++ ['/'] := by
    rw [List.mem_append, not_or]
    exact ⟨inner_clean.2 hvalues, by decide⟩
  have hsplit : splitOnce '>' (tag.inner ++ '/' :: '>' :: t) = some (tag.inner ++ ['/'], t) := by
    have hsplit : splitOnce '>' ((tag.inner ++ ['/']) ++ '>' :: t) = some (tag.inner ++ ['/'], t) := splitOnce_append hclean
    rwa [List.append_assoc] at hsplit
  have hstart : ¬ startsTag (tag.inner ++ '/' :: '>' :: t) = false := by
    rw [startsTag_inner (by decide)]
    decide
  rw [hlist, scanAll_tag, nextTag, if_neg hstart, hsplit]
  dsimp only
  rw [nextBody, if_pos List.getLast?_concat]

/-- An element with content. -/
theorem scanAll_elem (hname : Wanted name) (htag : tag.name = name) (hvalues : ∀ a ∈ tag.attributes, '>' ∉ a.value)
    {body : Forest} (hbody : body.Closed name) :
    scanAll name (tag.text ['>'] ++ (body.print ++ (tag.endText [] ++ t))) = body.print :: scanAll name t := by
  have hend : tag.endText [] = closing name := by
    rw [Tag.endText, closing, htag, List.append_nil]
    rfl
  have hlist : tag.text ['>'] ++ (body.print ++ (tag.endText [] ++ t)) =
      opening name ++ (tag.inner ++ '>' :: (body.print ++ (closing name ++ t))) := by
    rw [hend, Tag.text, opening, htag]
    simp
  have hstart : ¬ startsTag (tag.inner ++ '>' :: (body.print ++ (closing name ++ t))) = false := by
    rw [startsTag_inner (by decide)]
    decide
  rw [hlist, scanAll_tag, nextTag, if_neg hstart, splitOnce_append (inner_clean.2 hvalues)]
  dsimp only
  rw [nextBody_whole hname hbody inner_last]

theorem not_starts_tag (hname : Wanted name) (hne : tag.name ≠ name) {x : Char} {last : List Char} (hx : isDelimiter x = true) :
    ¬ Starts name (tag.text (x :: last) ++ t) := by
  intro h
  obtain ⟨d, rest, hd, hlist⟩ : ∃ d rest, isDelimiter d = true ∧ tag.inner ++ x :: (last ++ t) = d :: rest :=
    inner_delimiter hx
  have htext : tag.text (x :: last) ++ t = '<' :: (tag.name ++ d :: rest) := by
    rw [← hlist, Tag.text]
    simp
  rw [htext] at h
  exact hne (starts_name hname hd h)

/-- The scanner finds the elements that can be seen. -/
theorem scanAll_print (hname : Wanted name) {f : Forest} (h : f.Shown name) :
    scanAll name (f.print ++ t) = (f.find name).map Forest.print ++ scanAll name t := by
  have hlt : '<' ∉ name := hname.not_mem (by decide)
  -- along the forest; what follows it in the text is general
  induction f generalizing t with
  | nil => rfl
  | text ps rest ih =>
    rw [Forest.print, List.append_assoc, scanAll_append_of_not_mem textOf_clean, ih h, Forest.find]
  | comment c hc rest ih =>
    have hquiet : Quiet (Starts name) (commentText c) (rest.print ++ t) := by
      refine quiet_comment starts_fromMarkup (fun u => not_starts hname (by decide)) ?_
      rintro pre u heq _ ⟨d, hd, hprefix⟩
      have hdash : '-' ∉ opening name ++ [d] := by
        have hnot := hname.not_mem (c := '-') (by decide)
        have hne : '-' ≠ d := by
          rintro rfl
          cases hd
        simp [opening, hnot, hne]
      obtain ⟨v, hv⟩ := prefix_of_append hdash hprefix
      refine h.1 ⟨d, hd, pre, v, ?_⟩
      rw [heq, ← hv, List.append_assoc]
    rw [Forest.print, List.append_assoc, scanAll_quiet hlt hquiet, ih h.2, Forest.find]
  | empty tag rest ih =>
    rw [Forest.print, List.append_assoc, Forest.find]
    -- a tag of another name starts no element that is looked for
    by_cases htag : tag.name = name
    · rw [scanAll_empty htag (h.1 htag), ih h.2, if_pos htag]
      rfl
    · have hquiet : Quiet (Starts name) (tag.text ['/', '>']) (rest.print ++ t) :=
        quiet_tag starts_fromMarkup (by decide) (not_starts_tag hname htag (by decide))
      rw [scanAll_quiet hlt hquiet, ih h.2, if_neg htag]
  | elem tag endGap hgap body rest ihbody ih =>
    rw [Forest.print, Forest.find]
    by_cases htag : tag.name = name
    -- the element is found as a whole, so what is in its body is not looked at
    · obtain ⟨hvalues, hend, hbody⟩ := h.1 htag
      have hscan := scanAll_elem (t := rest.print ++ t) hname htag hvalues hbody
      rw [hend, List.append_assoc, List.append_assoc, List.append_assoc, hscan, ih h.2.2, if_pos htag]
      rfl
    · have hopen : Quiet (Starts name) (tag.text ['>']) (body.print ++ (tag.endText endGap ++ (rest.print ++ t))) :=
        quiet_tag starts_fromMarkup (by decide) (not_starts_tag hname htag (by decide))
      have hend : Quiet (Starts name) (tag.endText endGap) (rest.print ++ t) :=
        quiet_endTag starts_fromMarkup hgap (not_starts hname (by decide))
      rw [List.append_assoc, List.append_assoc, List.append_assoc, scanAll_quiet hlt hopen, ihbody (h.2.1 htag),
        scanAll_quiet hlt hend, ih h.2.2, if_neg htag, List.map_append, List.append_assoc]

end

end AbyssalWarden.TaskXml
