import AbyssalWarden.CharacterReferences

/-! XML documents as they are printed, and the elements that the scanner finds in them. -/
namespace AbyssalWarden.TaskXml

/-! ### Markup -/

/-- White space between the parts of a tag. -/
def isTagBlank (c : Char) : Bool := c = ' ' || c = '\t' || c = '\r' || c = '\n'

/-- A character of a name. -/
def isNameChar (c : Char) : Bool := !isTagBlank c && c ∉ ['<', '>', '/', '=', '!', '?', '&', '"', '\'']

/-- An attribute, with the blanks before its name and around its equals sign. -/
structure Attribute where
  gap : List Char
  name : List Char
  before : List Char
  after : List Char
  quote : Char
  value : List Char
  apart : gap ≠ [] ∧ ∀ c ∈ gap, isTagBlank c = true
  named : ∀ c ∈ name, isNameChar c = true
  blank : (∀ c ∈ before, isTagBlank c = true) ∧ ∀ c ∈ after, isTagBlank c = true
  quoted : quote = '"' ∨ quote = '\''
  inside : quote ∉ value ∧ '<' ∉ value

def Attribute.text (a : Attribute) : List Char :=
  a.gap ++ a.name ++ a.before ++ '=' :: a.after ++ a.quote :: a.value ++ [a.quote]

/-- The name of an element, its attributes, and the blanks before the end of its tag. -/
structure Tag where
  name : List Char
  attributes : List Attribute
  gap : List Char
  named : name ≠ [] ∧ ∀ c ∈ name, isNameChar c = true
  blank : ∀ c ∈ gap, isTagBlank c = true

def Tag.inner (tag : Tag) : List Char := tag.attributes.flatMap Attribute.text ++ tag.gap

/-- The tag, ending in `>` or `/>`. -/
def Tag.text (tag : Tag) (last : List Char) : List Char := '<' :: (tag.name ++ (tag.inner ++ last))

def Tag.endText (tag : Tag) (endGap : List Char) : List Char := '<' :: '/' :: (tag.name ++ endGap ++ ['>'])

def commentText (c : List Char) : List Char := ['<', '!', '-', '-'] ++ (c ++ ['-', '-', '>'])

/-- What stands side by side in a document: texts, comments, elements without and with content. -/
inductive Forest where
  | nil
  | text (ps : List Piece) (rest : Forest)
  | comment (c : List Char) (h : ¬ ['-', '-'] <:+: c ∧ c.getLast? ≠ some '-') (rest : Forest)
  | empty (tag : Tag) (rest : Forest)
  | elem (tag : Tag) (endGap : List Char) (h : ∀ c ∈ endGap, isTagBlank c = true) (body rest : Forest)

namespace Forest

def print : Forest → List Char
  | .nil => []
  | .text ps rest => textOf ps ++ rest.print
  | .comment c _ rest => commentText c ++ rest.print
  | .empty tag rest => tag.text ['/', '>'] ++ rest.print
  | .elem tag endGap _ body rest => tag.text ['>'] ++ (body.print ++ (tag.endText endGap ++ rest.print))

/-- The contents of the elements with a name, without those inside others of the name. -/
def find (name : List Char) : Forest → List Forest
  | .nil => []
  | .text _ rest => rest.find name
  | .comment _ _ rest => rest.find name
  | .empty tag rest => if tag.name = name then .nil :: rest.find name else rest.find name
  | .elem tag _ _ body rest => (if tag.name = name then [body] else body.find name) ++ rest.find name

/-- The end of an element of the name stands nowhere: neither in a comment nor as the end of an element inside. -/
def Closed (name : List Char) : Forest → Prop
  | .nil => True
  | .text _ rest => rest.Closed name
  | .comment c _ rest => ¬ closing name <:+: c ∧ rest.Closed name
  | .empty _ rest => rest.Closed name
  | .elem tag _ _ body rest => tag.name ≠ name ∧ body.Closed name ∧ rest.Closed name

/-- The elements of the name can be seen: no comment beside them starts one, none of their attributes holds a `>`, and
their ends are without blanks and the first in their contents. -/
def Shown (name : List Char) : Forest → Prop
  | .nil => True
  | .text _ rest => rest.Shown name
  | .comment c _ rest => (¬ ∃ d, isDelimiter d = true ∧ opening name ++ [d] <:+: c) ∧ rest.Shown name
  | .empty tag rest => (tag.name = name → ∀ a ∈ tag.attributes, '>' ∉ a.value) ∧ rest.Shown name
  | .elem tag endGap _ body rest =>
    (tag.name = name → (∀ a ∈ tag.attributes, '>' ∉ a.value) ∧ endGap = [] ∧ body.Closed name) ∧
      (tag.name ≠ name → body.Shown name) ∧ rest.Shown name

end Forest

/-! ### Places without a match -/

section

variable {P : List Char → Prop} {s t b b' : List Char} {c : Char}

/-- No match starts in `b` when `t` follows. -/
def Quiet (P : List Char → Prop) (b t : List Char) : Prop := ∀ pre s, b = pre ++ s → s ≠ [] → ¬ P (s ++ t)

theorem quiet_nil : Quiet P [] t := by
  intro pre s heq hs
  exact absurd (List.append_eq_nil_iff.mp heq.symm).2 hs

theorem quiet_cons (h : ¬ P (c :: (b ++ t))) (hb : Quiet P b t) : Quiet P (c :: b) t := by
  intro pre s heq hs
  cases pre with
  | nil =>
    rw [List.nil_append] at heq
    rw [← heq]
    exact h
  | cons d pre => exact hb pre s (List.cons.inj heq).2 hs

theorem quiet_append (hb : Quiet P b (b' ++ t)) (hb' : Quiet P b' t) : Quiet P (b ++ b') t := by
  induction b with
  | nil => exact hb'
  | cons c b ih =>
    have hfirst := hb [] (c :: b) rfl (List.cons_ne_nil _ _)
    rw [List.cons_append]
    refine quiet_cons ?_ (ih fun pre s heq => hb (c :: pre) s (by rw [heq]; rfl))
    rw [List.append_assoc]
    exact hfirst

/-- A match starts with `<`. -/
def FromMarkup (P : List Char → Prop) : Prop := ∀ s, P s → s.head? = some '<'

theorem quiet_of_not_mem (hP : FromMarkup P) (h : '<' ∉ b) : Quiet P b t := by
  intro pre s heq hs hmatch
  obtain ⟨c, s, rfl⟩ := List.exists_cons_of_ne_nil hs
  have hc := hP _ hmatch
  obtain rfl : c = '<' := Option.some.inj hc
  apply h
  rw [heq]
  exact List.mem_append_right _ List.mem_cons_self

theorem quiet_markup (hP : FromMarkup P) (h : '<' ∉ b) (hmatch : ¬ P ('<' :: (b ++ t))) : Quiet P ('<' :: b) t :=
  quiet_cons hmatch (quiet_of_not_mem hP h)

/-- A pattern without a character ends before it. -/
theorem prefix_of_append {pat : List Char} {x : Char} (hx : x ∉ pat) (h : pat <+: s ++ x :: t) : pat <+: s := by
  rcases List.prefix_or_prefix_of_prefix h (List.prefix_append s (x :: t)) with hin | ⟨u, hu⟩
  · exact hin
  · cases u with
    | nil =>
      rw [List.append_nil] at hu
      rw [hu]
    | cons y u =>
      rw [← hu, List.prefix_append_right_inj] at h
      obtain ⟨rfl, -⟩ := List.cons_prefix_cons.mp h
      exact absurd (hu ▸ List.mem_append_right s List.mem_cons_self) hx

end

/-! ### Names and tags -/

/-- A name that is looked for. -/
def Wanted (name : List Char) : Prop := name ≠ [] ∧ ∀ c ∈ name, c.isAlpha = true

instance (name : List Char) : Decidable (Wanted name) := inferInstanceAs (Decidable (_ ∧ _))

section

variable {name s t w g : List Char} {c x d : Char} {tag : Tag}

theorem Wanted.not_mem (h : Wanted name) (hc : c.isAlpha = false) : c ∉ name := by
  intro hmem
  rw [h.2 c hmem] at hc
  cases hc

theorem isNameChar_ne (h : isNameChar c = true) : isDelimiter c = false ∧ c ≠ '<' ∧ c ≠ '>' ∧ c ≠ '!' ∧ c ≠ '?' := by
  rw [isNameChar, Bool.and_eq_true, Bool.not_eq_true', decide_eq_true_iff] at h
  obtain ⟨hblank, hmarks⟩ := h
  simp only [List.mem_cons, List.not_mem_nil, or_false, not_or] at hmarks
  obtain ⟨hlt, hgt, hslash, -, hbang, hquestion, -⟩ := hmarks
  refine ⟨?_, hlt, hgt, hbang, hquestion⟩
  simp only [isTagBlank, Bool.or_eq_false_iff, decide_eq_false_iff_not] at hblank
  simp [isDelimiter, hgt, hslash, hblank]

theorem isTagBlank_ne (h : isTagBlank c = true) : isDelimiter c = true ∧ c ≠ '<' ∧ c ≠ '>' ∧ c ≠ '/' := by
  simp only [isTagBlank, Bool.or_eq_true, decide_eq_true_eq, or_assoc] at h
  rcases h with rfl | rfl | rfl | rfl
  all_goals decide

theorem isDelimiter_of_wanted (h : Wanted name) : ∀ c ∈ name, isDelimiter c = false := by
  intro c hc
  rw [Bool.eq_false_iff]
  intro hdelimiter
  simp only [isDelimiter, Bool.or_eq_true, decide_eq_true_eq, or_assoc] at hdelimiter
  rcases hdelimiter with rfl | rfl | rfl | rfl | rfl | rfl
  all_goals exact h.not_mem (by decide) hc

theorem name_clean : '<' ∉ tag.name ∧ '>' ∉ tag.name := by
  constructor
  · intro h
    exact (isNameChar_ne (tag.named.2 _ h)).2.1 rfl
  · intro h
    exact (isNameChar_ne (tag.named.2 _ h)).2.2.1 rfl

/-- Of an attribute only the value can hold a `>`, and it ends in a quote. -/
theorem attribute_clean (a : Attribute) : '<' ∉ a.text ∧ ('>' ∉ a.value → '>' ∉ a.text) := by
  have hblank {u : List Char} (hu : ∀ c ∈ u, isTagBlank c = true) : '<' ∉ u ∧ '>' ∉ u :=
    ⟨fun h => (isTagBlank_ne (hu _ h)).2.1 rfl, fun h => (isTagBlank_ne (hu _ h)).2.2.1 rfl⟩
  have hname : '<' ∉ a.name ∧ '>' ∉ a.name :=
    ⟨fun h => (isNameChar_ne (a.named _ h)).2.1 rfl, fun h => (isNameChar_ne (a.named _ h)).2.2.1 rfl⟩
  have hquote : '<' ≠ a.quote ∧ '>' ≠ a.quote := by
    rcases a.quoted with h | h
    · rw [h]
      decide
    · rw [h]
      decide
  have hgap := hblank a.apart.2
  have hbefore := hblank a.blank.1
  have hafter := hblank a.blank.2
  constructor
  · simp [Attribute.text, hgap.1, hname.1, hbefore.1, hafter.1, hquote.1, a.inside.2]
  · intro hvalue
    simp [Attribute.text, hgap.2, hname.2, hbefore.2, hafter.2, hquote.2, hvalue]

theorem inner_clean : '<' ∉ tag.inner ∧ ((∀ a ∈ tag.attributes, '>' ∉ a.value) → '>' ∉ tag.inner) := by
  have hgap : '<' ∉ tag.gap ∧ '>' ∉ tag.gap :=
    ⟨fun h => (isTagBlank_ne (tag.blank _ h)).2.1 rfl, fun h => (isTagBlank_ne (tag.blank _ h)).2.2.1 rfl⟩
  constructor
  · rw [Tag.inner, List.mem_append, not_or]
    refine ⟨fun h => ?_, hgap.1⟩
    obtain ⟨a, -, ha⟩ := List.mem_flatMap.mp h
    exact (attribute_clean a).1 ha
  · intro hvalues
    rw [Tag.inner, List.mem_append, not_or]
    refine ⟨fun h => ?_, hgap.2⟩
    obtain ⟨a, hmem, ha⟩ := List.mem_flatMap.mp h
    exact (attribute_clean a).2 (hvalues a hmem) ha

/-- After the name comes a delimiter. -/
theorem inner_delimiter (hx : isDelimiter x = true) : ∃ d rest, isDelimiter d = true ∧ tag.inner ++ x :: t = d :: rest := by
  rw [Tag.inner]
  cases hattributes : tag.attributes with
  | nil =>
    rw [List.flatMap_nil, List.nil_append]
    cases hgap : tag.gap with
    | nil => exact ⟨x, t, hx, rfl⟩
    | cons d gap =>
      have hd := tag.blank d (hgap ▸ List.mem_cons_self)
      exact ⟨d, gap ++ x :: t, (isTagBlank_ne hd).1, rfl⟩
  | cons a attributes =>
    obtain ⟨d, gap, hgap⟩ := List.exists_cons_of_ne_nil a.apart.1
    have hd := a.apart.2 d (hgap ▸ List.mem_cons_self)
    have htext : ∃ u, a.text = d :: u :=
      ⟨gap ++ a.name ++ a.before ++ '=' :: a.after ++ a.quote :: a.value ++ [a.quote], by rw [Attribute.text, hgap]; rfl⟩
    obtain ⟨u, hu⟩ := htext
    refine ⟨d, u ++ attributes.flatMap Attribute.text ++ tag.gap ++ x :: t, (isTagBlank_ne hd).1, ?_⟩
    rw [List.flatMap_cons, hu]
    rfl

/-- Before its end a tag does not end in a slash. -/
theorem inner_last : tag.inner.getLast? ≠ some '/' := by
  rw [Tag.inner]
  intro h
  rw [List.getLast?_append] at h
  cases hgap : tag.gap.getLast? with
  | some d =>
    rw [hgap, Option.some_or] at h
    have hd := tag.blank d (List.mem_of_getLast? hgap)
    exact (isTagBlank_ne hd).2.2.2 (Option.some.inj h)
  | none =>
    rw [hgap, Option.none_or] at h
    rcases List.eq_nil_or_concat tag.attributes with hnil | ⟨init, a, hattributes⟩
    · rw [hnil] at h
      cases h
    · rw [hattributes, List.concat_eq_append, List.flatMap_append, List.flatMap_singleton, List.getLast?_append, Attribute.text,
        List.getLast?_concat, Option.some_or] at h
      have hquote := Option.some.inj h
      rcases a.quoted with hq | hq
      · rw [hq] at hquote
        exact absurd hquote (by decide)
      · rw [hq] at hquote
        exact absurd hquote (by decide)

/-! ### Where an element starts -/

/-- A tag of the name starts here. -/
def Starts (name s : List Char) : Prop := ∃ d, isDelimiter d = true ∧ opening name ++ [d] <+: s

theorem starts_fromMarkup : FromMarkup (Starts name) := by
  rintro s ⟨d, -, t, rfl⟩
  rfl

/-- After `<` stands the first letter of the name. -/
theorem not_starts (h : Wanted name) (hc : c.isAlpha = false) : ¬ Starts name ('<' :: c :: s) := by
  rintro ⟨d, -, hprefix⟩
  obtain ⟨n, rest, hname⟩ := List.exists_cons_of_ne_nil h.1
  rw [opening, hname, List.cons_append, List.cons_append] at hprefix
  have hfirst := (List.cons_prefix_cons.mp (List.cons_prefix_cons.mp hprefix).2).1
  have halpha := h.2 n (hname ▸ List.mem_cons_self)
  rw [hfirst, hc] at halpha
  cases halpha

/-- Of the tags, only one of the name itself starts it. -/
theorem starts_name (h : Wanted name) (hx : isDelimiter x = true) (hstarts : Starts name ('<' :: (tag.name ++ x :: s))) :
    tag.name = name := by
  obtain ⟨d, hd, t, ht⟩ := hstarts
  have hlist : name ++ d :: t = tag.name ++ x :: s := by
    rw [opening, List.append_assoc, List.cons_append] at ht
    exact (List.cons.inj ht).2
  have htake := congrArg (List.takeWhile (!isDelimiter ·)) hlist
  have hname : ∀ c ∈ name, (!isDelimiter c) = true := fun c hc => by rw [isDelimiter_of_wanted h c hc]; rfl
  have htag : ∀ c ∈ tag.name, (!isDelimiter c) = true := fun c hc => by rw [(isNameChar_ne (tag.named.2 c hc)).1]; rfl
  rw [List.takeWhile_append_of_pos hname, List.takeWhile_append_of_pos htag, List.takeWhile_cons_of_neg (by simp [hd]),
    List.takeWhile_cons_of_neg (by simp [hx]), List.append_nil, List.append_nil] at htake
  exact htake.symm

end

end AbyssalWarden.TaskXml
