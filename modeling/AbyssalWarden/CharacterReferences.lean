import AbyssalWarden.TaskXml

/-! Texts in which some characters are written as references, and what is read back from them. -/
namespace AbyssalWarden.TaskXml

/-! ### References -/

inductive Named where
  | amp
  | lt
  | gt
  | quot
  | apos
  deriving DecidableEq

def Named.name : Named → List Char
  | .amp => "amp".toList
  | .lt => "lt".toList
  | .gt => "gt".toList
  | .quot => "quot".toList
  | .apos => "apos".toList

def Named.char : Named → Char
  | .amp => '&'
  | .lt => '<'
  | .gt => '>'
  | .quot => '"'
  | .apos => '\''

/-- A reference: one of the five names, or the number of a character in either notation, with any zeros before it. -/
inductive Reference where
  | named (n : Named)
  | decimal (digits : List Char) (c : Char)
    (h : digits ≠ [] ∧ digits.all Char.isDigit = true ∧ Nat.ofDigitChars 10 digits 0 = c.toNat)
  | hex (digits : List Char) (c : Char) (h : digits ≠ [] ∧ hexNumber digits = some c.toNat)

namespace Reference

def entity : Reference → List Char
  | .named n => n.name
  | .decimal digits _ _ => '#' :: digits
  | .hex digits _ _ => '#' :: 'x' :: digits

def char : Reference → Char
  | .named n => n.char
  | .decimal _ c _ => c
  | .hex _ c _ => c

/-- The `;` is at most ten bytes after the `&`. -/
def Short (r : Reference) : Prop := 1 + utf8Length r.entity ≤ 10

instance (r : Reference) : Decidable r.Short := inferInstanceAs (Decidable (_ ≤ _))

end Reference

section

variable {s t ent digits : List Char} {c : Char} {n : ℕ}

theorem charFromU32_toNat : charFromU32 c.toNat = some c := by
  have hvalid : c.toNat.isValidChar := c.valid
  rw [charFromU32, if_pos hvalid, Char.ofNat_toNat]

theorem toNat_lt : c.toNat < 2^32 := by
  rcases c.valid with h | h
  · exact Nat.lt_trans h (by decide)
  · exact Nat.lt_trans h.2 (by decide)

theorem entityChar_hash (h : ent.head? = some '#') : entityChar ent =
    (((stripStart ['#', 'x'] ent).bind parseHexU32).or ((stripStart ['#'] ent).bind parseU32)).bind charFromU32 := by
  have hname {name : List Char} (hfirst : name.head? ≠ some '#') : ent ≠ name := fun heq => hfirst (heq ▸ h)
  have hamp : ent ≠ "amp".toList := hname (by decide)
  have hlt : ent ≠ "lt".toList := hname (by decide)
  have hgt : ent ≠ "gt".toList := hname (by decide)
  have hquot : ent ≠ "quot".toList := hname (by decide)
  have hapos : ent ≠ "apos".toList := hname (by decide)
  rw [entityChar, if_neg hamp, if_neg hlt, if_neg hgt, if_neg hquot, if_neg hapos]

theorem isDigit_ne {d : Char} (hd : d.isDigit = false) (hc : c.isDigit = true) : c ≠ d := by
  rintro rfl
  rw [hd] at hc
  cases hc

theorem parseU32_digits (hne : digits ≠ []) (hdigits : digits.all Char.isDigit = true)
    (h : Nat.ofDigitChars 10 digits 0 = c.toNat) : parseU32 digits = some c.toNat := by
  have hplus : digits.head? ≠ some '+' := by
    intro hhead
    exact isDigit_ne (by decide) (List.all_eq_true.mp hdigits _ (List.mem_of_head? hhead)) rfl
  rw [parseU32, if_neg hplus, h, if_pos ⟨hne, hdigits, toNat_lt⟩]

theorem hexNumber_eq_some (h : hexNumber s = some n) : ∀ d ∈ s, (hexDigitValue d).isSome = true := by
  induction s using List.reverseRecOn generalizing n with
  | nil => exact List.forall_mem_nil _
  | append_singleton s d ih =>
    rw [hexNumber_concat, Option.bind_eq_some_iff] at h
    obtain ⟨m, hm, hd⟩ := h
    obtain ⟨v, hv, -⟩ := Option.map_eq_some_iff.mp hd
    intro e he
    rcases List.mem_append.mp he with he | he
    · exact ih hm e he
    · rw [List.mem_singleton.mp he, hv]
      rfl

theorem parseHexU32_digits (hne : digits ≠ []) (h : hexNumber digits = some c.toNat) :
    parseHexU32 digits = some c.toNat := by
  have hplus : digits.head? ≠ some '+' := by
    intro hhead
    have hdigit := hexNumber_eq_some h '+' (List.mem_of_head? hhead)
    revert hdigit
    decide
  rw [parseHexU32, if_neg hplus, if_neg hne, h]
  exact Option.filter_some_pos (decide_eq_true toNat_lt)

/-- A reference is decoded to its character. -/
theorem entityChar_entity (r : Reference) : entityChar r.entity = some r.char := by
  cases r with
  | named n => cases n <;> decide
  | decimal digits c h =>
    obtain ⟨hne, hdigits, hvalue⟩ := h
    obtain ⟨d, digits', rfl⟩ := List.exists_cons_of_ne_nil hne
    have hx : d ≠ 'x' := isDigit_ne (by decide) (List.all_eq_true.mp hdigits d List.mem_cons_self)
    have hhex : stripStart ['#', 'x'] ('#' :: d :: digits') = none := by
      apply if_neg
      rw [List.isPrefixOf_iff_prefix]
      intro hprefix
      exact hx (List.cons_prefix_cons.mp (List.cons_prefix_cons.mp hprefix).2).1.symm
    have hdecimal : stripStart ['#'] ('#' :: d :: digits') = some (d :: digits') := rfl
    rw [Reference.entity, entityChar_hash rfl, hhex, hdecimal, Option.bind_none, Option.none_or, Option.bind_some,
      parseU32_digits hne hdigits hvalue, Option.bind_some, charFromU32_toNat]
    rfl
  | hex digits c h =>
    have hhex : stripStart ['#', 'x'] ('#' :: 'x' :: digits) = some digits := rfl
    rw [Reference.entity, entityChar_hash rfl, hhex, Option.bind_some, parseHexU32_digits h.1 h.2, Option.some_or,
      Option.bind_some, charFromU32_toNat]
    rfl

/-- A reference holds neither a `;` nor an `&`. -/
theorem entity_clean (r : Reference) : ∀ d ∈ r.entity, d ≠ ';' ∧ d ≠ '&' ∧ d ≠ '<' := by
  cases r with
  | named n => cases n <;> decide
  | decimal digits c h =>
    have hall : ∀ d ∈ digits, d ≠ ';' ∧ d ≠ '&' ∧ d ≠ '<' := by
      intro d hd
      have hdigit := List.all_eq_true.mp h.2.1 d hd
      exact ⟨isDigit_ne (by decide) hdigit, isDigit_ne (by decide) hdigit, isDigit_ne (by decide) hdigit⟩
    exact List.forall_mem_cons.mpr ⟨by decide, hall⟩
  | hex digits c h =>
    have hall : ∀ d ∈ digits, d ≠ ';' ∧ d ≠ '&' ∧ d ≠ '<' := by
      intro d hd
      have hdigit := hexNumber_eq_some h.2 d hd
      refine ⟨?_, ?_, ?_⟩
      all_goals
        rintro rfl
        revert hdigit
        decide
    exact List.forall_mem_cons.mpr ⟨by decide, List.forall_mem_cons.mpr ⟨by decide, hall⟩⟩

end

/-! ### Texts -/

/-- A character of a text, as it is written. -/
inductive Piece where
  | raw (c : Char) (h : c ≠ '<' ∧ c ≠ '&')
  | ref (r : Reference)

namespace Piece

def text : Piece → List Char
  | .raw c _ => [c]
  | .ref r => '&' :: r.entity ++ [';']

def char : Piece → Char
  | .raw c _ => c
  | .ref r => r.char

def Short : Piece → Prop
  | .raw _ _ => True
  | .ref r => r.Short

/-- White space that is written as itself. -/
def isBlank : Piece → Bool
  | .raw c _ => isWhitespace c
  | .ref _ => false

end Piece

def textOf (ps : List Piece) : List Char := ps.flatMap Piece.text

def valueOf (ps : List Piece) : List Char := ps.map Piece.char

/-- The text without the white space around it. -/
def core (ps : List Piece) : List Piece := (ps.dropWhile Piece.isBlank).rdropWhile Piece.isBlank

section

variable {s t : List Char} {ps qs : List Piece} {c : Char} {n m : ℕ}

theorem textOf_append : textOf (ps ++ qs) = textOf ps ++ textOf qs := List.flatMap_append

/-! ### Trimming -/

theorem textOf_blank (h : ∀ p ∈ ps, p.isBlank = true) : Blank (textOf ps) := by
  intro c hc
  obtain ⟨p, hp, hc⟩ := List.mem_flatMap.mp hc
  cases p with
  | raw d hd =>
    rw [List.mem_singleton.mp hc]
    exact h _ hp
  | ref r => cases h _ hp

theorem exists_core (ps : List Piece) : ∃ lead trail, (∀ p ∈ lead, p.isBlank = true) ∧ (∀ p ∈ trail, p.isBlank = true) ∧
    ps = lead ++ core ps ++ trail := by
  refine ⟨ps.takeWhile Piece.isBlank, (ps.dropWhile Piece.isBlank).rtakeWhile Piece.isBlank,
    fun p hp => List.mem_takeWhile_imp hp, fun p hp => List.mem_rtakeWhile_imp hp, ?_⟩
  rw [core, List.append_assoc, List.rdropWhile_append_rtakeWhile, List.takeWhile_append_dropWhile]

theorem text_ends (p : Piece) (h : p.isBlank = false) : (∃ a, p.text.head? = some a ∧ isWhitespace a = false) ∧
    ∃ w b, p.text = w ++ [b] ∧ isWhitespace b = false := by
  cases p with
  | raw c hc => exact ⟨⟨c, rfl, h⟩, [], c, rfl, h⟩
  | ref r => exact ⟨⟨'&', rfl, by decide⟩, '&' :: r.entity, ';', rfl, by decide⟩

/-- The white space around a text is trimmed, as far as it is written as itself. -/
theorem trim_textOf : trim (textOf ps) = textOf (core ps) := by
  obtain ⟨lead, trail, hlead, htrail, hps⟩ := exists_core ps
  have htrim : trim (textOf ps) = trim (textOf (core ps)) := by
    conv_lhs => rw [hps, textOf_append, textOf_append]
    rw [trim_append_right (textOf_blank htrail), trim_append_left (textOf_blank hlead)]
  rw [htrim]
  by_cases hnil : core ps = []
  · rw [hnil]
    rfl
  · -- the core starts and ends with pieces that are not blank
    have hlast : ((core ps).getLast hnil).isBlank = false := by
      have hnot := List.rdropWhile_last_not Piece.isBlank (ps.dropWhile Piece.isBlank) hnil
      exact Bool.eq_false_iff.mpr hnot
    have hfirst : ((core ps).head hnil).isBlank = false := by
      have hprefix : core ps <+: ps.dropWhile Piece.isBlank := List.rdropWhile_prefix _ _
      have hne : ps.dropWhile Piece.isBlank ≠ [] := by
        rintro heq
        rw [heq] at hprefix
        exact hnil (List.prefix_nil.mp hprefix)
      have hhead : (ps.dropWhile Piece.isBlank).head hne = (core ps).head hnil := by
        obtain ⟨t, ht⟩ := hprefix
        obtain ⟨p, rest, hcore⟩ := List.exists_cons_of_ne_nil hnil
        simp only [← ht, hcore, List.cons_append, List.head_cons]
      rw [← hhead]
      exact List.head_dropWhile_not Piece.isBlank hne
    obtain ⟨⟨a, ha, hablank⟩, -⟩ := text_ends _ hfirst
    obtain ⟨-, w, b, hb, hbblank⟩ := text_ends _ hlast
    have hhead : (textOf (core ps)).head? = some a := by
      rw [← List.cons_head_tail hnil, textOf, List.flatMap_cons, List.head?_append, ha]
      rfl
    have hend : textOf (core ps) = textOf (core ps).dropLast ++ w ++ [b] := by
      conv_lhs => rw [← List.dropLast_concat_getLast hnil]
      rw [textOf_append, textOf, textOf, List.flatMap_singleton, hb, List.append_assoc]
    exact trim_of_ends hablank hbblank hhead hend

/-! ### Decoding -/

/-- What is read of a piece: a reference that is not short stays as it is. -/
def Piece.read (p : Piece) : List Char :=
  match p with
  | .raw c _ => [c]
  | .ref r => if r.Short then [r.char] else p.text

/-- Other characters are kept. -/
theorem unescapeFrom_cons (hc : c ≠ '&') : unescapeFrom n (c :: s) = c :: unescapeFrom n s := by
  cases n with
  | zero => rfl
  | succ n =>
    have hsplit : splitOnce '&' (c :: s) = (splitOnce '&' s).map fun parts => (c :: parts.1, parts.2) := by
      by_cases hmem : '&' ∈ s
      · have hother : decide (c ≠ '&') = true := decide_eq_true hc
        rw [splitOnce, splitOnce, if_pos hmem, if_pos (List.mem_cons_of_mem _ hmem), List.takeWhile_cons, List.dropWhile_cons,
          hother]
        rfl
      · have hnot : '&' ∉ c :: s := by
          rw [List.mem_cons, not_or]
          exact ⟨hc.symm, hmem⟩
        rw [splitOnce, splitOnce, if_neg hmem, if_neg hnot]
        rfl
    rw [unescapeFrom, unescapeFrom, hsplit]
    cases splitOnce '&' s with
    | none => rfl
    | some parts =>
      simp only [Option.map_some]
      cases reference parts.2 with
      | none => rfl
      | some entry => rfl

theorem unescapeFrom_append (ht : '&' ∉ t) : unescapeFrom n (t ++ s) = t ++ unescapeFrom n s := by
  induction t with
  | nil => rfl
  | cons c t ih =>
    rw [List.mem_cons, not_or] at ht
    rw [List.cons_append, unescapeFrom_cons (Ne.symm ht.1), ih ht.2, List.cons_append]

theorem splitOnce_head {sep : Char} : splitOnce sep (sep :: s) = some ([], s) := splitOnce_append (s := []) List.not_mem_nil

theorem reference_entity (r : Reference) : reference (r.entity ++ ';' :: s) = if r.Short then some (r.entity, s) else none := by
  have hsplit : splitOnce ';' (r.entity ++ ';' :: s) = some (r.entity, s) :=
    splitOnce_append fun h => (entity_clean r _ h).1 rfl
  rw [reference, hsplit]
  by_cases hshort : r.Short
  · rw [if_pos hshort]
    exact Option.filter_some_pos (decide_eq_true hshort)
  · rw [if_neg hshort]
    exact Option.filter_some_neg (decide_eq_false hshort)

/-- One reference. -/
theorem unescapeFrom_ref (r : Reference) :
    unescapeFrom (n + 1) ((Piece.ref r).text ++ s) = (Piece.ref r).read ++ unescapeFrom n s := by
  have htext : (Piece.ref r).text ++ s = '&' :: (r.entity ++ ';' :: s) := by
    simp [Piece.text]
  rw [htext, unescapeFrom, splitOnce_head]
  simp only
  rw [reference_entity]
  by_cases hshort : r.Short
  · rw [if_pos hshort, Piece.read, if_pos hshort]
    simp only [entityChar_entity, Option.elim_some, List.nil_append]
  · have hamp : '&' ∉ r.entity ++ [';'] := by
      rw [List.mem_append, not_or]
      exact ⟨fun h => (entity_clean r _ h).2.1 rfl, by decide⟩
    rw [if_neg hshort, Piece.read, if_neg hshort]
    simp only [List.nil_append]
    rw [← List.singleton_append (l := s), ← List.append_assoc, unescapeFrom_append hamp, Piece.text]
    rfl

theorem unescapeFrom_textOf (h : (textOf ps).length ≤ n) : unescapeFrom n (textOf ps) = ps.flatMap Piece.read := by
  induction ps generalizing n with
  | nil => cases n <;> rfl
  | cons p ps ih =>
    rw [textOf, List.flatMap_cons, ← textOf, List.length_append] at h
    rw [textOf, List.flatMap_cons, ← textOf, List.flatMap_cons]
    cases p with
    | raw c hc =>
      rw [Piece.text, List.singleton_append, unescapeFrom_cons hc.2, ih (by omega)]
      rfl
    | ref r =>
      have hpos : 1 ≤ (Piece.ref r).text.length := Nat.succ_pos _
      obtain ⟨m, rfl⟩ : ∃ m, n = m + 1 := ⟨n - 1, by omega⟩
      rw [unescapeFrom_ref, ih (by omega)]

/-- The text that is read back, for any references. -/
theorem unescape_textOf : unescape (textOf ps) = (core ps).flatMap Piece.read := by
  rw [unescape, trim_textOf, unescapeFrom_textOf le_rfl]

/-! ### Short references -/

theorem read_of_short {p : Piece} (h : p.Short) : p.read = [p.char] := by
  cases p with
  | raw c hc => rfl
  | ref r => exact if_pos h

theorem flatMap_read_of_short (h : ∀ p ∈ ps, p.Short) : ps.flatMap Piece.read = valueOf ps := by
  induction ps with
  | nil => rfl
  | cons p ps ih =>
    obtain ⟨hp, hps⟩ := List.forall_mem_cons.mp h
    rw [List.flatMap_cons, read_of_short hp, ih hps]
    rfl

theorem length_read_pos (p : Piece) : 1 ≤ p.read.length := by
  cases p with
  | raw c hc => exact le_rfl
  | ref r =>
    rw [Piece.read]
    split
    · exact le_rfl
    · exact Nat.succ_pos _

/-- A reference that is not short is read as more than one character. -/
theorem length_read_of_not_short {p : Piece} (h : ¬ p.Short) : 1 < p.read.length := by
  cases p with
  | raw c hc => exact absurd trivial h
  | ref r =>
    have hread : (Piece.ref r).read = (Piece.ref r).text := if_neg h
    rw [hread, Piece.text, List.length_append, List.length_cons, List.length_singleton]
    omega

theorem length_le_flatMap_read : ps.length ≤ (ps.flatMap Piece.read).length := by
  induction ps with
  | nil => exact le_rfl
  | cons p ps ih =>
    have hp := length_read_pos p
    rw [List.flatMap_cons, List.length_append, List.length_cons]
    omega

theorem short_of_length (h : (ps.flatMap Piece.read).length ≤ ps.length) : ∀ p ∈ ps, p.Short := by
  induction ps with
  | nil => exact List.forall_mem_nil _
  | cons p ps ih =>
    have hps : ps.length ≤ (ps.flatMap Piece.read).length := length_le_flatMap_read
    rw [List.flatMap_cons, List.length_append, List.length_cons] at h
    have hp := length_read_pos p
    refine List.forall_mem_cons.mpr ⟨?_, ih (by omega)⟩
    by_contra hlong
    have hlength := length_read_of_not_short hlong
    omega

/-- A text is read back, up to the white space around it, exactly when all its references are short. -/
theorem unescape_textOf_iff : unescape (textOf ps) = valueOf (core ps) ↔ ∀ p ∈ core ps, p.Short := by
  rw [unescape_textOf]
  constructor
  · intro h
    apply short_of_length
    rw [h, valueOf, List.length_map]
  · exact flatMap_read_of_short

end

end AbyssalWarden.TaskXml
