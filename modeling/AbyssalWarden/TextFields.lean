import AbyssalWarden.Framing
import AbyssalWarden.Text

/-! Taking text apart at a first occurrence, at white space or at a separator, and reading numbers of it. -/
namespace AbyssalWarden

/-- Of a list its own characters are tried, not all there are. -/
instance (priority := high) decidableForallChars (p : Char → Prop) [DecidablePred p] (s : List Char) :
    Decidable (∀ c ∈ s, p c) := List.decidableBAll p s

variable {c x sep : Char} {pat s rest pre field : List Char} {n : ℕ}

/-! ### The first occurrence -/

/-- What stands from the first occurrence of `pat` on: `&s[s.find(pat)?..]` -/
def findStr (pat : List Char) : List Char → Option (List Char)
  | [] => if pat = [] then some [] else none
  | c :: s => if pat.isPrefixOf (c :: s) then some (c :: s) else findStr pat s

theorem findStr_of_prefix (hne : pat ≠ []) (h : pat <+: s) : findStr pat s = some s := by
  cases s with
  | nil => exact absurd (List.prefix_nil.mp h) hne
  | cons c s => exact if_pos (List.isPrefixOf_iff_prefix.mpr h)

theorem findStr_cons_of_not (h : ¬ pat <+: c :: s) : findStr pat (c :: s) = findStr pat s := by
  rw [findStr, if_neg fun h' => h (List.isPrefixOf_iff_prefix.mp h')]

/-- An occurrence that starts in `pre` lies in `pre`: the first character of the pattern stands nowhere else in it. -/
theorem infix_of_prefix_append {p : List Char} (hc : c ∉ p) (h : c :: p <+: pre ++ (c :: s)) (hne : pre ≠ []) :
    c :: p <:+: pre := by
  rcases List.prefix_or_prefix_of_prefix h (List.prefix_append pre (c :: s)) with hin | hover
  · exact hin.isInfix
  · obtain ⟨t, ht⟩ := hover
    cases t with
    | nil =>
      rw [List.append_nil] at ht
      rw [ht]
    | cons d t =>
      -- the pattern ends in what follows `pre`, which starts with `c`
      exfalso
      rw [← ht, List.prefix_append_right_inj, List.cons_prefix_cons] at h
      obtain ⟨x, pre, rfl⟩ := List.exists_cons_of_ne_nil hne
      obtain ⟨-, htail⟩ := List.cons.inj ht
      apply hc
      rw [← htail, h.1]
      exact List.mem_append_right _ List.mem_cons_self

/-- A pattern is found where it was put if it does not stand before that. -/
theorem findStr_append {p : List Char} (hc : c ∉ p) (hpre : ¬ c :: p <:+: pre) :
    findStr (c :: p) (pre ++ (c :: p ++ rest)) = some (c :: p ++ rest) := by
  induction pre with
  | nil => exact findStr_of_prefix (List.cons_ne_nil c p) (List.prefix_append _ _)
  | cons x pre ih =>
    have hnot : ¬ c :: p <+: x :: (pre ++ (c :: p ++ rest)) := fun h =>
      hpre (infix_of_prefix_append hc h (List.cons_ne_nil x pre))
    rw [List.cons_append, findStr_cons_of_not hnot]
    exact ih fun h => hpre (h.trans (List.suffix_cons x pre).isInfix)

/-- A pattern that ends in a separator is a prefix when it ends at the first separator. -/
theorem concat_prefix_iff {p : List Char} (hp : sep ∉ p) (hs : sep ∉ s) : p ++ [sep] <+: s ++ sep :: rest ↔ s = p := by
  constructor
  · rintro ⟨t, ht⟩
    rw [List.append_assoc, List.singleton_append] at ht
    have hp' := congrArg (List.takeWhile (· ≠ sep)) ht
    have hall : ∀ {l : List Char}, sep ∉ l → ∀ c ∈ l, decide (c ≠ sep) = true := fun hl c hc =>
      decide_eq_true fun heq => hl (heq ▸ hc)
    rw [List.takeWhile_append_of_pos (hall hp), List.takeWhile_append_of_pos (hall hs)] at hp'
    simpa using hp'.symm
  · rintro rfl
    exact ⟨rest, by rw [List.append_assoc, List.singleton_append]⟩

/-- A pattern that ends in a separator is searched for from one separator to the next. -/
theorem findStr_concat {p : List Char} (hne : p ≠ []) (hp : sep ∉ p) (hs : sep ∉ s) :
    findStr (p ++ [sep]) (s ++ sep :: rest) =
      if p <:+ s then some (p ++ sep :: rest) else findStr (p ++ [sep]) rest := by
  induction s with
  | nil =>
    have hnot : ¬ p ++ [sep] <+: [] ++ sep :: rest := fun h => hne ((concat_prefix_iff hp hs).mp h).symm
    have hsuffix : ¬ p <:+ [] := fun h => hne (List.suffix_nil.mp h)
    rw [if_neg hsuffix]
    exact findStr_cons_of_not hnot
  | cons c s ih =>
    by_cases heq : c :: s = p
    · have hstart : p ++ [sep] <+: c :: s ++ sep :: rest := (concat_prefix_iff hp hs).mpr heq
      have hfound : findStr (p ++ [sep]) (c :: s ++ sep :: rest) = some (c :: s ++ sep :: rest) :=
        findStr_of_prefix (List.append_ne_nil_of_right_ne_nil _ (List.cons_ne_nil _ _)) hstart
      rw [hfound, heq, if_pos List.suffix_rfl]
    · have hnot : ¬ p ++ [sep] <+: c :: (s ++ sep :: rest) := fun h => heq ((concat_prefix_iff hp hs).mp h)
      have hsuffix : p <:+ c :: s ↔ p <:+ s := by
        rw [List.suffix_cons_iff, or_iff_right fun h => heq h.symm]
      simp only [List.cons_append, findStr_cons_of_not hnot, hsuffix]
      exact ih fun h => hs (List.mem_cons_of_mem c h)

theorem findStr_none (h : ∀ t, t <:+ s → ¬ pat <+: t) : findStr pat s = none := by
  induction s with
  | nil =>
    have hne : pat ≠ [] := fun heq => h [] List.suffix_rfl (List.prefix_nil.mpr heq)
    exact if_neg hne
  | cons c s ih =>
    rw [findStr_cons_of_not (h (c :: s) List.suffix_rfl)]
    exact ih fun t ht => h t (ht.trans (List.suffix_cons c s))

/-- A pattern is not found where a character of it does not stand. -/
theorem findStr_of_not_mem (hc : c ∈ pat) (h : c ∉ s) : findStr pat s = none :=
  findStr_none fun _ ht hstart => h (ht.subset (hstart.subset hc))

/-- A prefix without a separator stands before the first one. -/
theorem prefix_append_cons_iff {p a b : List Char} (hp : sep ∉ p) : p <+: a ++ sep :: b ↔ p <+: a := by
  constructor
  · intro h
    rcases List.prefix_or_prefix_of_prefix h (List.prefix_append a (sep :: b)) with hin | ⟨t, ht⟩
    · exact hin
    · cases t with
      | nil =>
        rw [List.append_nil] at ht
        exact ht ▸ List.prefix_refl p
      | cons d t =>
        rw [← ht, List.prefix_append_right_inj, List.cons_prefix_cons] at h
        rw [← ht, h.1] at hp
        exact absurd (List.mem_append_right _ List.mem_cons_self) hp
  · intro h
    exact h.trans (List.prefix_append a (sep :: b))

/-- A suffix without a separator stands after the last one. -/
theorem suffix_append_cons_iff {p a b : List Char} (hp : sep ∉ p) : p <:+ a ++ sep :: b ↔ p <:+ b := by
  constructor
  · intro h
    rcases List.suffix_or_suffix_of_suffix h (List.suffix_append a (sep :: b)) with hin | hover
    · rcases List.suffix_cons_iff.mp hin with heq | hin
      · exact absurd (heq ▸ List.mem_cons_self) hp
      · exact hin
    · exact absurd (hover.subset List.mem_cons_self) hp
  · intro h
    exact h.trans ((List.suffix_cons sep b).trans (List.suffix_append a (sep :: b)))

/-! ### Names -/

theorem alphanum_range (h : c.isAlphanum = true ∨ c = '_') : 48 ≤ c.toNat ∧ c.toNat ≤ 122 := by
  rcases h with h | heq
  · simp only [Char.isAlphanum, Char.isAlpha, Char.isUpper, Char.isLower, Char.isDigit, Bool.or_eq_true,
      Bool.and_eq_true, decide_eq_true_eq, UInt32.le_iff_toNat_le, ge_iff_le] at h
    change ((65 ≤ c.toNat ∧ c.toNat ≤ 90) ∨ (97 ≤ c.toNat ∧ c.toNat ≤ 122)) ∨ (48 ≤ c.toNat ∧ c.toNat ≤ 57) at h
    omega
  · rw [heq]
    decide

theorem alphanum_not_whitespace (h : c.isAlphanum = true ∨ c = '_') : isWhitespace c = false := by
  obtain ⟨hlow, hhigh⟩ := alphanum_range h
  simp [isWhitespace]
  omega

/-! ### Trimming -/

/-- White space throughout -/
def Blank (s : List Char) : Prop := ∀ c ∈ s, isWhitespace c = true

instance (s : List Char) : Decidable (Blank s) := decidableForallChars (isWhitespace · = true) s

theorem blank_nil : Blank [] := fun _ hc => absurd hc List.not_mem_nil

theorem blank_space : [' '] ≠ [] ∧ Blank [' '] := by decide

theorem trim_append_left {w : List Char} (hw : Blank w) : trim (w ++ s) = trim s := by
  rw [trim, List.dropWhile_append_of_pos hw, trim]

theorem trim_append_right {w : List Char} (hw : Blank w) : trim (s ++ w) = trim s := by
  have hrev : ∀ c ∈ w.reverse, isWhitespace c = true := fun c hc => hw c (List.mem_reverse.mp hc)
  rw [trim, trim, List.dropWhile_append]
  split
  · rename_i hall
    have hs : s.dropWhile isWhitespace = [] := List.isEmpty_iff.mp hall
    have hnil : w.dropWhile isWhitespace = [] := List.dropWhile_eq_nil_iff.mpr hw
    rw [hs, hnil]
  · rw [List.reverse_append, List.dropWhile_append_of_pos hrev]

/-- Nothing is trimmed of text that starts and ends with other characters. -/
theorem trim_of_ends {w : List Char} {a b : Char} (ha : isWhitespace a = false) (hb : isWhitespace b = false)
    (hfirst : s.head? = some a) (hlast : s = w ++ [b]) : trim s = s := by
  have hleft : s.dropWhile isWhitespace = s := by
    cases s with
    | nil => cases hfirst
    | cons c s =>
      obtain rfl : c = a := Option.some.inj hfirst
      exact List.dropWhile_cons_of_neg (by rw [ha]; exact Bool.false_ne_true)
  rw [trim, hleft, hlast, List.reverse_append, List.reverse_singleton, List.singleton_append,
    List.dropWhile_cons_of_neg (by rw [hb]; exact Bool.false_ne_true), List.reverse_cons, List.reverse_reverse]

theorem exists_trim (s : List Char) : ∃ w w', Blank w ∧ Blank w' ∧ s = w ++ trim s ++ w' := by
  refine ⟨s.takeWhile isWhitespace, ((s.dropWhile isWhitespace).reverse.takeWhile isWhitespace).reverse, ?_, ?_, ?_⟩
  · intro c hc
    exact List.mem_takeWhile_imp hc
  · intro c hc
    exact List.mem_takeWhile_imp (List.mem_reverse.mp hc)
  · have hback : (s.dropWhile isWhitespace).reverse = (s.dropWhile isWhitespace).reverse.takeWhile isWhitespace ++
        (s.dropWhile isWhitespace).reverse.dropWhile isWhitespace := List.takeWhile_append_dropWhile.symm
    have hmid : s.dropWhile isWhitespace =
        trim s ++ ((s.dropWhile isWhitespace).reverse.takeWhile isWhitespace).reverse := by
      rw [trim, ← List.reverse_append, ← hback, List.reverse_reverse]
    rw [List.append_assoc, ← hmid, List.takeWhile_append_dropWhile]

/-- Trimmed text ends in a character that is not white space. -/
theorem getLast?_trim (h : c ∈ (trim s).getLast?) : isWhitespace c = false := by
  rw [trim, List.getLast?_reverse] at h
  have hhead := List.head?_dropWhile_not isWhitespace (s.dropWhile isWhitespace).reverse
  rw [h] at hhead
  simpa using hhead

/-- Trimmed text starts with its first character that is not white space. -/
theorem head?_trim_cons (h : isWhitespace c = false) : (trim (c :: s)).head? = some c := by
  obtain ⟨w, w', hw, hw', heq⟩ := exists_trim (c :: s)
  have hnot : ∀ {v t : List Char}, Blank v → c :: s = v ++ t → v = [] := by
    intro v t hv hvt
    cases v with
    | nil => rfl
    | cons d v =>
      obtain ⟨rfl, -⟩ := List.cons.inj hvt
      rw [hv c List.mem_cons_self] at h
      cases h
  have hwnil : w = [] := hnot hw (heq.trans (List.append_assoc _ _ _))
  rw [hwnil, List.nil_append] at heq
  cases ht : trim (c :: s) with
  | nil =>
    rw [ht, List.nil_append] at heq
    have hnil := hnot hw' (heq.trans (List.append_nil w').symm)
    rw [hnil] at heq
    cases heq
  | cons d t =>
    rw [ht] at heq
    obtain ⟨rfl, -⟩ := List.cons.inj heq
    rfl

/-! ### Fields -/

/-- `str::split_whitespace` -/
def splitWhitespace (s : List Char) : List (List Char) := (s.splitOnP isWhitespace).filter (· ≠ [])

theorem splitWhitespace_single (hne : field ≠ []) (h : ∀ c ∈ field, isWhitespace c = false) :
    splitWhitespace field = [field] := by
  rw [splitWhitespace, List.splitOnP_eq_singleton h]
  simp [hne]

theorem splitWhitespace_append (hne : field ≠ []) (h : ∀ c ∈ field, isWhitespace c = false)
    (hsep : isWhitespace sep = true) : splitWhitespace (field ++ sep :: rest) = field :: splitWhitespace rest := by
  rw [splitWhitespace, List.splitOnP_append_cons_of_forall_mem h sep hsep]
  simp [hne, splitWhitespace]

/-- `str::split_once` -/
def splitOnce (sep : Char) (s : List Char) : Option (List Char × List Char) :=
  if sep ∈ s then some (s.takeWhile (· ≠ sep), (s.dropWhile (· ≠ sep)).tail) else none

theorem splitOnce_append (h : sep ∉ s) : splitOnce sep (s ++ sep :: rest) = some (s, rest) := by
  have hall : ∀ c ∈ s, decide (c ≠ sep) = true := by
    intro c hc
    apply decide_eq_true
    intro heq
    exact h (heq ▸ hc)
  rw [splitOnce, if_pos (List.mem_append_right _ List.mem_cons_self), List.takeWhile_append_of_pos hall,
    List.dropWhile_append_of_pos hall]
  simp

theorem splitOnce_blank {w s w' : List Char} (hw : Blank w) (hw' : Blank w') :
    splitOnce '=' (w ++ s ++ w') = (splitOnce '=' s).map fun (k, v) => (w ++ k, v ++ w') := by
  have hblank {v : List Char} (hv : Blank v) : '=' ∉ v := fun hmem => by
    have hchar := hv _ hmem
    revert hchar
    decide
  by_cases hs : '=' ∈ s
  · obtain ⟨k, v, rfl, hk⟩ := List.eq_append_cons_of_mem hs
    have hnot : '=' ∉ w ++ k := by
      rw [List.mem_append, not_or]
      exact ⟨hblank hw, hk⟩
    have hline : w ++ (k ++ '=' :: v) ++ w' = (w ++ k) ++ '=' :: (v ++ w') := by simp
    rw [hline, splitOnce_append hnot, splitOnce_append hk]
    rfl
  · have hnot : '=' ∉ w ++ s ++ w' := by
      simp only [List.mem_append, not_or]
      exact ⟨⟨hblank hw, hs⟩, hblank hw'⟩
    rw [splitOnce, if_neg hnot, splitOnce, if_neg hs]
    rfl

theorem splitOnce_length {a b : List Char} (h : splitOnce sep s = some (a, b)) : b.length < s.length := by
  unfold splitOnce at h
  split at h
  · rename_i hmem
    obtain ⟨-, rfl⟩ := Prod.mk.inj (Option.some.inj h)
    have hne : s.dropWhile (· ≠ sep) ≠ [] := by
      intro hnil
      have hall := List.dropWhile_eq_nil_iff.mp hnil sep hmem
      simp at hall
    have hpos := List.length_pos_iff.mpr hne
    have hle := (List.dropWhile_sublist (· ≠ sep) (l := s)).length_le
    rw [List.length_tail]
    omega
  · cases h

/-! ### Lines -/

theorem splitOn_unlines {ls : List (List Char)} (h : ∀ l ∈ ls, '\n' ∉ l) :
    (unlines '\n' ls).splitOn '\n' = ls ++ [[]] := by
  induction ls with
  | nil => rfl
  | cons l ls ih =>
    have hl : ∀ c ∈ l, (c == '\n') = false := fun c hc =>
      beq_eq_false_iff_ne.mpr fun heq => h l List.mem_cons_self (heq ▸ hc)
    have htail := ih fun m hm => h m (List.mem_cons_of_mem l hm)
    rw [unlines_cons, List.splitOn, List.splitOnP_append_cons_of_forall_mem hl _ (by decide), ← List.splitOn, htail,
      List.cons_append]

/-- A text of lines that do not end in a carriage return has these lines. -/
theorem lines_unlines_of_last {ls : List (List Char)} (h : ∀ l ∈ ls, '\n' ∉ l ∧ l.getLast? ≠ some '\r') :
    lines (unlines '\n' ls) = ls := by
  have hkeep : (ls.map fun l => if l.getLast? = some '\r' then l.dropLast else l) = ls := by
    conv_rhs => rw [← List.map_id ls]
    apply List.map_congr_left
    intro l hl
    exact if_neg (h l hl).2
  rw [lines, splitOn_unlines fun l hl => (h l hl).1, List.dropLast_concat, List.getLast?_concat, hkeep]

theorem lines_unlines {ls : List (List Char)} (h : ∀ l ∈ ls, '\n' ∉ l ∧ '\r' ∉ l) : lines (unlines '\n' ls) = ls :=
  lines_unlines_of_last fun l hl => ⟨(h l hl).1, fun hlast => (h l hl).2 (List.mem_of_getLast? hlast)⟩

/-! ### Numbers -/

/-- `str::parse::<u64>`: an optional `+`, then digits, below `2^64`. -/
def parseU64 (s : List Char) : Option ℕ :=
  let digits := if s.head? = some '+' then s.tail else s
  if digits ≠ [] ∧ digits.all Char.isDigit ∧ Nat.ofDigitChars 10 digits 0 < 2^64 then
    some (Nat.ofDigitChars 10 digits 0)
  else none

theorem toDigits_isDigit (hc : c ∈ Nat.toDigits 10 n) : c.isDigit = true :=
  Nat.isDigit_of_mem_toDigits (by omega) (by omega) hc

theorem parseU64_toDigits (h : n < 2^64) : parseU64 (Nat.toDigits 10 n) = some n := by
  have hplus : (Nat.toDigits 10 n).head? ≠ some '+' := by
    intro hhead
    have hdigit := toDigits_isDigit (List.mem_of_head? hhead)
    revert hdigit
    decide
  have hall : (Nat.toDigits 10 n).all Char.isDigit = true := List.all_eq_true.mpr fun c hc => toDigits_isDigit hc
  rw [parseU64, if_neg hplus, Nat.ofDigitChars_ten_toDigits, if_pos ⟨Nat.toDigits_ne_nil, hall, h⟩]

/-- `char::to_digit(16)` -/
def hexDigitValue (c : Char) : Option ℕ :=
  if c.isDigit then some (c.toNat - '0'.toNat)
  else if 'a' ≤ c ∧ c ≤ 'f' then some (c.toNat - 'a'.toNat + 10)
  else if 'A' ≤ c ∧ c ≤ 'F' then some (c.toNat - 'A'.toNat + 10)
  else none

/-- The number that hexadecimal digits write. -/
def hexNumber (s : List Char) : Option ℕ := s.foldlM (fun n c => (hexDigitValue c).map (n * 16 + ·)) 0

/-- `u32::from_str_radix(_, 16)`: an optional `+`, then digits, below `2^32`. -/
def parseHexU32 (s : List Char) : Option ℕ :=
  let digits := if s.head? = some '+' then s.tail else s
  if digits = [] then none else (hexNumber digits).filter (· < 2^32)

theorem hexDigitValue_digitChar (h : n < 16) : hexDigitValue (Nat.digitChar n) = some n := by
  have hall : ∀ i : Fin 16, hexDigitValue (Nat.digitChar i.val) = some i.val := by decide
  exact hall ⟨n, h⟩

theorem hexNumber_concat : hexNumber (s ++ [c]) = (hexNumber s).bind fun n => (hexDigitValue c).map (n * 16 + ·) := by
  rw [hexNumber, List.foldlM_append]
  simp [hexNumber]

theorem hexNumber_toDigits (n : ℕ) : hexNumber (Nat.toDigits 16 n) = some n := by
  induction n using Nat.strong_induction_on with
  | _ n ih =>
    by_cases hsmall : n < 16
    · rw [Nat.toDigits_of_lt_base hsmall]
      simp [hexNumber, hexDigitValue_digitChar hsmall]
    · have hdiv : n / 16 < n := Nat.div_lt_self (by omega) (by omega)
      have hmod : n % 16 < 16 := Nat.mod_lt n (by omega)
      rw [Nat.toDigits_of_base_le (by omega) (by omega), hexNumber_concat, ih _ hdiv, Option.bind_some,
        hexDigitValue_digitChar hmod, Option.map_some, Nat.div_add_mod' n 16]

theorem toDigits_hexDigit (hc : c ∈ Nat.toDigits 16 n) : ∃ i < 16, c = Nat.digitChar i := by
  induction n using Nat.strong_induction_on with
  | _ n ih =>
    by_cases hsmall : n < 16
    · rw [Nat.toDigits_of_lt_base hsmall, List.mem_singleton] at hc
      exact ⟨n, hsmall, hc⟩
    · have hdiv : n / 16 < n := Nat.div_lt_self (by omega) (by omega)
      rw [Nat.toDigits_of_base_le (by omega) (by omega), List.mem_append, List.mem_singleton] at hc
      rcases hc with hc | hc
      · exact ih _ hdiv hc
      · exact ⟨n % 16, Nat.mod_lt n (by omega), hc⟩

theorem parseHexU32_toDigits (h : n < 2^32) : parseHexU32 (Nat.toDigits 16 n) = some n := by
  have hplus : (Nat.toDigits 16 n).head? ≠ some '+' := by
    intro hhead
    obtain ⟨i, hi, hdigit⟩ := toDigits_hexDigit (List.mem_of_head? hhead)
    have hall : ∀ i : Fin 16, '+' ≠ Nat.digitChar i.val := by decide
    exact hall ⟨i, hi⟩ hdigit
  rw [parseHexU32, if_neg hplus, if_neg Nat.toDigits_ne_nil, hexNumber_toDigits]
  exact Option.filter_some_pos (decide_eq_true h)

end AbyssalWarden
