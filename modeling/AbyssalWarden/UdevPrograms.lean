import AbyssalWarden.TextFields

/-! The programs that udev rules run: how a rule line is taken apart, and what is read of a line that is printed from
its items. -/
namespace AbyssalWarden.Udev

/-! ### Reading -/

/-- The rest of `split_rule`; `cur` is what was read since the last comma outside quotes. -/
def splitRuleFrom (quoted : Bool) (cur : List Char) : List Char → List (List Char)
  | [] => [trim cur]
  | c :: rest =>
    if c = '"' then splitRuleFrom (!quoted) (cur ++ [c]) rest
    else if c = ',' ∧ quoted = false then trim cur :: splitRuleFrom quoted [] rest
    else splitRuleFrom quoted (cur ++ [c]) rest

/-- Splits a rule line at commas outside quotes. -/
def splitRule (line : List Char) : List (List Char) := splitRuleFrom false [] line

/-- `trim_end_matches(['+', ':', '!'])` -/
def trimOperator (k : List Char) : List Char :=
  (k.reverse.dropWhile fun c => c = '+' ∨ c = ':' ∨ c = '!').reverse

/-- `trim_matches('"')` -/
def trimQuotes (v : List Char) : List Char := ((v.dropWhile (· = '"')).reverse.dropWhile (· = '"')).reverse

def programKeys : List (List Char) :=
  ["RUN".toList, "RUN{program}".toList, "PROGRAM".toList, "IMPORT{program}".toList]

/-- A value of a wanted key is kept, unless it is empty. -/
def pushProgram (out : List (List Char × List Char)) (k v : List Char) : List (List Char × List Char) :=
  if k ∈ programKeys ∧ v ≠ [] then out ++ [(k, v)] else out

/-- The loop of `programs`, which ends at 16 values. -/
def programsFrom : List (List Char) → List (List Char × List Char) → List (List Char × List Char)
  | [], out => out
  | part :: parts, out =>
    match splitOnce '=' part with
    | none => programsFrom parts out
    | some (k, v) =>
      let out := pushProgram out (trim (trimOperator k)) (trimQuotes (trim v))
      if out.length ≥ 16 then out else programsFrom parts out

/-- `RUN`, `PROGRAM` and `IMPORT{program}` values of one rule line. -/
def programs (line : List Char) : List (List Char × List Char) :=
  let line := trim line
  if line.head? = some '#' then [] else programsFrom (splitRule line) []

/-! ### Rule lines -/

inductive Operator where
  | equal
  | notEqual
  | assign
  | add
  | remove
  | assignFinal
  deriving DecidableEq

def Operator.text : Operator → List Char
  | equal => ['=', '=']
  | notEqual => ['!', '=']
  | assign => ['=']
  | add => ['+', '=']
  | remove => ['-', '=']
  | assignFinal => [':', '=']

/-- A key is one word, which does not make the line a comment and does not end like an operator. -/
structure KeyText (key : List Char) : Prop where
  nonempty : key ≠ []
  word : ∀ c ∈ key, isWhitespace c = false ∧ c ≠ '"' ∧ c ≠ ',' ∧ c ≠ '='
  first : key.head? ≠ some '#'
  last : ∀ c, key.getLast? = some c → c ≠ '+' ∧ c ≠ '-' ∧ c ≠ ':' ∧ c ≠ '!'

/-- One item of a rule, with the blanks around it. -/
structure Item where
  lead : List Char
  key : List Char
  op : Operator
  value : List Char
  trail : List Char
  blankLead : Blank lead
  blankTrail : Blank trail
  keyText : KeyText key
  unquoted : '"' ∉ value

namespace Item

def core (i : Item) : List Char := i.key ++ i.op.text ++ '"' :: (i.value ++ ['"'])

def text (i : Item) : List Char := i.lead ++ i.core ++ i.trail

def Wanted (i : Item) : Prop := i.key ∈ programKeys

instance (i : Item) : Decidable i.Wanted := inferInstanceAs (Decidable (i.key ∈ programKeys))

/-- What is to be read of the item. -/
def program (i : Item) : Option (List Char × List Char) :=
  if i.Wanted ∧ i.value ≠ [] then some (i.key, i.value) else none

/-- What is read of it. -/
def found (i : Item) : Option (List Char × List Char) :=
  if i.Wanted then
    match i.op with
    | .remove => none
    | .equal => some (i.key, if i.value = [] then ['='] else '=' :: '"' :: i.value)
    | _ => if i.value = [] then none else some (i.key, i.value)
  else none

end Item

/-- The line of a rule -/
def printRule : List Item → List Char
  | [] => []
  | [i] => i.text
  | i :: j :: items => i.text ++ ',' :: printRule (j :: items)

variable {i j : Item} {items : List Item} {q : Bool} {s v cur rest : List Char} {c : Char}

/-! ### Splitting -/

theorem splitRuleFrom_plain (h : ∀ c ∈ s, c ≠ '"' ∧ c ≠ ',') :
    splitRuleFrom q cur (s ++ rest) = splitRuleFrom q (cur ++ s) rest := by
  induction s generalizing cur with
  | nil => rw [List.nil_append, List.append_nil]
  | cons c s ih =>
    have hc := h c List.mem_cons_self
    rw [List.cons_append, splitRuleFrom, if_neg hc.1, if_neg fun hcomma => hc.2 hcomma.1,
      ih fun d hd => h d (List.mem_cons_of_mem c hd), List.append_assoc, List.singleton_append]

theorem splitRuleFrom_quoted (h : '"' ∉ v) :
    splitRuleFrom true cur (v ++ rest) = splitRuleFrom true (cur ++ v) rest := by
  induction v generalizing cur with
  | nil => rw [List.nil_append, List.append_nil]
  | cons c v ih =>
    have hc : c ≠ '"' := fun heq => h (heq ▸ List.mem_cons_self)
    rw [List.cons_append, splitRuleFrom, if_neg hc, if_neg fun hcomma => Bool.noConfusion hcomma.2,
      ih fun hv => h (List.mem_cons_of_mem c hv), List.append_assoc, List.singleton_append]

theorem isWhitespace_ne {c d : Char} (hc : isWhitespace c = true) (hd : isWhitespace d = false) : c ≠ d := by
  intro heq
  rw [heq, hd] at hc
  cases hc

theorem Operator.text_plain (op : Operator) : ∀ c ∈ op.text, c ≠ '"' ∧ c ≠ ',' := by
  cases op <;> decide

/-- An item has no comma outside its quotes. -/
theorem splitRuleFrom_item (i : Item) :
    splitRuleFrom false cur (i.text ++ rest) = splitRuleFrom false (cur ++ i.text) rest := by
  have hblank : ∀ {w : List Char}, Blank w → ∀ c ∈ w, c ≠ '"' ∧ c ≠ ',' := fun hw c hc =>
    ⟨isWhitespace_ne (hw c hc) (by decide), isWhitespace_ne (hw c hc) (by decide)⟩
  have hkey : ∀ c ∈ i.key, c ≠ '"' ∧ c ≠ ',' := fun c hc =>
    ⟨(i.keyText.word c hc).2.1, (i.keyText.word c hc).2.2.1⟩
  have htext : i.text ++ rest =
      i.lead ++ (i.key ++ (i.op.text ++ '"' :: (i.value ++ '"' :: (i.trail ++ rest)))) := by
    simp [Item.text, Item.core]
  have hquote (q : Bool) (cur rest : List Char) :
      splitRuleFrom q cur ('"' :: rest) = splitRuleFrom (!q) (cur ++ ['"']) rest := by
    rw [splitRuleFrom, if_pos rfl]
  rw [htext, splitRuleFrom_plain (hblank i.blankLead), splitRuleFrom_plain hkey,
    splitRuleFrom_plain i.op.text_plain, hquote, Bool.not_false, splitRuleFrom_quoted i.unquoted, hquote,
    Bool.not_true, splitRuleFrom_plain (hblank i.blankTrail)]
  simp [Item.text, Item.core]

theorem splitRuleFrom_print (i : Item) :
    splitRuleFrom false cur (printRule (i :: items)) = trim (cur ++ i.text) :: items.map fun j => trim j.text := by
  induction items generalizing cur i with
  | nil =>
    have h : splitRuleFrom false cur (i.text ++ []) = splitRuleFrom false (cur ++ i.text) [] := splitRuleFrom_item i
    rw [List.append_nil] at h
    rw [printRule, h]
    rfl
  | cons j items ih =>
    rw [printRule, splitRuleFrom_item, splitRuleFrom, if_neg (by decide), if_pos ⟨rfl, rfl⟩, ih]
    rfl

/-- Blanks before and after a line make no difference, as every part is trimmed. -/
theorem splitRuleFrom_blank {w : List Char} (hw : Blank w) :
    splitRuleFrom q (w ++ cur) s = splitRuleFrom q cur s := by
  induction s generalizing q cur with
  | nil => rw [splitRuleFrom, splitRuleFrom, trim_append_left hw]
  | cons c s ih =>
    simp only [splitRuleFrom, List.append_assoc, ih, trim_append_left hw]

theorem splitRuleFrom_trail {w : List Char} (hw : Blank w) :
    splitRuleFrom q cur (s ++ w) = splitRuleFrom q cur s := by
  have hplain : ∀ c ∈ w, c ≠ '"' ∧ c ≠ ',' := fun c hc =>
    ⟨isWhitespace_ne (hw c hc) (by decide), isWhitespace_ne (hw c hc) (by decide)⟩
  induction s generalizing q cur with
  | nil =>
    have h : splitRuleFrom q cur (w ++ []) = splitRuleFrom q (cur ++ w) [] := splitRuleFrom_plain hplain
    rw [List.append_nil] at h
    rw [List.nil_append, h, splitRuleFrom, splitRuleFrom, trim_append_right hw]
  | cons c s ih =>
    simp only [List.cons_append, splitRuleFrom, ih]

theorem splitRule_trim (line : List Char) : splitRule (trim line) = splitRule line := by
  obtain ⟨w, w', hw, hw', heq⟩ := exists_trim line
  have hplain : ∀ c ∈ w, c ≠ '"' ∧ c ≠ ',' := fun c hc =>
    ⟨isWhitespace_ne (hw c hc) (by decide), isWhitespace_ne (hw c hc) (by decide)⟩
  have hlead : splitRule (w ++ trim line) = splitRule (trim line) := by
    have hblank : splitRuleFrom false (w ++ []) (trim line) = splitRuleFrom false [] (trim line) :=
      splitRuleFrom_blank hw
    rw [splitRule, splitRuleFrom_plain hplain, List.nil_append, splitRule, ← hblank, List.append_nil]
  calc splitRule (trim line) = splitRule (w ++ trim line) := hlead.symm
    _ = splitRule (w ++ trim line ++ w') := (splitRuleFrom_trail hw').symm
    _ = splitRule line := by rw [← heq]

/-! ### Items -/

theorem Item.head_key (i : Item) : ∃ c key, i.key = c :: key ∧ isWhitespace c = false ∧ c ≠ '#' := by
  cases hkey : i.key with
  | nil => exact absurd hkey i.keyText.nonempty
  | cons c key =>
    have hmem : c ∈ i.key := by
      rw [hkey]
      exact List.mem_cons_self
    refine ⟨c, key, rfl, (i.keyText.word c hmem).1, ?_⟩
    intro heq
    apply i.keyText.first
    rw [hkey, heq, List.head?_cons]

theorem Item.trim_text (i : Item) : trim i.text = i.core := by
  obtain ⟨c, key, hkey, hc, -⟩ := i.head_key
  have hquote : isWhitespace '"' = false := by decide
  have hfirst : i.core.head? = some c := by
    rw [Item.core, hkey]
    rfl
  have hlast : i.core = i.key ++ i.op.text ++ '"' :: i.value ++ ['"'] := by
    simp [Item.core]
  rw [Item.text, trim_append_right i.blankTrail, trim_append_left i.blankLead]
  exact trim_of_ends hc hquote hfirst hlast

theorem splitRule_print (i : Item) : splitRule (printRule (i :: items)) = (i :: items).map Item.core := by
  have htrim : (items.map fun j => trim j.text) = items.map Item.core :=
    List.map_congr_left fun j _ => j.trim_text
  rw [splitRule, splitRuleFrom_print, List.nil_append, i.trim_text, htrim, List.map_cons]

/-- No item makes its line a comment. -/
theorem printRule_head (i : Item) : (trim (printRule (i :: items))).head? ≠ some '#' := by
  obtain ⟨c, key, hkey, hc, hne⟩ := i.head_key
  have hline : ∃ rest, printRule (i :: items) = i.lead ++ c :: rest := by
    have htext : i.text = i.lead ++ c :: (key ++ i.op.text ++ '"' :: (i.value ++ ['"']) ++ i.trail) := by
      simp [Item.text, Item.core, hkey]
    cases items with
    | nil => exact ⟨_, htext⟩
    | cons j items =>
      refine ⟨key ++ i.op.text ++ '"' :: (i.value ++ ['"']) ++ i.trail ++ ',' :: printRule (j :: items), ?_⟩
      rw [printRule, htext, List.append_assoc]
      rfl
  obtain ⟨rest, hrest⟩ := hline
  rw [hrest, trim_append_left i.blankLead, head?_trim_cons hc]
  intro h
  exact hne (Option.some.inj h)

theorem dropQuotes_append (h : '"' ∉ v) (hne : v ≠ []) : (v ++ s).dropWhile (· = '"') = v ++ s := by
  cases v with
  | nil => exact absurd rfl hne
  | cons c v =>
    have hc : c ≠ '"' := fun heq => h (heq ▸ List.mem_cons_self)
    exact List.dropWhile_cons_of_neg (by simpa using hc)

theorem trimQuotes_quoted (h : '"' ∉ v) : trimQuotes ('"' :: (v ++ ['"'])) = v := by
  by_cases hv : v = []
  · rw [hv]
    rfl
  · have hrev : '"' ∉ v.reverse := fun hmem => h (List.mem_reverse.mp hmem)
    have hne : v.reverse ≠ [] := fun hnil => hv (List.reverse_eq_nil_iff.mp hnil)
    have hback : v.reverse.dropWhile (· = '"') = v.reverse := by
      have hdrop : (v.reverse ++ []).dropWhile (· = '"') = v.reverse ++ [] := dropQuotes_append hrev hne
      rwa [List.append_nil] at hdrop
    rw [trimQuotes, List.dropWhile_cons_of_pos (by decide), dropQuotes_append h hv, List.reverse_append,
      List.reverse_singleton, List.singleton_append, List.dropWhile_cons_of_pos (by decide), hback,
      List.reverse_reverse]

/-- A value that is compared keeps the second character of its operator, and with it the opening quote. -/
theorem trimQuotes_equal (h : '"' ∉ v) :
    trimQuotes ('=' :: '"' :: (v ++ ['"'])) = if v = [] then ['='] else '=' :: '"' :: v := by
  by_cases hv : v = []
  · rw [if_pos hv, hv]
    rfl
  · have hrev : '"' ∉ v.reverse := fun hmem => h (List.mem_reverse.mp hmem)
    have hne : v.reverse ≠ [] := fun hnil => hv (List.reverse_eq_nil_iff.mp hnil)
    have hlist : ('=' :: '"' :: (v ++ ['"'])).reverse = '"' :: (v.reverse ++ ['"', '=']) := by simp
    rw [if_neg hv, trimQuotes, List.dropWhile_cons_of_neg (by decide), hlist,
      List.dropWhile_cons_of_pos (by decide), dropQuotes_append hrev hne]
    simp

theorem trim_quoted (h : isWhitespace c = false) : trim (c :: (s ++ ['"'])) = c :: (s ++ ['"']) := by
  have hquote : isWhitespace '"' = false := by decide
  exact trim_of_ends h hquote List.head?_cons (List.cons_append).symm

/-- The key is what is left of it when the operator's own character is stripped. -/
theorem trimOperator_key (i : Item) {ops : List Char} (hops : ∀ c ∈ ops, c = '+' ∨ c = ':' ∨ c = '!') :
    trim (trimOperator (i.key ++ ops)) = i.key := by
  have hdrop : ∀ c ∈ ops.reverse, decide (c = '+' ∨ c = ':' ∨ c = '!') = true := fun c hc =>
    decide_eq_true (hops c (List.mem_reverse.mp hc))
  have hstay : i.key.reverse.dropWhile (fun c => c = '+' ∨ c = ':' ∨ c = '!') = i.key.reverse := by
    cases hrev : i.key.reverse with
    | nil => rfl
    | cons c rest =>
      have hlast : i.key.getLast? = some c := by
        rw [List.getLast?_eq_head?_reverse, hrev, List.head?_cons]
      have hne := i.keyText.last c hlast
      apply List.dropWhile_cons_of_neg
      simp [hne.1, hne.2.2.1, hne.2.2.2]
  rw [trimOperator, List.reverse_append, List.dropWhile_append_of_pos hdrop, hstay, List.reverse_reverse]
  exact trim_eq_self fun c hc => (i.keyText.word c hc).1

/-- The character of `-=` stays, and no key of a program ends with it. -/
theorem trimOperator_remove (i : Item) : trim (trimOperator (i.key ++ ['-'])) ∉ programKeys := by
  have hstrip : trimOperator (i.key ++ ['-']) = i.key ++ ['-'] := by
    rw [trimOperator, List.reverse_append, List.reverse_singleton, List.singleton_append,
      List.dropWhile_cons_of_neg (by decide), List.reverse_cons, List.reverse_reverse]
  have htrim : trim (i.key ++ ['-']) = i.key ++ ['-'] := by
    apply trim_eq_self
    intro c hc
    rcases List.mem_append.mp hc with hc | hc
    · exact (i.keyText.word c hc).1
    · rw [List.mem_singleton.mp hc]
      decide
  have hlast : ∀ k ∈ programKeys, k.getLast? ≠ some '-' := by decide
  rw [hstrip, htrim]
  intro hmem
  exact hlast _ hmem List.getLast?_concat

/-- What of an operator is left of the `=` that the item is split at, and what is right of it. -/
def Operator.split : Operator → List Char × List Char
  | equal => ([], ['='])
  | notEqual => (['!'], [])
  | assign => ([], [])
  | add => (['+'], [])
  | remove => (['-'], [])
  | assignFinal => ([':'], [])

theorem splitOnce_core (i : Item) :
    splitOnce '=' i.core = some (i.key ++ i.op.split.1, i.op.split.2 ++ '"' :: (i.value ++ ['"'])) := by
  have htext : i.op.text = i.op.split.1 ++ '=' :: i.op.split.2 := by
    cases i.op <;> rfl
  have hop : '=' ∉ i.op.split.1 := by
    cases i.op <;> decide
  have hkey : '=' ∉ i.key ++ i.op.split.1 := by
    intro hmem
    rcases List.mem_append.mp hmem with hmem | hmem
    · exact (i.keyText.word _ hmem).2.2.2 rfl
    · exact hop hmem
  have hcore : i.core = (i.key ++ i.op.split.1) ++ '=' :: (i.op.split.2 ++ '"' :: (i.value ++ ['"'])) := by
    rw [Item.core, htext]
    simp
  rw [hcore, splitOnce_append hkey]

/-- What the loop does with one item. -/
theorem programsFrom_core (i : Item) (parts : List (List Char)) (out : List (List Char × List Char)) :
    programsFrom (i.core :: parts) out =
      if (out ++ i.found.toList).length ≥ 16 then out ++ i.found.toList
      else programsFrom parts (out ++ i.found.toList) := by
  have hplain : trimQuotes (trim ('"' :: (i.value ++ ['"']))) = i.value := by
    rw [trim_quoted (by decide), trimQuotes_quoted i.unquoted]
  -- a value that is read as it is printed
  have hread (ops : List Char) (hops : ∀ c ∈ ops, c = '+' ∨ c = ':' ∨ c = '!') :
      pushProgram out (trim (trimOperator (i.key ++ ops))) (trimQuotes (trim ('"' :: (i.value ++ ['"'])))) =
        out ++ (if i.Wanted then if i.value = [] then none else some (i.key, i.value) else none).toList := by
    rw [hplain, trimOperator_key i hops, pushProgram]
    by_cases hw : i.key ∈ programKeys
    · by_cases hv : i.value = []
      · simp [Item.Wanted, hv]
      · simp [Item.Wanted, hw, hv]
    · simp [Item.Wanted, hw]
  have hpush : pushProgram out (trim (trimOperator (i.key ++ i.op.split.1)))
      (trimQuotes (trim (i.op.split.2 ++ '"' :: (i.value ++ ['"'])))) = out ++ i.found.toList := by
    cases hop : i.op with
    | equal =>
      have hvalue : trimQuotes (trim (['='] ++ '"' :: (i.value ++ ['"']))) =
          if i.value = [] then ['='] else '=' :: '"' :: i.value := by
        have htrim : trim ('=' :: ('"' :: i.value ++ ['"'])) = '=' :: ('"' :: i.value ++ ['"']) :=
          trim_quoted (by decide)
        rw [List.singleton_append, ← List.cons_append, htrim, List.cons_append, trimQuotes_equal i.unquoted]
      have hkey : trim (trimOperator (i.key ++ [])) = i.key := trimOperator_key i (by simp)
      have hne : (if i.value = [] then ['='] else '=' :: '"' :: i.value) ≠ [] := by
        split <;> exact List.cons_ne_nil _ _
      simp only [Operator.split, hvalue, hkey, Item.found, hop, Item.Wanted, pushProgram]
      by_cases hw : i.key ∈ programKeys
      · rw [if_pos ⟨hw, hne⟩, if_pos hw]
        rfl
      · rw [if_neg fun h => hw h.1, if_neg hw]
        simp
    | remove =>
      have hnot := trimOperator_remove i
      simp [pushProgram, Operator.split, Item.found, hop, hnot]
    | notEqual => simpa only [Operator.split, List.nil_append, Item.found, hop] using hread ['!'] (by decide)
    | assign => simpa only [Operator.split, List.nil_append, Item.found, hop] using hread [] (by decide)
    | add => simpa only [Operator.split, List.nil_append, Item.found, hop] using hread ['+'] (by decide)
    | assignFinal => simpa only [Operator.split, List.nil_append, Item.found, hop] using hread [':'] (by decide)
  rw [programsFrom, splitOnce_core]
  simp only [hpush]

theorem programsFrom_cores {out : List (List Char × List Char)} (hout : out.length < 16) :
    programsFrom (items.map Item.core) out = (out ++ items.filterMap Item.found).take 16 := by
  induction items generalizing out with
  | nil => simp [programsFrom, List.take_of_length_le (Nat.le_of_lt hout)]
  | cons i items ih =>
    have hlist : (i :: items).filterMap Item.found = i.found.toList ++ items.filterMap Item.found := by
      cases hf : i.found <;> simp [hf]
    rw [List.map_cons, programsFrom_core, hlist, ← List.append_assoc]
    have hone : (out ++ i.found.toList).length ≤ 16 := by
      rw [List.length_append]
      cases i.found with
      | none =>
        simp only [Option.toList_none, List.length_nil]
        omega
      | some r =>
        simp only [Option.toList_some, List.length_singleton]
        omega
    split
    · rename_i hfull
      have hlen : (out ++ i.found.toList).length = 16 := Nat.le_antisymm hone hfull
      rw [← hlen, List.take_left]
    · rename_i hless
      exact ih (Nat.lt_of_not_le hless)

theorem programs_printRule (items : List Item) :
    programs (printRule items) = (items.filterMap Item.found).take 16 := by
  cases items with
  | nil => rfl
  | cons i items =>
    rw [programs]
    simp only [if_neg (printRule_head i), splitRule_trim, splitRule_print]
    rw [programsFrom_cores (by decide), List.nil_append]

/-! ### When a line is read right -/

/-- No wanted item is compared with or taken away, and there are at most 16 values. -/
structure Readable (items : List Item) : Prop where
  ops : ∀ i ∈ items, i.Wanted → i.op ≠ .equal ∧ (i.op = .remove → i.value = [])
  few : (items.filterMap Item.program).length ≤ 16

/-- An item is read right unless its operator is one of two. -/
theorem Item.found_eq_program (h : i.Wanted → i.op ≠ .equal ∧ (i.op = .remove → i.value = [])) :
    i.found = i.program := by
  unfold Item.found Item.program
  by_cases hw : i.Wanted
  · obtain ⟨hequal, hremove⟩ := h hw
    cases hop : i.op with
    | equal => exact absurd hop hequal
    | remove => simp [hw, hremove hop]
    | _ => by_cases hv : i.value = [] <;> simp [hw, hv]
  · simp [hw]

theorem Readable.programs (h : Readable items) : programs (printRule items) = items.filterMap Item.program := by
  have hfound : items.filterMap Item.found = items.filterMap Item.program :=
    List.filterMap_congr fun i hi => Item.found_eq_program (h.ops i hi)
  rw [programs_printRule, hfound, List.take_of_length_le h.few]

/-- A value that a `-=` takes away -/
def Item.Removed (i : Item) : Prop := i.Wanted ∧ i.op = .remove ∧ i.value ≠ []

instance (i : Item) : Decidable i.Removed := inferInstanceAs (Decidable (_ ∧ _ ∧ _))

/-- What is read are the values that are there, less those that a `-=` takes away. -/
theorem length_program (hne : ∀ i ∈ items, i.Wanted → i.op = .equal → i.value ≠ []) :
    (items.filterMap Item.program).length =
      (items.filterMap Item.found).length + items.countP (fun i => i.Removed) := by
  induction items with
  | nil => rfl
  | cons i items ih =>
    have htail := ih fun j hj => hne j (List.mem_cons_of_mem i hj)
    have hone : i.program.toList.length = i.found.toList.length + if i.Removed then 1 else 0 := by
      have hi := hne i List.mem_cons_self
      by_cases hw : i.Wanted
      · cases hop : i.op with
        | equal => simp [Item.program, Item.found, Item.Removed, hw, hop, hi hw hop]
        | _ => by_cases hv : i.value = [] <;> simp [Item.program, Item.found, Item.Removed, hw, hop, hv]
      · simp [Item.program, Item.found, Item.Removed, hw]
    have hprogram : (i :: items).filterMap Item.program = i.program.toList ++ items.filterMap Item.program := by
      cases hp : i.program <;> simp [hp]
    have hfound : (i :: items).filterMap Item.found = i.found.toList ++ items.filterMap Item.found := by
      cases hp : i.found <;> simp [hp]
    rw [hprogram, hfound, List.length_append, List.length_append, List.countP_cons, htail, hone]
    simp only [decide_eq_true_eq]
    omega

/-- A line that is read right is readable, unless an item compares with an empty value: then what is read of it is the
operator's character, which another item may have as its value. -/
theorem readable_of_programs (h : programs (printRule items) = items.filterMap Item.program)
    (hne : ∀ i ∈ items, i.Wanted → i.op = .equal → i.value ≠ []) : Readable items := by
  rw [programs_printRule] at h
  have hlen := length_program hne
  have htake : (items.filterMap Item.program).length ≤ (items.filterMap Item.found).length := by
    rw [← h, List.length_take]
    exact Nat.min_le_right _ _
  -- as many items are found as there are programs, so none is lost
  have hnone : items.countP (fun i => i.Removed) = 0 := by omega
  have hsame : items.filterMap Item.found = items.filterMap Item.program := by
    rw [← h]
    apply (List.take_of_length_le _).symm
    have hmin := congrArg List.length h
    rw [List.length_take] at hmin
    omega
  have hfew : (items.filterMap Item.program).length ≤ 16 := by
    rw [← h, List.length_take]
    exact Nat.min_le_left _ _
  refine ⟨fun i hi hw => ⟨?_, ?_⟩, hfew⟩
  · intro hop
    have hread : i.found = some (i.key, '=' :: '"' :: i.value) := by
      simp [Item.found, hw, hop, hne i hi hw hop]
    have hmem : (i.key, '=' :: '"' :: i.value) ∈ items.filterMap Item.program := by
      rw [← hsame]
      exact List.mem_filterMap.mpr ⟨i, hi, hread⟩
    obtain ⟨j, -, hj⟩ := List.mem_filterMap.mp hmem
    unfold Item.program at hj
    split at hj
    · -- no value has a quote
      apply j.unquoted
      rw [(Prod.mk.inj (Option.some.inj hj)).2]
      exact List.mem_cons_of_mem _ List.mem_cons_self
    · cases hj
  · intro hop
    by_contra hv
    have hcount := List.countP_eq_zero.mp hnone i hi
    exact hcount (decide_eq_true ⟨hw, hop, hv⟩)

/-- A rule line is read right when no wanted item is compared with or taken away and there are at most 16 values; a line
that is read right is such a line, but for comparisons with the empty value. -/
theorem udev_programs_exactly (items : List Item) :
    (Readable items → programs (printRule items) = items.filterMap Item.program) ∧
    (programs (printRule items) = items.filterMap Item.program →
      Readable items ∨ ∃ i ∈ items, i.Wanted ∧ i.op = .equal ∧ i.value = []) := by
  refine ⟨Readable.programs, fun h => ?_⟩
  by_cases hne : ∀ i ∈ items, i.Wanted → i.op = .equal → i.value ≠ []
  · exact Or.inl (readable_of_programs h hne)
  · push Not at hne
    exact Or.inr hne

/-- `PROGRAM=="/bin/x"` -/
def comparedItem : Item where
  lead := []
  key := "PROGRAM".toList
  op := .equal
  value := "/bin/x".toList
  trail := []
  blankLead := blank_nil
  blankTrail := blank_nil
  keyText := ⟨by decide, by decide, by decide, fun _ h => Option.some.inj h ▸ by decide⟩
  unquoted := by decide

theorem compared_program_misread :
    programs (printRule [comparedItem]) = [("PROGRAM".toList, "=\"/bin/x".toList)] ∧
    programs (printRule [comparedItem]) ≠ [comparedItem].filterMap Item.program := by
  decide

end AbyssalWarden.Udev
