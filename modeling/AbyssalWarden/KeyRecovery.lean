import AbyssalWarden.ForcedCommands

/-! Which lines of a text of keys are recovered as they were printed: how a line is taken apart, what becomes of its
comment, and what of the lines beyond the limit. -/
namespace AbyssalWarden.SshKeys

variable {c : Char} {s t cur v w rest : List Char} {o : Opt} {os : List Opt} {quoted escaped : Bool} {k : KeyLine}

/-! ### The words of a line -/

theorem splitFrom_word (hw : ∀ c ∈ w, isWhitespace c = false ∧ c ≠ '"') :
    splitFrom cur false false (w ++ rest) = splitFrom (cur ++ w) false false rest := by
  induction w generalizing cur with
  | nil => rw [List.nil_append, List.append_nil]
  | cons c w ih =>
    obtain ⟨hc, hquote⟩ := hw c List.mem_cons_self
    rw [List.cons_append, splitFrom, if_neg Bool.false_ne_true, if_neg (by simp), if_neg hquote, if_neg (by simp [hc]),
      ih fun d hd => hw d (List.mem_cons_of_mem c hd), List.append_assoc, List.singleton_append]

theorem splitFrom_blank (hc : isWhitespace c = true) : splitFrom cur false false (c :: rest) =
    if cur = [] then splitFrom [] false false rest else cur :: splitFrom [] false false rest := by
  have hslash : c ≠ '\\' := by
    rintro rfl
    exact absurd hc (by decide)
  have hquote : c ≠ '"' := by
    rintro rfl
    exact absurd hc (by decide)
  rw [splitFrom, if_neg Bool.false_ne_true, if_neg (by simp), if_neg hquote, if_pos ⟨hc, by decide⟩]

theorem splitFrom_blanks (hw : Blank w) : splitFrom [] false false (w ++ rest) = splitFrom [] false false rest := by
  induction w with
  | nil => rfl
  | cons c w ih =>
    rw [List.cons_append, splitFrom_blank (hw c List.mem_cons_self), if_pos rfl]
    exact ih fun d hd => hw d (List.mem_cons_of_mem c hd)

theorem splitFrom_escape (hv : ∀ c ∈ v, c ≠ '\\') :
    splitFrom cur true false (escape v ++ rest) = splitFrom (cur ++ escape v) true false rest := by
  induction v generalizing cur with
  | nil => rw [escape, List.flatMap_nil, List.nil_append, List.append_nil]
  | cons c v ih =>
    have hslash := hv c List.mem_cons_self
    have htail : ∀ d ∈ v, d ≠ '\\' := fun d hd => hv d (List.mem_cons_of_mem c hd)
    rw [escape_cons]
    by_cases hc : c = '"'
    · have hpair : splitFrom cur true false ('\\' :: '"' :: (escape v ++ rest)) =
          splitFrom (cur ++ ['\\'] ++ ['"']) true false (escape v ++ rest) := rfl
      rw [if_pos hc, List.append_assoc]
      refine hpair.trans ?_
      rw [ih htail]
      simp only [List.append_assoc, List.cons_append, List.nil_append]
    · rw [if_neg hc, List.append_assoc, List.singleton_append, splitFrom, if_neg Bool.false_ne_true,
        if_neg (by simp [hslash]), if_neg hc, if_neg (by simp), ih htail, List.append_assoc, List.singleton_append]

theorem splitFrom_option (o : Opt) :
    splitFrom cur false false (o.text ++ rest) = splitFrom (cur ++ o.text) false false rest := by
  have hname : ∀ c ∈ o.name, isWhitespace c = false ∧ c ≠ '"' := fun c hc => ⟨(o.named.2 c hc).1, (o.name_plain c hc).2⟩
  rw [Opt.text]
  cases hvalue : o.value with
  | none => exact splitFrom_word hname
  | some v =>
    have hv : ∀ c ∈ v, c ≠ '\\' := by
      intro c hc heq
      have hnot := o.valued v hvalue c hc
      rw [heq] at hnot
      exact hnot List.mem_cons_self
    have hopen (cur rest : List Char) : splitFrom cur false false ('=' :: '"' :: rest) =
        splitFrom (cur ++ ['='] ++ ['"']) true false rest := rfl
    have hclose (cur rest : List Char) : splitFrom cur true false ('"' :: rest) =
        splitFrom (cur ++ ['"']) false false rest := rfl
    have htext : o.name ++ '=' :: '"' :: escape v ++ ['"'] ++ rest =
        o.name ++ ('=' :: '"' :: (escape v ++ '"' :: rest)) := by
      simp only [List.append_assoc, List.cons_append, List.nil_append]
    dsimp only
    rw [htext, splitFrom_word hname, hopen, splitFrom_escape hv, hclose]
    simp only [List.append_assoc, List.cons_append, List.nil_append]

theorem splitFrom_tailText (os : List Opt) :
    splitFrom cur false false (tailText os ++ rest) = splitFrom (cur ++ tailText os) false false rest := by
  induction os generalizing cur with
  | nil => rw [tailText, List.flatMap_nil, List.nil_append, List.append_nil]
  | cons o os ih =>
    have hcomma (rest : List Char) : splitFrom cur false false (',' :: rest) =
        splitFrom (cur ++ [',']) false false rest := rfl
    rw [tailText_cons, List.append_assoc, List.cons_append, hcomma, splitFrom_option, ih]
    simp only [List.append_assoc, List.cons_append, List.nil_append]

theorem optionsText_eq (hne : k.options ≠ []) :
    ∃ o os, k.options = o :: os ∧ k.optionsText = o.text ++ tailText os := by
  obtain ⟨o, os, heq⟩ := List.exists_cons_of_ne_nil hne
  refine ⟨o, os, heq, ?_⟩
  rw [KeyLine.optionsText, heq]
  exact intercalate_text o os

theorem Opt.text_ne_nil (o : Opt) : o.text ≠ [] := by
  rw [Opt.text]
  cases o.value with
  | none => exact o.named.1
  | some v => simp

theorem optionsText_ne_nil (hne : k.options ≠ []) : k.optionsText ≠ [] := by
  obtain ⟨o, os, -, htext⟩ := optionsText_eq hne
  rw [htext]
  exact List.append_ne_nil_of_left_ne_nil o.text_ne_nil _

/-- The words before the comment -/
def KeyLine.front (k : KeyLine) : List (List Char) :=
  (if k.options = [] then [] else [k.optionsText]) ++ [k.kind, k.blob]

/-- The line up to the comment -/
def KeyLine.body (k : KeyLine) : List Char :=
  (if k.options = [] then [] else k.optionsText ++ [' ']) ++ k.kind ++ ' ' :: k.blob

theorem splitFrom_key (k : KeyLine) (rest : List Char) :
    splitFrom [] false false (k.kind ++ ' ' :: (k.blob ++ rest)) = k.kind :: splitFrom k.blob false false rest := by
  have hblank : isWhitespace ' ' = true := by decide
  rw [splitFrom_word k.kindWord.2, splitFrom_blank hblank, List.nil_append, if_neg k.kindWord.1,
    splitFrom_word k.blobWord.2, List.nil_append]

theorem splitFrom_body (k : KeyLine) (rest : List Char) : splitFrom [] false false (k.body ++ rest) =
    k.front.dropLast ++ splitFrom k.blob false false rest := by
  have hblank : isWhitespace ' ' = true := by decide
  unfold KeyLine.body KeyLine.front
  by_cases hnone : k.options = []
  · rw [if_pos hnone, if_pos hnone, List.nil_append, List.nil_append, List.append_assoc, List.cons_append,
      splitFrom_key]
    rfl
  · obtain ⟨o, os, -, htext⟩ := optionsText_eq hnone
    have hform : k.optionsText ++ [' '] ++ k.kind ++ ' ' :: k.blob ++ rest =
        o.text ++ (tailText os ++ ' ' :: (k.kind ++ ' ' :: (k.blob ++ rest))) := by
      rw [htext]
      simp only [List.append_assoc, List.cons_append, List.nil_append]
    have hne := optionsText_ne_nil hnone
    rw [if_neg hnone, if_neg hnone, hform, splitFrom_option, splitFrom_tailText, List.nil_append, ← htext,
      splitFrom_blank hblank, if_neg hne, splitFrom_key]
    rfl

/-! ### The comment -/

theorem splitFrom_ne_nil (h : cur ≠ []) : splitFrom cur quoted escaped s ≠ [] := by
  induction s generalizing cur quoted escaped with
  | nil =>
    rw [splitFrom, if_neg h]
    exact List.cons_ne_nil _ _
  | cons c s ih =>
    have hmore : cur ++ [c] ≠ [] := List.append_ne_nil_of_left_ne_nil h _
    rw [splitFrom]
    split_ifs
    · exact ih hmore
    · exact ih hmore
    · exact ih hmore
    · exact List.cons_ne_nil _ _
    · exact ih hmore

theorem unwords_cons (t : List Char) {ts : List (List Char)} (h : ts ≠ []) : unwords (t :: ts) = t ++ ' ' :: unwords ts := by
  rw [unwords, List.intercalate_cons_of_ne_nil h, List.append_assoc, List.singleton_append]
  rfl

/-- Words never make a longer text than they were read from. -/
theorem unwords_length (cur : List Char) (quoted escaped : Bool) (s : List Char) :
    (unwords (splitFrom cur quoted escaped s)).length ≤ cur.length + s.length := by
  induction s generalizing cur quoted escaped with
  | nil =>
    rw [splitFrom]
    split
    · exact Nat.zero_le _
    · simp [unwords]
  | cons c s ih =>
    have hmore (quoted escaped : Bool) : (unwords (splitFrom (cur ++ [c]) quoted escaped s)).length ≤
        cur.length + (c :: s).length := by
      have h := ih (cur ++ [c]) quoted escaped
      rw [List.length_append, List.length_singleton] at h
      rw [List.length_cons]
      omega
    rw [splitFrom]
    -- a character goes into the word, or it is a blank that ends it
    split_ifs with _ _ _ _ hcur
    · exact hmore _ _
    · exact hmore _ _
    · exact hmore _ _
    · have h := ih [] quoted false
      rw [List.length_nil] at h
      rw [List.length_cons]
      omega
    · have h := ih [] quoted false
      rw [List.length_nil] at h
      by_cases hnil : splitFrom [] quoted false s = []
      · rw [hnil]
        simp [unwords]
      · rw [unwords_cons cur hnil, List.length_append, List.length_cons, List.length_cons]
        omega
    · exact hmore _ _

/-- A word that starts -/
theorem split_start {d : Char} (hd : isWhitespace d = false) :
    splitFrom [] false false (d :: s) = splitFrom [d] (decide (d = '"')) false s ∧
      spacedFrom false false (d :: s) = spacedFrom (decide (d = '"')) false s := by
  have hslash : ¬ (d = '\\' ∧ false = true) := by simp
  have hblank : ¬ (isWhitespace d = true ∧ ¬ false = true) := by simp [hd]
  rw [splitFrom, spacedFrom, if_neg Bool.false_ne_true, if_neg Bool.false_ne_true, if_neg hslash, if_neg hslash,
    if_neg hblank, if_neg hblank]
  by_cases hquote : d = '"'
  · rw [if_pos hquote, if_pos hquote, decide_eq_true hquote]
    exact ⟨rfl, rfl⟩
  · rw [if_neg hquote, if_neg hquote, decide_eq_false hquote]
    exact ⟨rfl, rfl⟩

/-- The words of a text make the text again if and only if it is spaced as they are joined: in a word, and where a word
starts. -/
theorem unwords_split (s : List Char) :
    (∀ cur quoted escaped, cur ≠ [] →
      (unwords (splitFrom cur quoted escaped s) = cur ++ s ↔ spacedFrom quoted escaped s = true)) ∧
    (unwords (splitFrom [] false false s) = s ↔
      s = [] ∨ (s.head?.any (fun d => !isWhitespace d) = true ∧ spacedFrom false false s = true)) := by
  -- the splitter's state is general: the word so far, and whether it is quoted or escaped
  induction s with
  | nil =>
    refine ⟨?_, by simp [splitFrom, unwords]⟩
    intro cur quoted escaped hcur
    simp [splitFrom, hcur, unwords, spacedFrom]
  | cons c s ih =>
    obtain ⟨hword, hstart⟩ := ih
    have hmore (cur : List Char) (quoted escaped : Bool) :
        unwords (splitFrom (cur ++ [c]) quoted escaped s) = cur ++ c :: s ↔ spacedFrom quoted escaped s = true := by
      have h := hword (cur ++ [c]) quoted escaped (by simp)
      rwa [List.append_assoc, List.singleton_append] at h
    constructor
    · intro cur quoted escaped hcur
      rw [splitFrom, spacedFrom]
      split_ifs with hescaped hslash hquote hblank
      · exact hmore _ _ _
      · exact hmore _ _ _
      · exact hmore _ _ _
      · -- a blank: what follows has to start in a word
        obtain rfl : quoted = false := by simpa using hblank.2
        by_cases hnil : splitFrom [] false false s = []
        · have hno : s.head?.any (fun d => !isWhitespace d) = false := by
            cases s with
            | nil => rfl
            | cons d s =>
              cases hd : isWhitespace d with
              | true => simp [hd]
              | false =>
                rw [(split_start hd).1] at hnil
                exact absurd hnil (splitFrom_ne_nil (List.cons_ne_nil _ _))
          rw [hnil, hno]
          simp [unwords]
        · have hne : s ≠ [] := by
            rintro rfl
            exact hnil rfl
          rw [unwords_cons cur hnil, List.append_cancel_left_eq, List.cons.injEq, hstart, or_iff_right hne]
          simp only [Bool.and_eq_true, decide_eq_true_eq, @eq_comm _ ' ' c, and_assoc]
      · exact hmore _ _ _
    · rw [or_iff_right (List.cons_ne_nil c s)]
      cases hc : isWhitespace c with
      | true =>
        -- a blank at the start is dropped, so the joined words are shorter than the text
        rw [splitFrom_blank hc, if_pos rfl]
        have hlength := unwords_length [] false false s
        constructor
        · intro heq
          rw [heq, List.length_nil, List.length_cons] at hlength
          omega
        · rintro ⟨hhead, -⟩
          simp [hc] at hhead
      | false =>
        have hhead : (c :: s).head?.any (fun d => !isWhitespace d) = true := by simp [hc]
        obtain ⟨hsplit, hspaced⟩ := split_start (s := s) hc
        rw [hhead, hsplit, hspaced]
        simpa using hmore [] (decide (c = '"')) false

/-- A comment is shown as it was printed if and only if its words are separated by single blanks. -/
theorem shown_comment_iff (comment : List Char) :
    shownComment (unwords (splitOptionsAware (trim comment))) = shownComment comment ↔ SingleSpaced comment := by
  have hlength := unwords_length [] false false (trim comment)
  obtain ⟨w, w', -, -, hparts⟩ := exists_trim comment
  have htrim : (trim comment).length ≤ comment.length := by
    conv_rhs => rw [hparts]
    simp only [List.length_append]
    omega
  by_cases hempty : comment = []
  · subst hempty
    constructor
    · intro _
      exact ⟨rfl, rfl⟩
    · intro _
      rfl
  constructor
  · intro h
    have heq : unwords (splitOptionsAware (trim comment)) = comment := by
      by_cases hnil : unwords (splitOptionsAware (trim comment)) = []
      · -- the text for a missing comment has words of its own
        rw [hnil] at h
        simp only [shownComment, if_true, if_neg hempty] at h
        rw [← h] at hnil
        exact absurd hnil (by decide)
      · simpa only [shownComment, if_neg hempty, if_neg hnil] using h
    have hsame : trim comment = comment := by
      have hlong := congrArg List.length heq
      rw [splitOptionsAware] at hlong
      rw [List.length_nil] at hlength
      have hw : w.length + w'.length = 0 := by
        have htotal := congrArg List.length hparts
        simp only [List.length_append] at htotal
        omega
      have hwnil : w = [] := List.length_eq_zero_iff.mp (by omega)
      have hwnil' : w' = [] := List.length_eq_zero_iff.mp (by omega)
      rw [hwnil, hwnil', List.nil_append, List.append_nil] at hparts
      exact hparts.symm
    rw [hsame] at heq
    rcases (unwords_split comment).2.mp heq with hnil | ⟨-, hspaced⟩
    · exact absurd hnil hempty
    · exact ⟨hsame, hspaced⟩
  · rintro ⟨hsame, hspaced⟩
    have hhead : comment.head?.any (fun d => !isWhitespace d) = true := by
      cases comment with
      | nil => exact absurd rfl hempty
      | cons c s =>
        cases hc : isWhitespace c with
        | false => simp [hc]
        | true =>
          -- a blank at the start would be trimmed
          have hone : Blank [c] := fun d hd => by
            obtain rfl := List.mem_singleton.mp hd
            exact hc
          have hshort : trim (c :: s) = trim s := trim_append_left hone
          obtain ⟨v, v', -, -, hs⟩ := exists_trim s
          have hshorter := congrArg List.length hs
          simp only [List.length_append] at hshorter
          rw [← hshort, hsame, List.length_cons] at hshorter
          omega
    rw [hsame, splitOptionsAware, (unwords_split comment).2.mpr (Or.inr ⟨hhead, hspaced⟩)]

/-! ### The line of a key -/

theorem body_head (k : KeyLine) : ∃ a x, k.body = a :: x ∧ isWhitespace a = false ∧ a ≠ '#' := by
  unfold KeyLine.body
  by_cases hnone : k.options = []
  · obtain ⟨a, x, hkind⟩ := List.exists_cons_of_ne_nil k.kindWord.1
    rw [if_pos hnone, List.nil_append, hkind]
    refine ⟨a, _, rfl, (k.kindWord.2 a (hkind ▸ List.mem_cons_self)).1, ?_⟩
    rintro rfl
    have hstarts := k.kindStarts
    rw [hkind] at hstarts
    cases hstarts
  · obtain ⟨o, os, -, htext⟩ := optionsText_eq hnone
    obtain ⟨a, x, hname⟩ := List.exists_cons_of_ne_nil o.named.1
    obtain ⟨ha, hnot⟩ := o.named.2 a (hname ▸ List.mem_cons_self)
    have hform : ∃ y, o.text = a :: y := by
      rw [Opt.text, hname]
      cases o.value with
      | none => exact ⟨x, rfl⟩
      | some v => exact ⟨_, rfl⟩
    obtain ⟨y, hy⟩ := hform
    rw [if_neg hnone, htext, hy]
    refine ⟨a, _, rfl, ha, ?_⟩
    rintro rfl
    exact hnot (by decide)

theorem body_last (k : KeyLine) : ∃ y b, k.body = y ++ [b] ∧ isWhitespace b = false := by
  obtain ⟨b, hb⟩ := Option.isSome_iff_exists.mp (List.getLast?_isSome.mpr k.blobWord.1)
  obtain ⟨y, hy⟩ := List.getLast?_eq_some_iff.mp hb
  refine ⟨(if k.options = [] then [] else k.optionsText ++ [' ']) ++ k.kind ++ ' ' :: y, b, ?_, ?_⟩
  · rw [KeyLine.body, hy]
    simp only [List.append_assoc, List.cons_append]
  · exact (k.blobWord.2 b (List.mem_of_getLast? hb)).1

/-- A trimmed line of a key: blanks between the key and the comment are left where there is a comment. -/
theorem trim_text (k : KeyLine) : ∃ w, Blank w ∧ (w = [] → trim k.comment = []) ∧
    trim k.text = k.body ++ (w ++ trim k.comment) := by
  obtain ⟨a, x, ha, hspace, -⟩ := body_head k
  obtain ⟨y, b, hb, hlast⟩ := body_last k
  have hbody : trim k.body = k.body := trim_of_ends hspace hlast (by rw [ha]; rfl) hb
  have htext : k.text = k.body ++ if k.comment = [] then [] else ' ' :: k.comment := rfl
  -- blanks at the end belong to the comment, and are trimmed with it
  by_cases hempty : k.comment = []
  · refine ⟨[], fun c hc => absurd hc List.not_mem_nil, fun _ => by rw [hempty]; rfl, ?_⟩
    rw [htext, if_pos hempty, List.append_nil, hbody, hempty]
    exact (List.append_nil _).symm
  · obtain ⟨w, w', hw, hw', hparts⟩ := exists_trim k.comment
    have hw : Blank (' ' :: w) := by
      intro c hc
      rcases List.mem_cons.mp hc with rfl | hc
      · decide
      · exact hw c hc
    have hform : k.text = k.body ++ (' ' :: w ++ trim k.comment) ++ w' := by
      rw [htext, if_neg hempty]
      conv_lhs => rw [hparts]
      simp only [List.append_assoc, List.cons_append]
    by_cases hnil : trim k.comment = []
    · refine ⟨[], fun c hc => absurd hc List.not_mem_nil, fun _ => hnil, ?_⟩
      rw [hform, trim_append_right hw', hnil, List.append_nil, trim_append_right hw, hbody]
      exact (List.append_nil _).symm
    · refine ⟨' ' :: w, hw, fun h => absurd h (List.cons_ne_nil _ _), ?_⟩
      obtain ⟨d, hd⟩ := Option.isSome_iff_exists.mp (List.getLast?_isSome.mpr hnil)
      obtain ⟨z, hz⟩ := List.getLast?_eq_some_iff.mp hd
      have hend : k.body ++ (' ' :: w ++ trim k.comment) = k.body ++ (' ' :: w ++ z) ++ [d] := by
        rw [hz]
        simp only [List.append_assoc]
      rw [hform, trim_append_right hw']
      exact trim_of_ends hspace (getLast?_trim hd) (by rw [ha]; rfl) hend

/-- The words of a line: those before the comment, and the comment's. -/
theorem words_text (k : KeyLine) :
    splitOptionsAware (trim k.text) = k.front ++ splitOptionsAware (trim k.comment) := by
  obtain ⟨w, hw, hnil, htrim⟩ := trim_text k
  have hfront : k.front = k.front.dropLast ++ [k.blob] := by
    unfold KeyLine.front
    split
    · rfl
    · rfl
  have hblob : splitFrom k.blob false false (w ++ trim k.comment) =
      [k.blob] ++ splitFrom [] false false (trim k.comment) := by
    cases w with
    | nil =>
      rw [hnil rfl, List.append_nil, splitFrom, if_neg k.blobWord.1]
      rfl
    | cons c w =>
      rw [List.cons_append, splitFrom_blank (hw c List.mem_cons_self), if_neg k.blobWord.1,
        splitFrom_blanks fun d hd => hw d (List.mem_cons_of_mem c hd)]
      rfl
  rw [htrim, splitOptionsAware, splitFrom_body, hblob, ← List.append_assoc, ← hfront]
  rfl

/-! ### What is parsed of it -/

theorem startsKey_optionsText (h : k.options = o :: os) : startsKey k.optionsText = startsKey o.name := by
  have hstarts (p : List Char) (hp : p ∈ keyTypes) : p <+: k.optionsText ↔ p <+: o.name := by
    have hsep : ∀ p ∈ keyTypes, ',' ∉ p ∧ '=' ∉ p := by decide
    obtain ⟨hcomma, hequals⟩ := hsep p hp
    have htext : k.optionsText = o.text ++ tailText os := by
      rw [KeyLine.optionsText, h]
      exact intercalate_text o os
    rw [htext, Opt.text]
    cases o.value with
    | none =>
      cases os with
      | nil => rw [tailText, List.flatMap_nil, List.append_nil]
      | cons o' os => rw [tailText_cons, List.cons_append, prefix_append_cons_iff hcomma]
    | some v =>
      dsimp only
      rw [List.append_assoc, List.append_assoc, List.cons_append, prefix_append_cons_iff hequals]
  rw [startsKey, startsKey, Bool.eq_iff_iff, List.any_eq_true, List.any_eq_true]
  simp only [List.isPrefixOf_iff_prefix]
  constructor
  · rintro ⟨p, hp, hpre⟩
    exact ⟨p, hp, (hstarts p hp).mp hpre⟩
  · rintro ⟨p, hp, hpre⟩
    exact ⟨p, hp, (hstarts p hp).mpr hpre⟩

theorem keyOf_append (before words : List (List Char)) {kind : List Char} (hbefore : ∀ t ∈ before, startsKey t = false)
    (hkind : startsKey kind = true) : keyOf (before ++ kind :: words) =
      some ⟨kind, shownComment (unwords words.tail), unwords before, forcedCommand (unwords before)⟩ := by
  have hskip : ∀ t ∈ before, (!startsKey t) = true := by
    intro t ht
    rw [hbefore t ht]
    rfl
  have hstop : ¬ (!startsKey kind) = true := by
    rw [hkind]
    decide
  have hdrop : (before ++ kind :: words).dropWhile (fun t => !startsKey t) = kind :: words := by
    rw [List.dropWhile_append_of_pos hskip, List.dropWhile_cons, if_neg hstop]
  have htake : (before ++ kind :: words).takeWhile (fun t => !startsKey t) = before := by
    rw [List.takeWhile_append_of_pos hskip, List.takeWhile_cons, if_neg hstop, List.append_nil]
  rw [keyOf, hdrop, htake]

theorem parseKey_words (k : KeyLine) :
    parseKey k.text = keyOf (k.front ++ splitOptionsAware (trim k.comment)) := by
  obtain ⟨a, x, ha, -, hhash⟩ := body_head k
  obtain ⟨w, -, -, htrim⟩ := trim_text k
  have hkept : ¬ (trim k.text = [] ∨ (trim k.text).head? = some '#') := by
    rw [htrim, ha]
    rintro (hnil | hhead)
    · exact List.cons_ne_nil _ _ hnil
    · exact hhash (Option.some.inj hhead)
  rw [parseKey, if_neg hkept, words_text]

/-- The key of a line whose options are told from its type -/
theorem parseKey_named (h : ∀ o ∈ k.options.head?, startsKey o.name = false) : parseKey k.text =
    some ⟨k.kind, shownComment (unwords (splitOptionsAware (trim k.comment))), k.optionsText, heard k.options⟩ := by
  have hforced : forcedCommand k.optionsText = heard k.options := forced_options k.options
  rw [parseKey_words, KeyLine.front, ← hforced]
  cases hoptions : k.options with
  | nil =>
    have htext : k.optionsText = [] := by
      rw [KeyLine.optionsText, hoptions]
      rfl
    rw [if_pos rfl, htext]
    exact keyOf_append [] _ (fun t ht => absurd ht List.not_mem_nil) k.kindStarts
  | cons o os =>
    have hname : ∀ t ∈ [k.optionsText], startsKey t = false := by
      intro t ht
      obtain rfl := List.mem_singleton.mp ht
      rw [startsKey_optionsText hoptions]
      exact h o (by rw [hoptions]; rfl)
    have hone : unwords [k.optionsText] = k.optionsText := List.intercalate_singleton
    have hkey := keyOf_append _ (k.blob :: splitOptionsAware (trim k.comment)) hname k.kindStarts
    rw [hone] at hkey
    exact hkey

/-- Options that start as a key type does are taken for it. -/
theorem parseKey_misnamed (hoptions : k.options = o :: os) (h : startsKey o.name = true) :
    ∃ key, parseKey k.text = some key ∧ key.options = [] := by
  have hname : startsKey k.optionsText = true := by
    rw [startsKey_optionsText hoptions]
    exact h
  have hne : k.options ≠ [] := by
    rw [hoptions]
    exact List.cons_ne_nil _ _
  have hkey := keyOf_append [] (k.kind :: k.blob :: splitOptionsAware (trim k.comment))
    (fun t ht => absurd ht List.not_mem_nil) hname
  rw [parseKey_words, KeyLine.front, if_neg hne]
  exact ⟨_, hkey, rfl⟩

theorem exists_parseKey (k : KeyLine) : ∃ key, parseKey k.text = some key ∧ (Recovers k key ↔ k.Plain) := by
  -- a first option that starts like a key type is read as the key
  by_cases hnamed : ∀ o ∈ k.options.head?, startsKey o.name = false
  · refine ⟨_, parseKey_named hnamed, ?_⟩
    constructor
    · intro h
      exact ⟨hnamed, (shown_comment_iff _).mp h.comment, (commandFirst_iff _).mpr h.command⟩
    · intro h
      exact ⟨rfl, rfl, (shown_comment_iff _).mpr h.spaced, (commandFirst_iff _).mp h.command⟩
  · push Not at hnamed
    obtain ⟨o, ho, hstarts⟩ := hnamed
    obtain ⟨os, hoptions⟩ : ∃ os, k.options = o :: os := by
      cases hk : k.options with
      | nil =>
        rw [hk] at ho
        cases ho
      | cons o' os =>
        rw [hk] at ho
        obtain rfl := Option.some.inj ho
        exact ⟨os, rfl⟩
    obtain ⟨key, hkey, hnone⟩ := parseKey_misnamed hoptions (by simpa using hstarts)
    refine ⟨key, hkey, ?_⟩
    constructor
    · intro h
      have hne : k.options ≠ [] := by
        rw [hoptions]
        exact List.cons_ne_nil _ _
      rw [h.options] at hnone
      exact absurd hnone (optionsText_ne_nil hne)
    · intro h
      rw [h.named o ho] at hstarts
      exact absurd rfl hstarts

/-! ### Other lines -/

theorem startsKey_of_prefix (h : t <+: s) (hs : startsKey s = false) : startsKey t = false := by
  rw [startsKey, List.any_eq_false] at hs ⊢
  intro p hp hpre
  exact hs p hp (List.isPrefixOf_iff_prefix.mpr ((List.isPrefixOf_iff_prefix.mp hpre).trans h))

/-- No word of a text starts as a key type if nothing in the text does. -/
theorem split_noKey (hcur : startsKey (cur ++ s) = false)
    (hs : ∀ pre c post, s = pre ++ c :: post → isWhitespace c = true → startsKey post = false) :
    ∀ t ∈ splitFrom cur quoted escaped s, startsKey t = false := by
  induction s generalizing cur quoted escaped with
  | nil =>
    intro t ht
    rw [List.append_nil] at hcur
    rw [splitFrom] at ht
    split at ht
    · cases ht
    · obtain rfl := List.mem_singleton.mp ht
      exact hcur
  | cons c s ih =>
    have htail : ∀ pre d post, s = pre ++ d :: post → isWhitespace d = true → startsKey post = false :=
      fun pre d post heq => hs (c :: pre) d post (by rw [heq]; rfl)
    -- the current word grows by a character
    have hmore (quoted escaped : Bool) : ∀ t ∈ splitFrom (cur ++ [c]) quoted escaped s, startsKey t = false := by
      apply ih _ htail
      rw [List.append_assoc, List.singleton_append]
      exact hcur
    -- a word ends at a blank, and none after a blank starts as a key type
    have hnext (hc : isWhitespace c = true) : ∀ t ∈ splitFrom [] quoted false s, startsKey t = false :=
      ih (hs [] c s rfl hc) htail
    rw [splitFrom]
    split_ifs with _ _ _ hblank
    · exact hmore _ _
    · exact hmore _ _
    · exact hmore _ _
    · exact hnext hblank.1
    · intro t ht
      rcases List.mem_cons.mp ht with rfl | ht
      · exact startsKey_of_prefix (List.prefix_append t (c :: s)) hcur
      · exact hnext hblank.1 t ht
    · exact hmore _ _

theorem parseKey_noKey (h : NoKey s) : parseKey s = none := by
  obtain ⟨w, w', hw, hw', hparts⟩ := exists_trim s
  obtain ⟨hstart, hlater⟩ := h
  -- the trimmed text starts where the text does or after a blank
  have hhead : startsKey (trim s) = false := by
    cases w using List.reverseRecOn with
    | nil =>
      rw [List.nil_append] at hparts
      rw [hparts] at hstart
      exact startsKey_of_prefix (List.prefix_append _ w') hstart
    | append_singleton pre c =>
      have hrest := hlater pre c (trim s ++ w') (by
        conv_lhs => rw [hparts]
        simp only [List.append_assoc, List.cons_append, List.nil_append])
        (hw c (List.mem_append_right _ List.mem_cons_self))
      exact startsKey_of_prefix (List.prefix_append _ w') hrest
  have hinner : ∀ pre c post, trim s = pre ++ c :: post → isWhitespace c = true → startsKey post = false := by
    intro pre c post heq hc
    have hrest := hlater (w ++ pre) c (post ++ w') (by
      conv_lhs => rw [hparts, heq]
      simp only [List.append_assoc, List.cons_append]) hc
    exact startsKey_of_prefix (List.prefix_append post w') hrest
  have hwords : keyOf (splitOptionsAware (trim s)) = none := by
    -- no word can be the type
    have hdrop : (splitOptionsAware (trim s)).dropWhile (fun t => !startsKey t) = [] := by
      apply List.dropWhile_eq_nil_iff.mpr
      intro t ht
      rw [split_noKey hhead hinner t ht]
      rfl
    rw [keyOf, hdrop]
  rw [parseKey, hwords, ite_self]

theorem parseKey_other {text : List Char} (h : trim text = [] ∨ (trim text).head? = some '#' ∨ NoKey text) :
    parseKey text = none := by
  rcases h with hnil | hhash | hnokey
  · exact if_pos (Or.inl hnil)
  · exact if_pos (Or.inr hhash)
  · exact parseKey_noKey hnokey

/-! ### The whole text -/

/-- No line break -/
def OneLine (s : List Char) : Prop := '\n' ∉ s ∧ '\r' ∉ s

theorem OneLine.append (hs : OneLine s) (ht : OneLine t) : OneLine (s ++ t) := by
  constructor
  · rw [List.mem_append, not_or]
    exact ⟨hs.1, ht.1⟩
  · rw [List.mem_append, not_or]
    exact ⟨hs.2, ht.2⟩

theorem OneLine.cons (hs : OneLine s) (hc : c ≠ '\n' ∧ c ≠ '\r') : OneLine (c :: s) := by
  constructor
  · rw [List.mem_cons, not_or]
    exact ⟨hc.1.symm, hs.1⟩
  · rw [List.mem_cons, not_or]
    exact ⟨hc.2.symm, hs.2⟩

theorem oneLine_nil : OneLine [] := ⟨List.not_mem_nil, List.not_mem_nil⟩

theorem oneLine_of_not_whitespace (h : ∀ c ∈ s, isWhitespace c = false) : OneLine s := by
  constructor
  · intro hmem
    exact absurd (h _ hmem) (by decide)
  · intro hmem
    exact absurd (h _ hmem) (by decide)

theorem oneLine_of_notMem (h : ∀ c ∈ s, c ∉ ['\n', '\r']) : OneLine s :=
  ⟨fun hmem => h _ hmem (by decide), fun hmem => h _ hmem (by decide)⟩

theorem oneLine_escape (hv : OneLine v) : OneLine (escape v) := by
  induction v with
  | nil => exact oneLine_nil
  | cons c v ih =>
    rw [escape_cons]
    have htail := ih ⟨fun h => hv.1 (List.mem_cons_of_mem c h), fun h => hv.2 (List.mem_cons_of_mem c h)⟩
    apply OneLine.append _ htail
    split
    · constructor
      · decide
      · decide
    · apply oneLine_nil.cons
      exact ⟨fun heq => hv.1 (heq ▸ List.mem_cons_self), fun heq => hv.2 (heq ▸ List.mem_cons_self)⟩

theorem oneLine_option (o : Opt) : OneLine o.text := by
  have hname : OneLine o.name := oneLine_of_not_whitespace fun c hc => (o.named.2 c hc).1
  rw [Opt.text]
  cases hvalue : o.value with
  | none => exact hname
  | some v =>
    have hv : OneLine v := by
      constructor
      · intro hmem
        exact o.valued v hvalue _ hmem (by decide)
      · intro hmem
        exact o.valued v hvalue _ hmem (by decide)
    apply OneLine.append _ (oneLine_nil.cons (by decide))
    exact hname.append (((oneLine_escape hv).cons (by decide)).cons (by decide))

theorem oneLine_tailText (os : List Opt) : OneLine (tailText os) := by
  induction os with
  | nil => exact oneLine_nil
  | cons o os ih =>
    rw [tailText_cons]
    exact ((oneLine_option o).cons (by decide)).append ih

theorem oneLine_key (k : KeyLine) : OneLine k.text := by
  have hkind : OneLine k.kind := oneLine_of_not_whitespace fun c hc => (k.kindWord.2 c hc).1
  have hblob : OneLine k.blob := oneLine_of_not_whitespace fun c hc => (k.blobWord.2 c hc).1
  have hcomment : OneLine k.comment := oneLine_of_notMem k.commentLine
  have hoptions : OneLine (if k.options = [] then [] else k.optionsText ++ [' ']) := by
    by_cases hnone : k.options = []
    · rw [if_pos hnone]
      exact oneLine_nil
    · obtain ⟨o, os, -, htext⟩ := optionsText_eq hnone
      rw [if_neg hnone, htext]
      exact ((oneLine_option o).append (oneLine_tailText os)).append (oneLine_nil.cons (by decide))
  have hend : OneLine (if k.comment = [] then [] else ' ' :: k.comment) := by
    split
    · exact oneLine_nil
    · exact hcomment.cons (by decide)
  exact ((hoptions.append hkind).append (hblob.cons (by decide))).append hend

theorem Item.oneLine (i : Item) : OneLine i.text := by
  cases i with
  | key k => exact oneLine_key k
  | other text h hline => exact oneLine_of_notMem hline

theorem parseKeys_fileText (items : List Item) : parseKeys (fileText items) =
    ((items.take maxLines).filterMap Item.key?).filterMap fun k => parseKey k.text := by
  have hlines : lines (fileText items) = items.map Item.text := by
    apply lines_unlines
    intro l hl
    obtain ⟨i, -, rfl⟩ := List.mem_map.mp hl
    exact i.oneLine
  have hone : ∀ i : Item, parseKey i.text = i.key?.bind fun k => parseKey k.text := by
    intro i
    cases i with
    | key k => rfl
    | other text h hline => exact parseKey_other h
  rw [parseKeys, hlines, ← List.map_take, List.filterMap_map, List.filterMap_filterMap]
  exact List.filterMap_congr fun i _ => hone i

/-- The keys of the first lines match all keys when these are all, and each matches its own. -/
theorem forall₂_filterMap_iff {α β : Type*} {R : α → β → Prop} {f : α → Option β} {Q : α → Prop} {l l' : List α}
    (hpre : l' <+: l) (hf : ∀ a, ∃ b, f a = some b ∧ (R a b ↔ Q a)) :
    List.Forall₂ R l (l'.filterMap f) ↔ l' = l ∧ ∀ a ∈ l, Q a := by
  induction l generalizing l' with
  | nil =>
    obtain rfl := List.prefix_nil.mp hpre
    simp
  | cons a l ih =>
    cases l' with
    | nil => simp
    | cons a' l' =>
      obtain ⟨rfl, hrest⟩ := List.cons_prefix_cons.mp hpre
      obtain ⟨b, hb, hiff⟩ := hf a'
      rw [List.filterMap_cons_some hb, List.forall₂_cons, ih hrest, hiff, List.forall_mem_cons, List.cons.injEq]
      tauto

/-- Keys are recovered as they were printed if and only if every key stands in the first 10000 lines and is told apart: its
options do not start as a type does, its comment is single spaced, and the first that looks like its command is. -/
theorem keys_recovered_exactly (items : List Item) : AllRecovered items ↔
    (∀ i ∈ items.drop maxLines, i.key? = none) ∧ ∀ k, Item.key k ∈ items → k.Plain := by
  have hsplit : items.filterMap Item.key? =
      (items.take maxLines).filterMap Item.key? ++ (items.drop maxLines).filterMap Item.key? := by
    rw [← List.filterMap_append, List.take_append_drop]
  have hpre : (items.take maxLines).filterMap Item.key? <+: items.filterMap Item.key? := by
    rw [hsplit]
    exact List.prefix_append _ _
  have hall : (items.take maxLines).filterMap Item.key? = items.filterMap Item.key? ↔
      ∀ i ∈ items.drop maxLines, i.key? = none := by
    rw [hsplit, List.self_eq_append_right, List.filterMap_eq_nil_iff]
  have hkeys : (∀ k ∈ items.filterMap Item.key?, k.Plain) ↔ ∀ k, Item.key k ∈ items → k.Plain := by
    constructor
    · intro h k hk
      exact h k (List.mem_filterMap.mpr ⟨_, hk, rfl⟩)
    · intro h k hk
      obtain ⟨i, hi, hik⟩ := List.mem_filterMap.mp hk
      cases i with
      | key k' =>
        obtain rfl := Option.some.inj hik
        exact h k' hi
      | other text h hline => cases hik
  rw [AllRecovered, parseKeys_fileText, forall₂_filterMap_iff hpre exists_parseKey, hall, hkeys]

/-! ### An option that looks like the command -/

/-- An environment that ends in `command=`, and then the command. -/
def imitatedCommand : KeyLine where
  options :=
    [⟨"environment".toList, some "X=command=".toList, by decide, by decide⟩,
      ⟨"command".toList, some "/usr/bin/backup".toList, by decide, by decide⟩]
  kind := "ssh-rsa".toList
  blob := "AAAA".toList
  comment := "backup".toList
  kindWord := by decide
  kindStarts := by decide
  blobWord := by decide
  commentLine := by decide

/-- The text between the two options is reported as the command. -/
theorem imitated_command_misread :
    (parseKeys (fileText [.key imitatedCommand])).map Key.command = [some ",command=".toList] ∧
    ¬ AllRecovered [.key imitatedCommand] := by
  have hcommand : (parseKeys (fileText [.key imitatedCommand])).map Key.command = [some ",command=".toList] := by
    decide
  refine ⟨hcommand, ?_⟩
  intro h
  obtain ⟨key, hkey, hread⟩ := List.map_eq_singleton_iff.mp hcommand
  rw [AllRecovered, hkey] at h
  obtain ⟨o, ho, hname, hvalue⟩ := ((List.forall₂_cons.mp h).1.command _).mp hread
  have hnone : ∀ o ∈ imitatedCommand.options, o.name = "command".toList → o.value ≠ some ",command=".toList := by
    decide
  exact hnone o ho hname hvalue

end AbyssalWarden.SshKeys
