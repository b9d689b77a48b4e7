import AbyssalWarden.TextFields

/-! The tokenizer that finds the programs of commands: what it makes of a line of words, and where it stops. -/
namespace AbyssalWarden.SystemCheck

/-- Longest text examined at once (one line or command). -/
def maxText : ℕ := 8192

/-! ### The tokenizer -/

structure Tokens where
  out : List (List Char)
  cur : List Char
  quote : Option Char
  started : Bool

namespace Tokens

def start : Tokens := ⟨[], [], none, false⟩

def step (s : Tokens) (c : Char) : Tokens :=
  match s.quote with
  | some q => if c = q then { s with quote := none } else { s with cur := s.cur ++ [c] }
  | none =>
    if c = '\'' ∨ c = '"' then { s with quote := some c, started := true }
    else if isWhitespace c then
      if s.started ∨ s.cur ≠ [] then { s with out := s.out ++ [s.cur], cur := [], started := false } else s
    else { s with cur := s.cur ++ [c] }

/-- The loop, which ends when there are 16 tokens. -/
def run : Tokens → List Char → Tokens
  | s, [] => s
  | s, c :: rest =>
    let s := s.step c
    if s.out.length ≥ 16 then s else run s rest

def finish (s : Tokens) : List (List Char) := if s.started ∨ s.cur ≠ [] then s.out ++ [s.cur] else s.out

end Tokens

/-- Minimal shell-like tokenizer: whitespace separated, with single and double quotes. -/
def shellTokens (s : List Char) : List (List Char) := (Tokens.start.run (s.take maxText)).finish

/-- The tokenizer without its stops: all the words of a text. -/
def shellWords (s : List Char) : List (List Char) := (s.foldl Tokens.step Tokens.start).finish

/-! ### Where it stops -/

variable {s : Tokens} {c q : Char} {t : List Char}

theorem Tokens.step_out (s : Tokens) (c : Char) :
    (s.step c).out = s.out ∨ (s.step c).out = s.out ++ [s.cur] ∧ (s.step c).finish = (s.step c).out := by
  unfold step
  split
  · split
    · exact Or.inl rfl
    · exact Or.inl rfl
  · split
    · exact Or.inl rfl
    · split
      · split
        · exact Or.inr ⟨rfl, by simp [finish]⟩
        · exact Or.inl rfl
      · exact Or.inl rfl

theorem Tokens.out_prefix_finish (s : Tokens) : s.out <+: s.finish := by
  unfold finish
  split
  · exact List.prefix_append s.out [s.cur]
  · exact List.prefix_refl s.out

theorem Tokens.out_prefix_foldl (s : Tokens) (text : List Char) : s.out <+: (text.foldl step s).out := by
  induction text generalizing s with
  | nil => exact List.prefix_refl s.out
  | cons c text ih =>
    have hstep : s.out <+: (s.step c).out := by
      rcases s.step_out c with h | ⟨h, -⟩
      · rw [h]
      · rw [h]
        exact List.prefix_append s.out [s.cur]
    exact hstep.trans (ih (s.step c))

theorem Tokens.length_finish (s : Tokens) : s.finish.length ≤ s.out.length + 1 := by
  unfold finish
  split
  · rw [List.length_append, List.length_singleton]
  · exact Nat.le_succ _

/-- The loop gives the first 16 words. Up to there it makes the steps of the tokenizer without stops; when the
sixteenth is complete, none has been started. -/
theorem Tokens.run_take (h : s.out.length < 16) : (s.run t).finish = (t.foldl step s).finish.take 16 := by
  induction t generalizing s with
  | nil =>
    have hlen := s.length_finish
    exact (List.take_of_length_le (by omega : s.finish.length ≤ 16)).symm
  | cons c t ih =>
    rw [run, List.foldl_cons]
    split
    · rename_i hfull
      rcases s.step_out c with hsame | ⟨hout, hfinish⟩
      · rw [hsame] at hfull
        omega
      · have hlen : (s.step c).out.length = 16 := by
          rw [hout, List.length_append, List.length_singleton] at hfull ⊢
          omega
        have hprefix : (s.step c).out <+: (t.foldl step (s.step c)).finish :=
          (out_prefix_foldl (s.step c) t).trans (out_prefix_finish _)
        rw [hfinish, ← hlen]
        exact (List.prefix_iff_eq_take.mp hprefix)
    · rename_i hless
      exact ih (Nat.lt_of_not_le hless)

theorem shellTokens_eq (text : List Char) : shellTokens text = (shellWords (text.take maxText)).take 16 :=
  Tokens.run_take (by decide)

/-! ### Lines of words -/

/-- A part of a word: plain text, or text in quotes. -/
inductive Piece where
  | bare (text : List Char) (h : ∀ c ∈ text, isWhitespace c = false ∧ c ≠ '\'' ∧ c ≠ '"')
  | quoted (q : Char) (text : List Char) (quote : q = '\'' ∨ q = '"') (h : q ∉ text)

def Piece.text : Piece → List Char
  | bare text _ => text
  | quoted _ text _ _ => text

def Piece.print : Piece → List Char
  | bare text _ => text
  | quoted q text _ _ => q :: (text ++ [q])

/-- A word, with the blanks after it; it has some text, or quotes. -/
structure Word where
  pieces : List Piece
  gap : List Char
  visible : ∃ p ∈ pieces, p.print ≠ []
  blank : Blank gap

namespace Word

def value (word : Word) : List Char := word.pieces.flatMap Piece.text

def print (word : Word) : List Char := word.pieces.flatMap Piece.print ++ word.gap

end Word

/-- A line of words: blanks stand between them. -/
structure WordLine where
  lead : List Char
  words : List Word
  blankLead : Blank lead
  separated : ∀ word ∈ words.dropLast, word.gap ≠ []

namespace WordLine

def text (line : WordLine) : List Char := line.lead ++ line.words.flatMap Word.print

def values (line : WordLine) : List (List Char) := line.words.map Word.value

end WordLine

theorem foldl_step_bare (hq : s.quote = none) (h : ∀ c ∈ t, isWhitespace c = false ∧ c ≠ '\'' ∧ c ≠ '"') :
    t.foldl Tokens.step s = { s with cur := s.cur ++ t } := by
  induction t generalizing s with
  | nil => rw [List.append_nil]; rfl
  | cons c t ih =>
    have hc := h c List.mem_cons_self
    have hstep : s.step c = { s with cur := s.cur ++ [c] } := by
      simp [Tokens.step, hq, hc.1, hc.2.1, hc.2.2]
    rw [List.foldl_cons, hstep, ih (by exact hq) fun d hd => h d (List.mem_cons_of_mem c hd)]
    simp

theorem foldl_step_inside (hq : s.quote = some q) (h : q ∉ t) :
    t.foldl Tokens.step s = { s with cur := s.cur ++ t } := by
  induction t generalizing s with
  | nil => rw [List.append_nil]; rfl
  | cons c t ih =>
    have hc : c ≠ q := fun heq => h (heq ▸ List.mem_cons_self)
    have hstep : s.step c = { s with cur := s.cur ++ [c] } := by
      simp [Tokens.step, hq, hc]
    rw [List.foldl_cons, hstep, ih (by exact hq) fun hmem => h (List.mem_cons_of_mem c hmem)]
    simp

/-- The tokenizer with a word begun. -/
def Tokens.within (out : List (List Char)) (cur : List Char) (started : Bool) : Tokens := ⟨out, cur, none, started⟩

variable {out : List (List Char)} {cur gap : List Char} {started : Bool}

theorem foldl_step_piece (p : Piece) : ∃ started', p.print.foldl Tokens.step (.within out cur started) =
      .within out (cur ++ p.text) started' ∧
    (started = true → started' = true) ∧ (p.print ≠ [] → started' = true ∨ p.text ≠ []) := by
  cases p with
  | bare text h =>
    refine ⟨started, ?_, fun hs => hs, fun hne => Or.inr hne⟩
    rw [Piece.print, foldl_step_bare rfl h]
    rfl
  | quoted q text hquote h =>
    refine ⟨true, ?_, fun _ => rfl, fun _ => Or.inl rfl⟩
    have hopen : (Tokens.within out cur started).step q = ⟨out, cur, some q, true⟩ := by
      simp [Tokens.step, Tokens.within, hquote]
    have hclose : Tokens.step ⟨out, cur ++ text, some q, true⟩ q = .within out (cur ++ text) true := by
      simp [Tokens.step, Tokens.within]
    rw [Piece.print, List.foldl_cons, hopen, List.foldl_append, foldl_step_inside rfl h, List.foldl_cons,
      List.foldl_nil, hclose]
    rfl

theorem foldl_step_pieces (out : List (List Char)) (cur : List Char) (started : Bool) (pieces : List Piece) :
    ∃ started',
      (pieces.flatMap Piece.print).foldl Tokens.step (.within out cur started) =
        .within out (cur ++ pieces.flatMap Piece.text) started' ∧
      (started = true → started' = true) ∧
      ((∃ p ∈ pieces, p.print ≠ []) → started' = true ∨ pieces.flatMap Piece.text ≠ []) := by
  induction pieces generalizing cur started with
  | nil =>
    refine ⟨started, by simp, fun h => h, ?_⟩
    rintro ⟨p, hp, -⟩
    cases hp
  | cons p pieces ih =>
    obtain ⟨started₁, hfirst, hkeep₁, hvisible₁⟩ := foldl_step_piece p
    obtain ⟨started₂, hrest, hkeep₂, hvisible₂⟩ := ih (cur ++ p.text) started₁
    refine ⟨started₂, ?_, fun h => hkeep₂ (hkeep₁ h), ?_⟩
    · rw [List.flatMap_cons, List.foldl_append, hfirst, hrest, List.flatMap_cons, List.append_assoc]
    · rintro ⟨p', hp', hne⟩
      rw [List.flatMap_cons, ne_eq, List.append_eq_nil_iff, not_and_or]
      -- a piece that is seen starts the word, and it stays started
      rcases List.mem_cons.mp hp' with heq | hmem
      · rw [heq] at hne
        rcases hvisible₁ hne with h | h
        · exact Or.inl (hkeep₂ h)
        · exact Or.inr (Or.inl h)
      · rcases hvisible₂ ⟨p', hmem, hne⟩ with h | h
        · exact Or.inl h
        · exact Or.inr (Or.inr h)

theorem not_quote_of_blank (h : isWhitespace c = true) : ¬ (c = '\'' ∨ c = '"') := by
  intro hquote
  rcases hquote with heq | heq
  · rw [heq] at h
    revert h
    decide
  · rw [heq] at h
    revert h
    decide

/-- Between words, blanks make no difference. -/
theorem foldl_step_blank (h : Blank gap) : gap.foldl Tokens.step (.within out [] false) = .within out [] false := by
  induction gap with
  | nil => rfl
  | cons c gap ih =>
    have hc := h c List.mem_cons_self
    have hquote := not_quote_of_blank hc
    have hstep : (Tokens.within out [] false).step c = .within out [] false := by
      simp [Tokens.step, Tokens.within, hquote, hc]
    rw [List.foldl_cons, hstep]
    exact ih fun d hd => h d (List.mem_cons_of_mem c hd)

/-- The first blank ends a word. -/
theorem foldl_step_gap (h : Blank gap) (hne : gap ≠ []) (hword : started = true ∨ cur ≠ []) :
    gap.foldl Tokens.step (.within out cur started) = .within (out ++ [cur]) [] false := by
  cases gap with
  | nil => exact absurd rfl hne
  | cons c gap =>
    have hc := h c List.mem_cons_self
    have hquote := not_quote_of_blank hc
    have hstep : (Tokens.within out cur started).step c = .within (out ++ [cur]) [] false := by
      simp [Tokens.step, Tokens.within, hquote, hc, hword]
    rw [List.foldl_cons, hstep]
    exact foldl_step_blank fun d hd => h d (List.mem_cons_of_mem c hd)

theorem words_finish (words : List Word) (hsep : ∀ word ∈ words.dropLast, word.gap ≠ []) :
    ((words.flatMap Word.print).foldl Tokens.step (.within out [] false)).finish = out ++ words.map Word.value := by
  induction words generalizing out with
  | nil => simp [Tokens.within, Tokens.finish]
  | cons word words ih =>
    obtain ⟨started, hword, -, hvisible⟩ := foldl_step_pieces out [] false word.pieces
    rw [List.flatMap_cons, Word.print, List.append_assoc, List.foldl_append, hword, List.nil_append, List.foldl_append]
    have hany := hvisible word.visible
    by_cases hgap : word.gap = []
    · -- only the last word has no blanks after it
      cases words with
      | cons w words => exact absurd hgap (hsep word (by simp))
      | nil =>
        rw [hgap]
        simp only [List.foldl_nil, List.flatMap_nil, List.map_cons, List.map_nil]
        exact if_pos hany
    · rw [foldl_step_gap word.blank hgap hany, ih]
      · simp [Word.value]
      · intro w hw
        apply hsep w
        cases words with
        | nil => cases hw
        | cons x words => exact List.mem_cons_of_mem word hw

/-- The words of a line are the words it was printed from. -/
theorem shellWords_text (line : WordLine) : shellWords line.text = line.values := by
  have hlead : line.lead.foldl Tokens.step Tokens.start = .within [] [] false := foldl_step_blank line.blankLead
  rw [shellWords, WordLine.text, List.foldl_append, hlead, words_finish line.words line.separated, List.nil_append]
  rfl

end AbyssalWarden.SystemCheck
