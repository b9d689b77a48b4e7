import AbyssalWarden.WordReduction

/-! Spellings of a path, by its parts between separators: a component that stays in its directory, a separator that is
repeated, and a name that is taken back again say nothing about the place. -/
namespace AbyssalWarden.Spelling

open WordReduction

/-- The component that stays in its directory. -/
def here : List Char := ['.']

/-- The component of the parent directory. -/
def up : List Char := ['.', '.']

/-- A name that a directory can have. -/
def isName (sep : Char) (part : List Char) : Bool := part ≠ [] ∧ part ≠ here ∧ part ≠ up ∧ sep ∉ part

inductive Inserted (sep : Char) (pairs : Bool) : List (List Char) → List (List Char) → Prop
  | dot (pre post : List (List Char)) : Inserted sep pairs (pre ++ post) (pre ++ here :: post)
  | separator (pre post : List (List Char)) (h : post ≠ []) : Inserted sep pairs (pre ++ post) (pre ++ [] :: post)
  | pair (pre post : List (List Char)) (name : List Char) (h : pairs = true) (hname : isName sep name = true) :
    Inserted sep pairs (pre ++ post) (pre ++ name :: up :: post)

/-- Parts that differ by insertions. -/
def Respelled (sep : Char) (pairs : Bool) : List (List Char) → List (List Char) → Prop :=
  Relation.EqvGen (Inserted sep pairs)

/-- The part says nothing. -/
def isIdle (part : List Char) : Bool := part = [] ∨ part = here

def rules (sep : Char) (pairs : Bool) : Rules (List Char) where
  skip := isIdle
  up := up
  name part := pairs && isName sep part
  up_kept := rfl
  name_kept part h := by
    rw [Bool.and_eq_true, isName, decide_eq_true_iff] at h
    obtain ⟨-, hnil, hhere, -⟩ := h
    exact decide_eq_false (not_or.mpr ⟨hnil, hhere⟩)
  name_ne_up part h := by
    rw [Bool.and_eq_true, isName, decide_eq_true_iff] at h
    exact h.2.2.2.1

/-- The components of the place; without pairs, a name that is taken back stays. -/
def location (sep : Char) (pairs : Bool) (parts : List (List Char)) : List (List Char) := (rules sep pairs).reduce parts

variable {sep : Char} {pairs : Bool} {xs ys zs : List (List Char)}

theorem Respelled.refl : Respelled sep pairs xs xs := Relation.EqvGen.refl xs

theorem Respelled.symm (h : Respelled sep pairs xs ys) : Respelled sep pairs ys xs := Relation.EqvGen.symm xs ys h

theorem Respelled.trans (h : Respelled sep pairs xs ys) (h' : Respelled sep pairs ys zs) : Respelled sep pairs xs zs :=
  Relation.EqvGen.trans xs ys zs h h'

theorem Inserted.respelled (h : Inserted sep pairs xs ys) : Respelled sep pairs xs ys := Relation.EqvGen.rel xs ys h

/-- An insertion is a step back. -/
theorem Inserted.step (h : Inserted sep pairs xs ys) : (rules sep pairs).Step ys xs := by
  cases h with
  | dot pre post => exact Rules.Step.skip pre post here rfl
  | separator pre post h => exact Rules.Step.skip pre post [] rfl
  | pair pre post name h hname =>
    refine Rules.Step.pair pre post name ?_
    subst h
    exact hname

/-- A separator at the end can be reached too, by a component that stays. -/
theorem respelled_separator (pre post : List (List Char)) : Respelled sep pairs (pre ++ post) (pre ++ [] :: post) := by
  rcases post with _ | ⟨part, post⟩
  · have hhere : Respelled sep pairs (pre ++ []) (pre ++ [here]) := (Inserted.dot pre []).respelled
    have hnil : Respelled sep pairs (pre ++ [here]) (pre ++ [[], here]) :=
      (Inserted.separator pre [here] (List.cons_ne_nil _ _)).respelled
    have hback : Respelled sep pairs (pre ++ [[]] ++ []) (pre ++ [[]] ++ [here]) := (Inserted.dot (pre ++ [[]]) []).respelled
    rw [List.append_nil, List.append_assoc, List.singleton_append] at hback
    exact hhere.trans (hnil.trans hback.symm)
  · exact (Inserted.separator pre (part :: post) (List.cons_ne_nil _ _)).respelled

theorem respelled_of_step (h : (rules sep pairs).Step xs ys) : Respelled sep pairs xs ys := by
  cases h with
  | skip pre post part h =>
    rcases of_decide_eq_true h with rfl | rfl
    · exact (respelled_separator pre post).symm
    · exact (Inserted.dot pre post).respelled.symm
  | pair pre post name h =>
    obtain ⟨hpairs, hname⟩ := (Bool.and_eq_true _ _).mp h
    exact (Inserted.pair pre post name hpairs hname).respelled.symm

theorem respelled_iff_same : Respelled sep pairs xs ys ↔ (rules sep pairs).Same xs ys := by
  constructor
  · intro h
    induction h with
    | rel xs ys h => exact h.step.same.symm
    | refl xs => exact Rules.Same.refl
    | symm xs ys _ ih => exact ih.symm
    | trans xs ys zs _ _ ih ih' => exact ih.trans ih'
  · intro h
    induction h with
    | rel xs ys h => exact respelled_of_step h
    | refl xs => exact Respelled.refl
    | symm xs ys _ ih => exact ih.symm
    | trans xs ys zs _ _ ih ih' => exact ih.trans ih'

/-- Two spellings are of one place exactly when they have one location. -/
theorem respelled_iff : Respelled sep pairs xs ys ↔ location sep pairs xs = location sep pairs ys :=
  respelled_iff_same.trans Rules.same_iff_reduce_eq

theorem respelled_location : Respelled sep pairs xs (location sep pairs xs) := respelled_iff_same.mpr Rules.same_reduce

theorem location_sublist : (location sep pairs xs).Sublist xs := Rules.reduce_sublist

theorem location_kept : ∀ part ∈ location sep pairs xs, isIdle part = false := Rules.reduce_kept

/-- Without pairs the location is what is left without the parts that say nothing. -/
theorem location_false : location sep false xs = xs.filter (!isIdle ·) := Rules.reduce_eq_filter fun _ => rfl

theorem Respelled.of_plain (h : Respelled sep false xs ys) : Respelled sep pairs xs ys := by
  induction h with
  | rel xs ys h =>
    cases h with
    | dot pre post => exact (Inserted.dot pre post).respelled
    | separator pre post h => exact (Inserted.separator pre post h).respelled
    | pair pre post name h => cases h
  | refl xs => exact Respelled.refl
  | symm xs ys _ ih => exact ih.symm
  | trans xs ys zs _ _ ih ih' => exact ih.trans ih'

theorem respelled_of_filter (h : xs.filter (!isIdle ·) = ys.filter (!isIdle ·)) : Respelled sep pairs xs ys := by
  apply Respelled.of_plain
  rw [respelled_iff, location_false, location_false, h]

/-- What is left of a part of the spelling is left of all of it. -/
theorem mem_filter_of_location {part : List Char} (h : part ∈ location sep pairs xs) : part ∈ xs.filter (!isIdle ·) := by
  have hkept := location_kept part h
  exact List.mem_filter.mpr ⟨location_sublist.subset h, by rw [hkept]; rfl⟩

/-! ### Texts -/

section

variable {p : List Char} {names : List (List Char)}

theorem not_mem_of_mem_splitOn : ∀ part ∈ p.splitOn sep, sep ∉ part := by
  induction p with
  | nil =>
    rw [List.splitOn_nil]
    exact List.forall_mem_singleton.mpr List.not_mem_nil
  | cons c p ih =>
    rw [List.splitOn_cons_eq_if_modifyHead]
    split
    · exact List.forall_mem_cons.mpr ⟨List.not_mem_nil, ih⟩
    case isFalse hc =>
      rcases hsplit : p.splitOn sep with _ | ⟨part, parts⟩
      · exact absurd hsplit (List.splitOn_ne_nil sep p)
      · rw [hsplit] at ih
        obtain ⟨hpart, hparts⟩ := List.forall_mem_cons.mp ih
        refine List.forall_mem_cons.mpr ⟨?_, hparts⟩
        rw [List.mem_cons, not_or]
        exact ⟨fun h => hc (by rw [h]; exact beq_self_eq_true c), hpart⟩

/-- A text of given parts. -/
theorem exists_splitOn (hxs : xs ≠ []) (hsep : ∀ part ∈ xs, sep ∉ part) : ∃ q : List Char, q.splitOn sep = xs :=
  ⟨[sep].intercalate xs, List.splitOn_intercalate sep hsep hxs⟩

theorem splitOn_flatMap (hnames : ∀ n ∈ names, sep ∉ n) :
    (names.flatMap (· ++ [sep]) ++ p).splitOn sep = names ++ p.splitOn sep := by
  induction names with
  | nil => rfl
  | cons n names ih =>
    obtain ⟨hn, hnames⟩ := List.forall_mem_cons.mp hnames
    rw [List.flatMap_cons, List.append_assoc, List.append_assoc, List.singleton_append,
      List.splitOn_append_cons_self_of_not_mem hn, ih hnames, List.cons_append]

theorem intercalate_append (hys : ys ≠ []) :
    [sep].intercalate (names ++ ys) = names.flatMap (· ++ [sep]) ++ [sep].intercalate ys := by
  induction names with
  | nil => rfl
  | cons n names ih =>
    rw [List.cons_append, List.intercalate_cons_of_ne_nil (List.append_ne_nil_of_right_ne_nil names hys), ih,
      List.flatMap_cons, List.append_assoc, List.append_assoc, List.append_assoc]

/-- A text starts with names, each with a separator after it, exactly when its parts are the names and something more. -/
theorem isPrefix_iff (hnames : ∀ n ∈ names, sep ∉ n) :
    names.flatMap (· ++ [sep]) <+: p ↔ ∃ rest, rest ≠ [] ∧ p.splitOn sep = names ++ rest := by
  constructor
  · rintro ⟨t, rfl⟩
    exact ⟨t.splitOn sep, List.splitOn_ne_nil sep t, splitOn_flatMap hnames⟩
  · rintro ⟨rest, hrest, hsplit⟩
    refine ⟨[sep].intercalate rest, ?_⟩
    rw [← intercalate_append hrest, ← hsplit, List.intercalate_splitOn]

/-- A text holds names, with a separator before each and after the last, exactly when they stand side by side among its
parts, with a part before them and a part after them. -/
theorem isInfix_iff (hnames : ∀ n ∈ names, sep ∉ n) : sep :: names.flatMap (· ++ [sep]) <:+: p ↔
    ∃ pre post, pre ≠ [] ∧ post ≠ [] ∧ p.splitOn sep = pre ++ (names ++ post) := by
  constructor
  · rintro ⟨s, t, rfl⟩
    refine ⟨s.splitOn sep, t.splitOn sep, List.splitOn_ne_nil sep s, List.splitOn_ne_nil sep t, ?_⟩
    rw [List.append_assoc, List.cons_append, List.splitOn_append_cons_self, splitOn_flatMap hnames]
  · rintro ⟨pre, post, hpre, hpost, hsplit⟩
    obtain ⟨pre, part, rfl⟩ := (List.eq_nil_or_concat pre).resolve_left hpre
    refine ⟨pre.flatMap (· ++ [sep]) ++ part, [sep].intercalate post, ?_⟩
    have htext : p = [sep].intercalate (pre ++ [part] ++ (names ++ post)) := by
      rw [← List.concat_eq_append, ← hsplit, List.intercalate_splitOn]
    rw [htext, intercalate_append (List.append_ne_nil_of_right_ne_nil names hpost), intercalate_append hpost,
      List.flatMap_append, List.flatMap_singleton]
    simp only [List.append_assoc, List.cons_append, List.nil_append]

theorem isPrefix_head_splitOn {w : List Char} (hw : sep ∉ w) (h : w <+: p) : ∃ part rest, p.splitOn sep = part :: rest ∧ w <+: part := by
  induction w generalizing p with
  | nil =>
    obtain ⟨part, rest, hsplit⟩ := List.exists_cons_of_ne_nil (List.splitOn_ne_nil sep p)
    exact ⟨part, rest, hsplit, List.nil_prefix⟩
  | cons c w ih =>
    obtain ⟨t, rfl⟩ := h
    rw [List.mem_cons, not_or] at hw
    obtain ⟨part, rest, hsplit, hbelow⟩ := ih (p := w ++ t) hw.2 ⟨t, rfl⟩
    refine ⟨c :: part, rest, ?_, List.cons_prefix_cons.mpr ⟨rfl, hbelow⟩⟩
    rw [List.cons_append, List.splitOn_cons_eq_if_modifyHead, if_neg (by simpa using Ne.symm hw.1), hsplit]
    rfl

/-- A text holds a word without separators exactly when one of its parts does. -/
theorem isInfix_word_iff {w : List Char} (hw : sep ∉ w) : w <:+: p ↔ ∃ part ∈ p.splitOn sep, w <:+: part := by
  -- along the text; what is cut off first is the part that the next character belongs to
  induction p with
  | nil => simp [List.splitOn_nil]
  | cons c p ih =>
    rw [List.infix_cons_iff, ih]
    obtain ⟨part, rest, hsplit⟩ := List.exists_cons_of_ne_nil (List.splitOn_ne_nil sep p)
    rw [List.splitOn_cons_eq_if_modifyHead]
    split
    case isTrue hc =>
      -- a separator ends a part, and the word has none
      constructor
      · rintro (hbelow | ⟨part, hpart, hinfix⟩)
        · cases w with
          | nil => exact ⟨[], List.mem_cons_self, List.infix_refl []⟩
          | cons d w =>
            have hd := (List.cons_prefix_cons.mp hbelow).1
            rw [beq_iff_eq] at hc
            exact absurd (by rw [hd, hc]; exact List.mem_cons_self) hw
        · exact ⟨part, List.mem_cons_of_mem _ hpart, hinfix⟩
      · rintro ⟨part, hpart, hinfix⟩
        rcases List.mem_cons.mp hpart with rfl | hpart
        · left
          rw [List.infix_nil.mp hinfix]
          exact List.nil_prefix
        · exact Or.inr ⟨part, hpart, hinfix⟩
    case isFalse hc =>
      rw [hsplit, List.modifyHead_cons]
      -- the character goes before the first part
      constructor
      · rintro (hbelow | ⟨other, hother, hinfix⟩)
        · cases w with
          | nil => exact ⟨c :: part, List.mem_cons_self, List.nil_infix⟩
          | cons d w =>
            obtain ⟨rfl, htail⟩ := List.cons_prefix_cons.mp hbelow
            obtain ⟨part', rest', hsplit', hbelow'⟩ := isPrefix_head_splitOn (not_or.mp (List.mem_cons.not.mp hw)).2 htail
            rw [hsplit] at hsplit'
            obtain ⟨rfl, -⟩ := List.cons.inj hsplit'
            exact ⟨d :: part, List.mem_cons_self, (List.cons_prefix_cons.mpr ⟨rfl, hbelow'⟩).isInfix⟩
        · rcases List.mem_cons.mp hother with rfl | hother
          · exact ⟨c :: other, List.mem_cons_self, List.infix_cons hinfix⟩
          · exact ⟨other, List.mem_cons_of_mem _ hother, hinfix⟩
      · rintro ⟨other, hother, hinfix⟩
        rcases List.mem_cons.mp hother with rfl | hother
        · rcases List.infix_cons_iff.mp hinfix with hbelow | hinfix
          · left
            have htext : p = [sep].intercalate (part :: rest) := by rw [← hsplit, List.intercalate_splitOn]
            have hpart : part <+: p := by
              rw [htext]
              cases rest with
              | nil => simpa only [List.intercalate_singleton] using List.prefix_refl part
              | cons next rest =>
                rw [List.intercalate_cons_cons, List.append_assoc]
                exact List.prefix_append _ _
            exact hbelow.trans (List.cons_prefix_cons.mpr ⟨rfl, hpart⟩)
          · exact Or.inr ⟨part, List.mem_cons_self, hinfix⟩
        · exact Or.inr ⟨other, List.mem_cons_of_mem _ hother, hinfix⟩

end

end AbyssalWarden.Spelling
