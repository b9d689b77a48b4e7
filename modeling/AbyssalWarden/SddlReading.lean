import AbyssalWarden.SddlText

/-! What is read of a printed security descriptor: every part as it was printed, but `IO` wherever the letters of the
flags form it, and no owner or group whose authority is printed in hexadecimal. -/
namespace AbyssalWarden

namespace Sddl

variable {s t rest : List Char} {c : Char} {n : ℕ} {p : Principal} {ace : AceText} {flags : List AceFlag}

/-! ### Plain text -/

theorem PlainText.append (hs : PlainText s) (ht : PlainText t) : PlainText (s ++ t) := by
  intro c hc
  rcases List.mem_append.mp hc with hc | hc
  · exact hs c hc
  · exact ht c hc

theorem PlainText.flatMap {α : Type} {f : α → List Char} {as : List α} (h : ∀ a ∈ as, PlainText (f a)) :
    PlainText (as.flatMap f) := by
  intro c hc
  obtain ⟨a, ha, hc⟩ := List.mem_flatMap.mp hc
  exact h a ha c hc

theorem plainText_of_isDigit (h : ∀ c ∈ s, c.isDigit = true) : PlainText s := by
  intro c hc
  left
  rw [Char.isAlphanum, h c hc, Bool.or_true]

theorem plainText_toDigits : PlainText (Nat.toDigits 10 n) := plainText_of_isDigit fun _ hc => toDigits_isDigit hc

theorem plainText_hexDigits : PlainText (Nat.toDigits 16 n) := by
  intro c hc
  obtain ⟨i, hi, rfl⟩ := toDigits_hexDigit hc
  have hall : ∀ i : Fin 16, (Nat.digitChar i.val).isAlphanum = true := by decide
  exact Or.inl (hall ⟨i, hi⟩)

/-- Plain text holds no separator. -/
theorem PlainText.notMem (h : PlainText s) (hc : ¬ (c.isAlphanum = true ∨ c = '-')) : c ∉ s := fun hmem => hc (h c hmem)

theorem isWhitespace_of_plain (h : c.isAlphanum = true ∨ c = '-') : isWhitespace c = false := by
  rcases h with h | rfl
  · exact alphanum_not_whitespace (Or.inl h)
  · decide

theorem plainText_subs {subs : List ℕ} : PlainText (subsText subs) := by
  apply PlainText.flatMap
  intro n _ c hc
  rcases List.mem_cons.mp hc with rfl | hc
  · exact Or.inr rfl
  · exact plainText_toDigits c hc

theorem plainText_authority : PlainText (authorityText n) := by
  unfold authorityText
  split
  · exact plainText_toDigits
  · have hzero : PlainText (List.replicate (12 - (Nat.toDigits 16 n).length) '0') := by
      intro c hc
      rw [(List.mem_replicate.mp hc).2]
      exact Or.inl (by decide)
    have hx : PlainText "0x".toList := by decide
    exact (hx.append hzero).append plainText_hexDigits

theorem isAlphanum_of_isUpper (h : c.isUpper = true) : c.isAlphanum = true := by
  rw [Char.isAlphanum, Char.isAlpha, h, Bool.true_or, Bool.true_or]

theorem Principal.plainText (p : Principal) : PlainText p.text := by
  cases p with
  | sid authority subs =>
    have hs : PlainText "S-1-".toList := by decide
    exact (hs.append plainText_authority).append plainText_subs
  | letters a b upper =>
    intro c hc
    rcases List.mem_cons.mp hc with rfl | hc
    · exact Or.inl (isAlphanum_of_isUpper upper.1)
    · rw [List.mem_singleton.mp hc]
      exact Or.inl (isAlphanum_of_isUpper upper.2)

theorem plainText_flags : PlainText (flagsText flags) := by
  apply PlainText.flatMap
  intro f _
  cases f
  all_goals decide

theorem plainText_code : ∀ p ∈ rightCodes, PlainText p.1.toList := by decide

theorem RightsText.plainText (r : RightsText) : PlainText r.text := by
  cases r with
  | hex mask =>
    have hx : PlainText "0x".toList := by decide
    exact hx.append plainText_hexDigits
  | codes cs => exact PlainText.flatMap fun p _ => plainText_code p.1 p.2

theorem AceType.plainText (t : AceType) : PlainText t.text := by
  cases t
  all_goals decide

/-! ### An entry -/

theorem aceAllows_text (t : AceType) : aceAllows t.text = some t.allows := by
  cases t
  all_goals decide

theorem rightCodes_spec : ∀ p ∈ rightCodes, ∃ a b, p.1.toList = [a, b] ∧ rightCodes.lookup (String.ofList [a, b]) = some p.2 := by
  have hall : ∀ p ∈ rightCodes, p.1.toList.length = 2 ∧ rightCodes.lookup p.1 = some p.2 := by decide
  intro p hp
  obtain ⟨hlength, hlookup⟩ := hall p hp
  obtain ⟨a, b, hab⟩ := List.length_eq_two.mp hlength
  refine ⟨a, b, hab, ?_⟩
  rw [← hab, String.ofList_toList]
  exact hlookup

theorem codeRights_codes (codes : List {p : String × ℕ // p ∈ rightCodes}) (mask : ℕ) :
    codeRights mask (codesText codes) = some (codes.foldl (fun mask p => mask ||| p.1.2) mask) := by
  induction codes generalizing mask with
  | nil => rfl
  | cons p codes ih =>
    obtain ⟨a, b, hab, hlookup⟩ := rightCodes_spec p.1 p.2
    have htext : codesText (p :: codes) = a :: b :: codesText codes := by
      rw [codesText, List.flatMap_cons, hab]
      rfl
    rw [htext, codeRights, hlookup]
    exact ih (mask ||| p.1.2)

/-- No code starts as a number does. -/
theorem rights_of_codes (codes : List {p : String × ℕ // p ∈ rightCodes}) :
    Sddl.rights (codesText codes) = codeRights 0 (codesText codes) := by
  have hall : ∀ p ∈ rightCodes, p.1.toList.head? ≠ some '0' := by decide
  cases codes with
  | nil => rfl
  | cons p codes =>
    have hhead := hall p.1 p.2
    obtain ⟨a, b, hab, -⟩ := rightCodes_spec p.1 p.2
    have htext : codesText (p :: codes) = a :: b :: codesText codes := by
      rw [codesText, List.flatMap_cons, hab]
      rfl
    have ha : a ≠ '0' := by
      rintro rfl
      rw [hab] at hhead
      exact hhead rfl
    rw [htext]
    unfold Sddl.rights
    split
    · rename_i heq
      exact absurd (List.cons.inj heq).1 ha
    · rename_i heq
      exact absurd (List.cons.inj heq).1 ha
    · rfl

theorem rights_text (r : RightsText) : Sddl.rights r.text = some r.mask := by
  cases r with
  | hex mask => exact parseHexU32_toDigits mask.toNat_lt
  | codes cs => rw [RightsText.text, rights_of_codes, codeRights_codes, RightsText.mask]

theorem toUpper_of_isUpper (h : c.isUpper = true) : c.toUpper = c := by
  simp only [Char.isUpper, decide_eq_true_eq, UInt32.le_iff_toNat_le, ge_iff_le] at h
  change 65 ≤ c.toNat ∧ c.toNat ≤ 90 at h
  have hlower : ¬ ('a'.val ≤ c.val ∧ c.val ≤ 'z'.val) := by
    rw [UInt32.le_iff_toNat_le]
    change ¬ (97 ≤ c.toNat ∧ _)
    omega
  rw [Char.toUpper, dif_neg hlower]

/-- A principal is read as the SID that is meant. -/
theorem normalizeSid_text (p : Principal) : normalizeSid (String.ofList p.text) = p.normal := by
  cases p with
  | sid authority subs =>
    -- a SID is longer than the aliases are
    have hlookup : aliases.lookup (String.ofList (Principal.sid authority subs).text) = none := by
      have hshort : ∀ a ∈ aliases, a.1.toList.length = 2 := by decide
      apply List.lookup_eq_none_iff.mpr
      intro a ha
      rw [bne_iff_ne]
      intro heq
      have hlength := hshort a ha
      rw [← heq, String.toList_ofList, Principal.text, List.append_assoc, List.length_append] at hlength
      have hprefix : "S-1-".toList.length = 4 := by decide
      omega
    rw [normalizeSid, hlookup, Option.getD_none, String.toList_ofList]
    rfl
  | letters a b upper =>
    rw [normalizeSid, String.toList_ofList, Principal.text, Principal.normal]
    simp only [List.map_cons, List.map_nil, toUpper_of_isUpper upper.1, toUpper_of_isUpper upper.2]

/-- What is read of an entry: the letters `IO` count wherever they stand in the flags. -/
def AceText.read (ace : AceText) : Ace :=
  ⟨ace.type.allows, "IO".toList <:+: flagsText ace.flags, ace.rights.mask, ace.sid.normal⟩

theorem splitOn_fields (ace : AceText) : ace.fields.splitOn ';' =
    [ace.type.text, flagsText ace.flags, ace.rights.text, ace.objectGuid.1, ace.inheritGuid.1, ace.sid.text] := by
  have hfield {s rest : List Char} (hs : PlainText s) : (s ++ ';' :: rest).splitOn ';' = s :: rest.splitOn ';' := by
    apply List.splitOnP_append_cons_of_forall_mem
    · intro c hc
      have hne : c ≠ ';' := by
        rintro rfl
        exact hs.notMem (by decide) hc
      simpa using hne
    · decide
  have hlast {s : List Char} (hs : PlainText s) : s.splitOn ';' = [s] := by
    apply List.splitOnP_eq_singleton
    intro c hc
    have hne : c ≠ ';' := by
      rintro rfl
      exact hs.notMem (by decide) hc
    simpa using hne
  rw [AceText.fields, hfield ace.type.plainText, hfield plainText_flags, hfield ace.rights.plainText,
    hfield ace.objectGuid.2, hfield ace.inheritGuid.2, hlast ace.sid.plainText]

theorem parseAce_fields (list : List Ace) : parseAce ace.fields (some list) = some (some (list ++ [ace.read])) := by
  rw [parseAce, splitOn_fields]
  simp only [aceAllows_text, rights_text, normalizeSid_text, Option.bind_eq_bind, Option.bind_some]
  rfl

/-! ### The parts -/

theorem mem_fields (hc : c ∈ ace.fields) : (c.isAlphanum = true ∨ c = '-') ∨ c = ';' := by
  simp only [AceText.fields, List.mem_append, List.mem_cons] at hc
  rcases hc with h | rfl | h | rfl | h | rfl | h | rfl | h | rfl | h
  · exact Or.inl (ace.type.plainText c h)
  · exact Or.inr rfl
  · exact Or.inl (plainText_flags c h)
  · exact Or.inr rfl
  · exact Or.inl (ace.rights.plainText c h)
  · exact Or.inr rfl
  · exact Or.inl (ace.objectGuid.2 c h)
  · exact Or.inr rfl
  · exact Or.inl (ace.inheritGuid.2 c h)
  · exact Or.inr rfl
  · exact Or.inl (ace.sid.plainText c h)

theorem parseAces_cons {isDacl : Bool} {inner ace : List Char} {dacl dacl' : Option (List Ace)}
    (hsplit : splitOnce ')' inner = some (ace, rest))
    (hace : (if isDacl then parseAce ace dacl else some dacl) = some dacl') :
    parseAces isDacl ('(' :: inner) dacl = parseAces isDacl rest dacl' := by
  rw [parseAces]
  split
  · rename_i hnone
    rw [hsplit] at hnone
    cases hnone
  · rename_i ace' rest' hsome
    rw [hsplit, Option.some.injEq, Prod.mk.injEq] at hsome
    rw [← hsome.1, ← hsome.2, hace]

theorem parseAces_text (aces : List AceText) (list : List Ace) : parseAces true (aces.flatMap AceText.text) (some list) =
    some (some (list ++ aces.map AceText.read), []) := by
  induction aces generalizing list with
  | nil =>
    rw [List.flatMap_nil, List.map_nil, List.append_nil, parseAces]
    intro inner h
    cases h
  | cons ace aces ih =>
    have hclose : ')' ∉ ace.fields := by
      intro hmem
      have hfield := mem_fields hmem
      revert hfield
      decide
    have htext : (ace :: aces).flatMap AceText.text = '(' :: (ace.fields ++ ')' :: aces.flatMap AceText.text) := by
      rw [List.flatMap_cons, AceText.text, List.cons_append, List.append_assoc, List.singleton_append]
    have hace : (if true then parseAce ace.fields (some list) else some (some list)) = some (some (list ++ [ace.read])) :=
      parseAce_fields list
    rw [htext, parseAces_cons (splitOnce_append hclose) hace, ih, List.map_cons, List.append_assoc, List.singleton_append]

theorem splitAtBytes_all (s rest : List Char) : splitAtBytes (s.map Char.utf8Size).sum (s ++ rest) = some (s, rest) := by
  induction s with
  | nil =>
    rw [List.map_nil, List.sum_nil, List.nil_append]
    cases rest
    all_goals rfl
  | cons c s ih =>
    have hpos := Char.utf8Size_pos c
    obtain ⟨n, hn⟩ : ∃ n, c.utf8Size + (s.map Char.utf8Size).sum = n + 1 :=
      ⟨c.utf8Size + (s.map Char.utf8Size).sum - 1, by omega⟩
    have hrest : n + 1 - c.utf8Size = (s.map Char.utf8Size).sum := by omega
    rw [List.map_cons, List.sum_cons, hn, List.cons_append, splitAtBytes, if_pos (by omega), hrest, ih]
    rfl

variable {daclFlags : List DaclFlag} {d : Descriptor} {text : DescriptorText}

theorem mem_daclFlagsText (hc : c ∈ daclFlagsText daclFlags) : c.isUpper = true := by
  obtain ⟨f, -, hc⟩ := List.mem_flatMap.mp hc
  have hall : ∀ c ∈ f.text, c.isUpper = true := by
    cases f
    all_goals decide
  exact hall c hc

theorem p_mem_daclFlagsText : 'P' ∈ daclFlagsText daclFlags ↔ DaclFlag.p ∈ daclFlags := by
  rw [daclFlagsText, List.mem_flatMap]
  constructor
  · rintro ⟨f, hf, hp⟩
    cases f with
    | p => exact hf
    | ar => exact absurd hp (by decide)
    | ai => exact absurd hp (by decide)
  · intro hp
    exact ⟨.p, hp, by decide⟩

theorem noAccessControl_daclFlagsText : ¬ "NO_ACCESS_CONTROL".toList <:+: daclFlagsText daclFlags := by
  intro h
  have hmem : '_' ∈ daclFlagsText daclFlags := h.subset (by decide)
  have hupper := mem_daclFlagsText hmem
  revert hupper
  decide

/-- The flags of a DACL end at its first entry. -/
theorem takeFlags_aces (ace : AceText) (aces : List AceText) :
    takeFlags (daclFlagsText daclFlags ++ (ace :: aces).flatMap AceText.text) =
      .ok (daclFlagsText daclFlags, (ace :: aces).flatMap AceText.text) := by
  have htext : (ace :: aces).flatMap AceText.text = '(' :: (ace.fields ++ [')'] ++ aces.flatMap AceText.text) := by
    rw [List.flatMap_cons, AceText.text, List.cons_append]
  have hflags : ∀ c ∈ daclFlagsText daclFlags, decide (c ≠ '(') = true := by
    intro c hc
    apply decide_eq_true
    rintro rfl
    have hupper := mem_daclFlagsText hc
    revert hupper
    decide
  have hmem : '(' ∈ daclFlagsText daclFlags ++ (ace :: aces).flatMap AceText.text := by
    rw [htext]
    exact List.mem_append_right _ List.mem_cons_self
  rw [takeFlags, if_pos hmem, List.span_eq_takeWhile_dropWhile, htext, List.takeWhile_append_of_pos hflags,
    List.dropWhile_append_of_pos hflags]
  simp

/-- Without entries the flags are all there is. -/
theorem takeFlags_all (h : ∀ c ∈ s, c ≠ '(' ∧ c ≠ ':') : takeFlags s = .ok (s, []) := by
  have hparen : '(' ∉ s := fun hmem => (h '(' hmem).1 rfl
  have hcolon : ':' ∉ s := fun hmem => (h ':' hmem).2 rfl
  have hall := splitAtBytes_all s []
  rw [List.append_nil] at hall
  rw [takeFlags, if_neg hparen]
  simp only [if_neg hcolon, hall]
  rfl

/-- The DACL of what is printed. -/
def DescriptorText.readDacl (text : DescriptorText) : Option (List Ace) := text.dacl.map fun aces => aces.map AceText.read

theorem parseAcl_text : parseAcl true d (daclFlagsText text.flags ++ text.daclText) =
    .ok ({ d with isProtected := DaclFlag.p ∈ text.flags, dacl := text.readDacl }, []) := by
  have hp : decide ('P' ∈ daclFlagsText text.flags) = decide (DaclFlag.p ∈ text.flags) :=
    decide_eq_decide.mpr p_mem_daclFlagsText
  -- no flag is a letter that ends the flags
  have hletters : ∀ c ∈ daclFlagsText text.flags, c ≠ '(' ∧ c ≠ ':' := by
    intro c hc
    have hupper := mem_daclFlagsText hc
    constructor
    all_goals
      rintro rfl
      revert hupper
      decide
  -- the list of entries starts with a parenthesis, and the missing one with a word of letters
  cases hdacl : text.dacl with
  | none =>
    have htext : text.daclText = "NO_ACCESS_CONTROL".toList := by
      rw [DescriptorText.daclText, hdacl]
    have hflags : takeFlags (daclFlagsText text.flags ++ text.daclText) = .ok (daclFlagsText text.flags ++ text.daclText, []) := by
      apply takeFlags_all
      intro c hc
      rcases List.mem_append.mp hc with hc | hc
      · exact hletters c hc
      · have hall : ∀ c ∈ "NO_ACCESS_CONTROL".toList, c ≠ '(' ∧ c ≠ ':' := by decide
        rw [htext] at hc
        exact hall c hc
    have hnone : "NO_ACCESS_CONTROL".toList <:+: daclFlagsText text.flags ++ text.daclText := by
      rw [htext]
      exact (List.suffix_append _ _).isInfix
    have hp' : decide ('P' ∈ daclFlagsText text.flags ++ text.daclText) = decide (DaclFlag.p ∈ text.flags) := by
      rw [← hp, htext]
      apply decide_eq_decide.mpr
      rw [List.mem_append]
      exact or_iff_left (by decide)
    rw [parseAcl, hflags, except_ok_bind]
    simp only [hp', if_pos hnone, if_true, parseAces, DescriptorText.readDacl, hdacl, Option.map_none]
  | some aces =>
    have htext : text.daclText = aces.flatMap AceText.text := by
      rw [DescriptorText.daclText, hdacl]
    have hflags : takeFlags (daclFlagsText text.flags ++ text.daclText) = .ok (daclFlagsText text.flags, text.daclText) := by
      rw [htext]
      cases aces with
      | nil =>
        rw [List.flatMap_nil, List.append_nil]
        exact takeFlags_all hletters
      | cons ace aces => exact takeFlags_aces ace aces
    rw [parseAcl, hflags, except_ok_bind, htext]
    simp only [hp, if_neg noAccessControl_daclFlagsText, if_true, parseAces_text, DescriptorText.readDacl, hdacl,
      Option.map_some, List.nil_append]

theorem utf8Size_of_plain (h : c.isAlphanum = true ∨ c = '-' ∨ c = ':') : c.utf8Size = 1 := by
  rw [Char.utf8Size_eq_one_iff, UInt32.le_iff_toNat_le]
  rcases h with h | rfl | rfl
  · have hrange := alphanum_range (Or.inl h)
    change c.toNat ≤ 127
    omega
  · decide
  · decide

/-- The tag of a part. -/
theorem splitAtBytes_two {a b : Char} (ha : a.isAlphanum = true ∨ a = '-' ∨ a = ':')
    (hb : b.isAlphanum = true ∨ b = '-' ∨ b = ':') : splitAtBytes 2 (a :: b :: rest) = some ([a, b], rest) := by
  rw [splitAtBytes, utf8Size_of_plain ha, if_pos (by omega), splitAtBytes, utf8Size_of_plain hb, if_pos (by omega)]
  cases rest
  all_goals rfl

/-- The authority is printed in decimal. -/
def Principal.Decimal : Principal → Prop
  | .sid authority _ => authority < 2^32
  | .letters _ _ _ => True

instance (p : Principal) : Decidable p.Decimal := by
  cases p with
  | sid authority subs => exact inferInstanceAs (Decidable (authority < 2^32))
  | letters a b upper => exact inferInstanceAs (Decidable True)

theorem isSidChar_of_isDigit (h : c.isDigit = true) : isSidChar c = true := by
  rw [isSidChar, h, Bool.true_or, Bool.true_or]

theorem isSidChar_text {authority : ℕ} {subs : List ℕ} (h : authority < 2^32) :
    ∀ c ∈ (Principal.sid authority subs).text, isSidChar c = true := by
  intro c hc
  rw [Principal.text, authorityText, if_pos h, List.mem_append, List.mem_append] at hc
  rcases hc with (hc | hc) | hc
  · have hall : ∀ c ∈ "S-1-".toList, isSidChar c = true := by decide
    exact hall c hc
  · exact isSidChar_of_isDigit (toDigits_isDigit hc)
  · obtain ⟨n, -, hc⟩ := List.mem_flatMap.mp hc
    rcases List.mem_cons.mp hc with rfl | hc
    · decide
    · exact isSidChar_of_isDigit (toDigits_isDigit hc)

theorem span_append {f : Char → Bool} (hs : ∀ c ∈ s, f c = true) (hnext : ∀ c ∈ rest.head?, f c = false) :
    (s ++ rest).span f = (s, rest) := by
  rw [List.span_eq_takeWhile_dropWhile, List.takeWhile_append_of_pos hs, List.dropWhile_append_of_pos hs]
  cases rest with
  | nil => simp
  | cons c rest =>
    have hc := hnext c rfl
    rw [List.takeWhile_cons_of_neg (by simpa using hc), List.dropWhile_cons_of_neg (by simpa using hc),
      List.append_nil]

theorem sidText_starts (authority : ℕ) (subs : List ℕ) (rest : List Char) :
    "S-".toList.isPrefixOf ((Principal.sid authority subs).text ++ rest) = true := by
  rw [List.isPrefixOf_iff_prefix, Principal.text, List.append_assoc, List.append_assoc]
  exact ⟨"1-".toList ++ (authorityText authority ++ (subsText subs ++ rest)), rfl⟩

/-- A SID with a decimal authority, and any alias, is taken whole. -/
theorem takeSid_text (hp : p.Decimal) (hnext : ∀ c ∈ rest.head?, isSidChar c = false) :
    takeSid (p.text ++ rest) = .ok (p.text, rest) := by
  cases p with
  | sid authority subs =>
    rw [takeSid, if_pos (sidText_starts authority subs rest), span_append (isSidChar_text hp) hnext]
  | letters a b upper =>
    have ha := isAlphanum_of_isUpper upper.1
    have hb := isAlphanum_of_isUpper upper.2
    have hdash : ¬ "S-".toList.isPrefixOf (a :: b :: rest) = true := by
      rw [List.isPrefixOf_iff_prefix]
      intro hprefix
      obtain ⟨-, hprefix⟩ := List.cons_prefix_cons.mp hprefix
      obtain ⟨rfl, -⟩ := List.cons_prefix_cons.mp hprefix
      have hupper := upper.2
      revert hupper
      decide
    have htwo : min 2 ((a :: b :: rest).map Char.utf8Size).sum = 2 := by
      rw [List.map_cons, List.map_cons, List.sum_cons, List.sum_cons, utf8Size_of_plain (Or.inl ha),
        utf8Size_of_plain (Or.inl hb)]
      omega
    rw [Principal.text, List.cons_append, List.cons_append, List.nil_append, takeSid, if_neg hdash, htwo,
      splitAtBytes_two (Or.inl ha) (Or.inl hb)]
    rfl

/-- Of a SID with a hexadecimal authority only the first digit is taken. -/
theorem takeSid_hex {authority : ℕ} (h : 2^32 ≤ authority) (subs : List ℕ) (rest : List Char) :
    ∃ b more, (b.isAlphanum = true ∨ b = '-') ∧
      takeSid ((Principal.sid authority subs).text ++ rest) = .ok ("S-1-0".toList, 'x' :: b :: more) := by
  have hplain : PlainText (authorityText authority) := plainText_authority
  have hlarge : ¬ authority < 2^32 := by omega
  obtain ⟨b, digits, hdigits⟩ :=
    List.exists_cons_of_ne_nil (List.append_ne_nil_of_right_ne_nil
      (List.replicate (12 - (Nat.toDigits 16 authority).length) '0') (Nat.toDigits_ne_nil (n := authority) (b := 16)))
  -- the SID ends at the x, which is no character of one
  have hauthority : authorityText authority = "0x".toList ++ b :: digits := by
    rw [authorityText, if_neg hlarge, List.append_assoc, hdigits]
  have htext : (Principal.sid authority subs).text ++ rest =
      "S-1-0".toList ++ 'x' :: b :: (digits ++ (subsText subs ++ rest)) := by
    rw [Principal.text, hauthority, List.append_assoc, List.append_assoc]
    rfl
  have hstart := sidText_starts authority subs rest
  rw [htext] at hstart ⊢
  refine ⟨b, digits ++ (subsText subs ++ rest), ?_, ?_⟩
  · apply hplain
    rw [hauthority]
    exact List.mem_append_right _ List.mem_cons_self
  · have hx : ∀ c ∈ some 'x', isSidChar c = false := by
      intro c hc
      obtain rfl := Option.mem_some.mp hc
      decide
    have hspan : ("S-1-0".toList ++ 'x' :: b :: (digits ++ (subsText subs ++ rest))).span isSidChar =
        ("S-1-0".toList, 'x' :: b :: (digits ++ (subsText subs ++ rest))) := span_append (by decide) hx
    rw [takeSid, if_pos hstart, hspan]

/-! ### The descriptor -/

/-- What is read of a descriptor: the letters `IO` count wherever they stand in the flags. -/
def DescriptorText.read (text : DescriptorText) : Descriptor where
  owner := text.owner.map Principal.normal
  isProtected := DaclFlag.p ∈ text.flags
  dacl := text.readDacl

theorem parseParts_step {d d' : Descriptor} {s r : List Char} (h : parsePart d s = .ok (d', r)) :
    parseParts d s = parseParts d' r := by
  have hne : s ≠ [] := by
    rintro rfl
    cases h
  rw [parseParts, if_neg hne]
  split
  · rename_i e herror
    rw [h] at herror
    cases herror
  · rename_i d₁ r₁ hok
    rw [h] at hok
    obtain ⟨rfl, rfl⟩ := Prod.mk.inj (Except.ok.inj hok)
    rfl

theorem parseParts_stop {d : Descriptor} {s : List Char} {e : Stop} (h : parsePart d s = .error e) (hne : s ≠ []) :
    parseParts d s = .error e := by
  rw [parseParts, if_neg hne]
  split
  · rename_i e' herror
    rw [h] at herror
    rw [Except.error.inj herror]
  · rename_i hok
    rw [h] at hok
    cases hok

theorem parseParts_nil {d : Descriptor} : parseParts d [] = .ok d := by
  rw [parseParts, if_pos rfl]

theorem principal_text_ne_nil (p : Principal) : p.text ≠ [] := by
  cases p with
  | sid authority subs =>
    intro h
    have hlength := congrArg List.length h
    rw [Principal.text, List.append_assoc, List.length_append] at hlength
    have hprefix : "S-1-".toList.length = 4 := by decide
    rw [List.length_nil] at hlength
    omega
  | letters a b upper => exact List.cons_ne_nil _ _

theorem parsePart_owner_tag {d : Descriptor} (body : List Char) :
    parsePart d ("O:".toList ++ body) = parseSid true d body := by
  have htag : splitAtBytes 2 ("O:".toList ++ body) = some ("O:".toList, body) := splitAtBytes_two (by decide) (by decide)
  rw [parsePart, htag]
  exact if_pos rfl

theorem parsePart_group_tag {d : Descriptor} (body : List Char) :
    parsePart d ("G:".toList ++ body) = parseSid false d body := by
  have htag : splitAtBytes 2 ("G:".toList ++ body) = some ("G:".toList, body) := splitAtBytes_two (by decide) (by decide)
  have ho : ¬ "G:".toList = "O:".toList := by decide
  rw [parsePart, htag]
  simp only [if_neg ho]
  exact if_pos trivial

theorem parsePart_owner {d : Descriptor} (hp : p.Decimal) (hnext : ∀ c ∈ rest.head?, isSidChar c = false) :
    parsePart d ("O:".toList ++ p.text ++ rest) = .ok ({ d with owner := some p.normal }, rest) := by
  rw [List.append_assoc, parsePart_owner_tag, parseSid, takeSid_text hp hnext, except_ok_bind]
  simp only [if_neg (principal_text_ne_nil p), normalizeSid_text, if_true]

theorem parsePart_group {d : Descriptor} (hp : p.Decimal) (hnext : ∀ c ∈ rest.head?, isSidChar c = false) :
    parsePart d ("G:".toList ++ p.text ++ rest) = .ok (d, rest) := by
  rw [List.append_assoc, parsePart_group_tag, parseSid, takeSid_text hp hnext, except_ok_bind]
  simp only [if_neg (principal_text_ne_nil p)]
  rfl

theorem parsePart_dacl {d : Descriptor} : parsePart d ("D:".toList ++ (daclFlagsText text.flags ++ text.daclText)) =
    .ok ({ d with isProtected := DaclFlag.p ∈ text.flags, dacl := text.readDacl }, []) := by
  have htag : splitAtBytes 2 ("D:".toList ++ (daclFlagsText text.flags ++ text.daclText)) =
      some ("D:".toList, daclFlagsText text.flags ++ text.daclText) := splitAtBytes_two (by decide) (by decide)
  have ho : "D:".toList ≠ "O:".toList := by decide
  have hg : "D:".toList ≠ "G:".toList := by decide
  rw [parsePart, htag]
  simp only [if_neg ho, if_neg hg, if_true, parseAcl_text]

/-- The DACL part. -/
def DescriptorText.daclPart (text : DescriptorText) : List Char :=
  "D:".toList ++ (daclFlagsText text.flags ++ text.daclText)

/-- The owner and the group are printed with decimal authorities. -/
structure DescriptorText.Decimal (text : DescriptorText) : Prop where
  owner : ∀ p ∈ text.owner, p.Decimal
  group : ∀ p ∈ text.group, p.Decimal

theorem sidPart_head (sid : Option Principal) {tag : String} {c : Char} (htag : tag.toList.head? = some c)
    (hc : isSidChar c = false) (hrest : ∀ c ∈ rest.head?, isSidChar c = false) :
    ∀ c ∈ (sidPart tag sid ++ rest).head?, isSidChar c = false := by
  cases sid with
  | none => exact hrest
  | some p =>
    intro d hd
    rw [sidPart, Option.elim_some, List.append_assoc, List.head?_append, htag, Option.some_or] at hd
    rw [← Option.some.inj hd]
    exact hc

theorem daclPart_head : ∀ c ∈ text.daclPart.head?, isSidChar c = false := by
  intro c hc
  rw [← Option.some.inj hc]
  decide

theorem parseParts_dacl {d : Descriptor} :
    parseParts d text.daclPart = .ok { d with isProtected := DaclFlag.p ∈ text.flags, dacl := text.readDacl } :=
  (parseParts_step parsePart_dacl).trans parseParts_nil

theorem parseParts_group {d : Descriptor} (h : ∀ p ∈ text.group, p.Decimal) :
    parseParts d (sidPart "G:" text.group ++ text.daclPart) =
      .ok { d with isProtected := DaclFlag.p ∈ text.flags, dacl := text.readDacl } := by
  cases hgroup : text.group with
  | none => exact parseParts_dacl
  | some p => exact (parseParts_step (parsePart_group (h p hgroup) daclPart_head)).trans parseParts_dacl

/-- Part after part, what was printed is read. -/
theorem parseParts_text (h : text.Decimal) :
    parseParts ⟨none, false, none⟩ (sidPart "O:" text.owner ++ (sidPart "G:" text.group ++ text.daclPart)) =
      .ok text.read := by
  have hg : isSidChar 'G' = false := by decide
  cases howner : text.owner with
  | none =>
    refine (parseParts_group h.group).trans ?_
    rw [DescriptorText.read, howner]
    rfl
  | some p =>
    have htag : "G:".toList.head? = some 'G' := by decide
    have hnext : ∀ c ∈ (sidPart "G:" text.group ++ text.daclPart).head?, isSidChar c = false :=
      sidPart_head text.group htag hg daclPart_head
    refine (parseParts_step (parsePart_owner (h.owner p howner) hnext)).trans ((parseParts_group h.group).trans ?_)
    rw [DescriptorText.read, howner]
    rfl

/-- What follows the first digit of a hexadecimal authority is no part of a descriptor. -/
theorem parsePart_hex {d : Descriptor} {b : Char} {more : List Char} (hb : b.isAlphanum = true ∨ b = '-') :
    parsePart d ('x' :: b :: more) = .error .unreadable := by
  have hb' : b.isAlphanum = true ∨ b = '-' ∨ b = ':' := hb.imp_right Or.inl
  have hne {c : Char} {tag : List Char} (htag : tag.head? = some c) (hc : c ≠ 'x') : ¬ ['x', b] = tag := by
    rintro rfl
    exact hc (Option.some.inj htag).symm
  rw [parsePart, splitAtBytes_two (by decide) hb']
  simp only
  rw [if_neg (hne (c := 'O') (by decide) (by decide)), if_neg (hne (c := 'G') (by decide) (by decide)),
    if_neg (hne (c := 'D') (by decide) (by decide)), if_neg (hne (c := 'S') (by decide) (by decide))]

/-- A part with a hexadecimal authority ends the reading. -/
theorem parseParts_hex {d : Descriptor} {isOwner : Bool} {tag : String}
    (htag : ∀ body, parsePart d (tag.toList ++ body) = parseSid isOwner d body) (hp : ¬ p.Decimal) :
    parseParts d (tag.toList ++ p.text ++ rest) = .error .unreadable := by
  cases p with
  | letters a b upper => exact absurd trivial hp
  | sid authority subs =>
    obtain ⟨b, more, hb, htake⟩ := takeSid_hex (Nat.not_lt.mp hp) subs rest
    have hsid : "S-1-0".toList ≠ [] := by decide
    have hpart : parsePart d (tag.toList ++ (Principal.sid authority subs).text ++ rest) =
        .ok (if isOwner then { d with owner := some (normalizeSid (String.ofList "S-1-0".toList)) } else d,
          'x' :: b :: more) := by
      rw [List.append_assoc, htag, parseSid, htake, except_ok_bind]
      simp only [if_neg hsid]
    rw [parseParts_step hpart, parseParts_stop (parsePart_hex hb) (List.cons_ne_nil _ _)]

theorem trim_eq_self (h : ∀ c ∈ s, isWhitespace c = false) : trim s = s := by
  have hdrop {s : List Char} (h : ∀ c ∈ s, isWhitespace c = false) : s.dropWhile isWhitespace = s := by
    cases s with
    | nil => rfl
    | cons c s => exact List.dropWhile_cons_of_neg (by simp [h c List.mem_cons_self])
  have hreverse : ∀ c ∈ s.reverse, isWhitespace c = false := fun c hc => h c (List.mem_reverse.mp hc)
  rw [trim, hdrop h, hdrop hreverse, List.reverse_reverse]

theorem sidPart_not_whitespace {sid : Option Principal} {tag : String} (htag : ∀ c ∈ tag.toList, isWhitespace c = false) :
    ∀ c ∈ sidPart tag sid, isWhitespace c = false := by
  intro c hc
  cases sid with
  | none => cases hc
  | some p =>
    rcases List.mem_append.mp hc with hc | hc
    · exact htag c hc
    · exact isWhitespace_of_plain (p.plainText c hc)

theorem daclPart_not_whitespace : ∀ c ∈ text.daclPart, isWhitespace c = false := by
  intro c hc
  rw [DescriptorText.daclPart, List.mem_append, List.mem_append] at hc
  rcases hc with hc | hc | hc
  · have hall : ∀ c ∈ "D:".toList, isWhitespace c = false := by decide
    exact hall c hc
  · exact isWhitespace_of_plain (Or.inl (isAlphanum_of_isUpper (mem_daclFlagsText hc)))
  · unfold DescriptorText.daclText at hc
    split at hc
    · have hall : ∀ c ∈ "NO_ACCESS_CONTROL".toList, isWhitespace c = false := by decide
      exact hall c hc
    · obtain ⟨ace, -, hc⟩ := List.mem_flatMap.mp hc
      rcases List.mem_cons.mp hc with rfl | hc
      · decide
      · rcases List.mem_append.mp hc with hc | hc
        · rcases mem_fields hc with hc | rfl
          · exact isWhitespace_of_plain hc
          · decide
        · rw [List.mem_singleton.mp hc]
          decide

theorem trim_text : trim text.text.toList =
    sidPart "O:" text.owner ++ (sidPart "G:" text.group ++ text.daclPart) := by
  have ho : ∀ c ∈ sidPart "O:" text.owner, isWhitespace c = false := sidPart_not_whitespace (by decide)
  have hg : ∀ c ∈ sidPart "G:" text.group, isWhitespace c = false := sidPart_not_whitespace (by decide)
  rw [DescriptorText.text, String.toList_ofList]
  apply trim_eq_self
  intro c hc
  rcases List.mem_append.mp hc with hc | hc
  · exact ho c hc
  · rcases List.mem_append.mp hc with hc | hc
    · exact hg c hc
    · exact daclPart_not_whitespace c hc

/-- What is printed with decimal authorities is read. -/
theorem parse_text (h : text.Decimal) : parse text.text = .ok text.read := by
  rw [parse, trim_text]
  exact parseParts_text h

/-- What is printed with a hexadecimal authority is refused. -/
theorem parse_text_hex (h : ¬ text.Decimal) : parse text.text = .error .unreadable := by
  rw [parse, trim_text]
  by_cases howner : ∀ p ∈ text.owner, p.Decimal
  · have hgroup : ∃ p, text.group = some p ∧ ¬ p.Decimal := by
      by_contra hnone
      push Not at hnone
      exact h ⟨howner, hnone⟩
    obtain ⟨p, hp, hhex⟩ := hgroup
    have hg : isSidChar 'G' = false := by decide
    have htag : "G:".toList.head? = some 'G' := by decide
    have hstop (d : Descriptor) : parseParts d (sidPart "G:" text.group ++ text.daclPart) = .error .unreadable := by
      rw [hp]
      exact parseParts_hex parsePart_group_tag hhex
    have hnext : ∀ c ∈ (sidPart "G:" text.group ++ text.daclPart).head?, isSidChar c = false :=
      sidPart_head text.group htag hg daclPart_head
    cases hso : text.owner with
    | none => exact hstop _
    | some o => exact (parseParts_step (parsePart_owner (howner o hso) hnext)).trans (hstop _)
  · push Not at howner
    obtain ⟨p, hp, hhex⟩ := howner
    rw [hp]
    exact parseParts_hex parsePart_owner_tag hhex

end Sddl

end AbyssalWarden
