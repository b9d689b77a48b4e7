import AbyssalWarden.Anchors
import AbyssalWarden.TextFields

/-! The text of an anchor in the system log, and how it is read back, whatever stands before it in the message and
whatever the action and the outcome are. -/
namespace AbyssalWarden

/-- `u8::is_ascii_hexdigit`, of a character -/
def isHexDigit (c : Char) : Bool := c.isDigit || ('a' ≤ c && c ≤ 'f') || ('A' ≤ c && c ≤ 'F')

/-- The characters that cannot start a new field or line, at most `max` of them. -/
def clean (s : String) (max : ℕ) : String :=
  String.ofList ((s.toList.filter fun c => c.isAlphanum || c = '_').take max)

/-- The anchor text for one audit entry (the system log adds its own header). -/
def anchorText (seq : UInt64) (hash chain action outcome : String) : String :=
  "audit seq=" ++ toString seq.toNat ++ " hash=" ++ clean hash 64 ++ " chain=" ++ clean chain 16 ++
    " action=" ++ clean action 32 ++ " outcome=" ++ clean outcome 32

/-- The fields of an anchor read so far. -/
structure AnchorFields where
  seq : Option ℕ
  hash : Option String
  chain : Option String

/-- A value of so many hexadecimal digits, in lower case. -/
def hexValue (len : ℕ) (v : List Char) : Option String :=
  if v.length = len ∧ v.all isHexDigit then some (String.ofList (v.map Char.toLower)) else none

/-- One field of an anchor message; `none` where the whole message is none. -/
def anchorField (acc : AnchorFields) (field : List Char) : Option AnchorFields := do
  let (k, v) ← splitOnce '=' field
  if k = "seq".toList then some { acc with seq := parseU64 v }
  else if k = "hash".toList then some { acc with hash := (hexValue 64 v).or acc.hash }
  else if k = "chain".toList then some { acc with chain := (hexValue 16 v).or acc.chain }
  else some acc

/-- Parses an anchor message (with or without the syslog prefix). -/
def parseAnchor (message : String) : Option Anchor := do
  let start ← findStr "audit seq=".toList message.toList
  let rest := start.drop "audit ".length
  let fields ← (splitWhitespace rest).foldlM anchorField ⟨none, none, none⟩
  some ⟨← fields.seq, ← fields.hash, fields.chain⟩

/-- Text of so many hexadecimal digits. -/
def HexText (len : ℕ) : Type := {s : String // s.toList.length = len ∧ s.toList.all isHexDigit = true}

/-- The same in lower case. -/
def HexText.lower {len : ℕ} (s : HexText len) : String := String.ofList (s.1.toList.map Char.toLower)

variable {len max : ℕ} {s : HexText len} {c : Char} {seq : UInt64} {hash : HexText 64} {chain : HexText 16}
  {action outcome : String}

/-! ### The fields of the text -/

theorem isHexDigit_alphanum (h : isHexDigit c = true) : c.isAlphanum = true := by
  simp only [isHexDigit, Char.isAlphanum, Char.isAlpha, Char.isUpper, Char.isLower, Char.isDigit, Bool.or_eq_true,
    Bool.and_eq_true, decide_eq_true_eq, UInt32.le_iff_toNat_le, Char.le_def, ge_iff_le] at h ⊢
  change ((48 ≤ c.toNat ∧ c.toNat ≤ 57) ∨ (97 ≤ c.toNat ∧ c.toNat ≤ 102)) ∨ (65 ≤ c.toNat ∧ c.toNat ≤ 70) at h
  change ((65 ≤ c.toNat ∧ c.toNat ≤ 90) ∨ (97 ≤ c.toNat ∧ c.toNat ≤ 122)) ∨ (48 ≤ c.toNat ∧ c.toNat ≤ 57)
  omega

/-- What `clean` leaves are letters, digits and `_`. -/
theorem mem_clean {t : String} (h : c ∈ (clean t max).toList) : c.isAlphanum = true ∨ c = '_' := by
  rw [clean, String.toList_ofList] at h
  have hkept := (List.mem_filter.mp (List.mem_of_mem_take h)).2
  simpa using hkept

theorem clean_hexText (s : HexText len) (h : len ≤ max) : clean s.1 max = s.1 := by
  have hkeep : (s.1.toList.filter fun c => c.isAlphanum || c = '_') = s.1.toList := by
    apply List.filter_eq_self.mpr
    intro c hc
    rw [isHexDigit_alphanum (List.all_eq_true.mp s.2.2 c hc), Bool.true_or]
  have hlength : s.1.toList.length ≤ max := by
    rw [s.2.1]
    exact h
  rw [clean, hkeep, List.take_of_length_le hlength, String.ofList_toList]

theorem hexValue_hexText (s : HexText len) : hexValue len s.1.toList = some s.lower := if_pos s.2

/-- A field of the text: its key, and a value without white space. -/
def fieldText (k : String) (v : List Char) : List Char := k.toList ++ '=' :: v

theorem anchorText_toList : (anchorText seq hash.1 chain.1 action outcome).toList =
    "audit ".toList ++ (fieldText "seq" (Nat.toDigits 10 seq.toNat) ++ ' ' :: (fieldText "hash" hash.1.toList ++
      ' ' :: (fieldText "chain" chain.1.toList ++ ' ' :: (fieldText "action" (clean action 32).toList ++
        ' ' :: fieldText "outcome" (clean outcome 32).toList)))) := by
  have hhash : clean hash.1 64 = hash.1 := clean_hexText hash (Nat.le_refl 64)
  have hchain : clean chain.1 16 = chain.1 := clean_hexText chain (Nat.le_refl 16)
  have hseq : (toString seq.toNat).toList = Nat.toDigits 10 seq.toNat := by
    rw [Nat.toString_eq_repr, Nat.toList_repr]
  -- the keys of the format string, with what separates them
  have hkeys : "audit seq=".toList = "audit ".toList ++ ("seq".toList ++ ['=']) ∧
      " hash=".toList = ' ' :: ("hash".toList ++ ['=']) ∧ " chain=".toList = ' ' :: ("chain".toList ++ ['=']) ∧
      " action=".toList = ' ' :: ("action".toList ++ ['=']) ∧
      " outcome=".toList = ' ' :: ("outcome".toList ++ ['=']) := by decide
  obtain ⟨h1, h2, h3, h4, h5⟩ := hkeys
  unfold anchorText
  simp only [hhash, hchain, String.toList_append, hseq, fieldText, h1, h2, h3, h4, h5, List.append_assoc, List.cons_append,
    List.nil_append]

theorem isAlphanum_of_hexText (s : HexText len) : ∀ c ∈ s.1.toList, c.isAlphanum = true ∨ c = '_' := fun c hc =>
  Or.inl (isHexDigit_alphanum (List.all_eq_true.mp s.2.2 c hc))

theorem isAlphanum_of_toDigits {n : ℕ} : ∀ c ∈ Nat.toDigits 10 n, c.isAlphanum = true ∨ c = '_' := by
  intro c hc
  have hdigit := toDigits_isDigit hc
  left
  rw [Char.isAlphanum, hdigit, Bool.or_true]

variable {k : String} {v rest : List Char}

theorem fieldText_ne_nil : fieldText k v ≠ [] := List.append_ne_nil_of_right_ne_nil _ (List.cons_ne_nil _ _)

theorem fieldText_not_whitespace (hk : ∀ c ∈ k.toList, isWhitespace c = false)
    (hv : ∀ c ∈ v, c.isAlphanum = true ∨ c = '_') : ∀ c ∈ fieldText k v, isWhitespace c = false := by
  intro c hc
  rcases List.mem_append.mp hc with hkey | hc
  · exact hk c hkey
  · rcases List.mem_cons.mp hc with heq | hvalue
    · rw [heq]
      decide
    · exact alphanum_not_whitespace (hv c hvalue)

/-- A field and what follows it after a blank. -/
theorem splitWhitespace_fieldText (hk : ∀ c ∈ k.toList, isWhitespace c = false)
    (hv : ∀ c ∈ v, c.isAlphanum = true ∨ c = '_') :
    splitWhitespace (fieldText k v ++ ' ' :: rest) = fieldText k v :: splitWhitespace rest :=
  splitWhitespace_append fieldText_ne_nil (fieldText_not_whitespace hk hv) (by decide)

/-- The fields of the text, one after another: what `clean` leaves of the action and the outcome starts no field. -/
theorem splitWhitespace_anchorText :
    splitWhitespace ((anchorText seq hash.1 chain.1 action outcome).toList.drop "audit ".length) =
      [fieldText "seq" (Nat.toDigits 10 seq.toNat), fieldText "hash" hash.1.toList, fieldText "chain" chain.1.toList,
        fieldText "action" (clean action 32).toList, fieldText "outcome" (clean outcome 32).toList] := by
  have hlength : "audit ".length = "audit ".toList.length := by decide
  have houtcome : splitWhitespace (fieldText "outcome" (clean outcome 32).toList) =
      [fieldText "outcome" (clean outcome 32).toList] :=
    splitWhitespace_single fieldText_ne_nil (fieldText_not_whitespace (by decide) fun c hc => mem_clean hc)
  rw [anchorText_toList, hlength, List.drop_left,
    splitWhitespace_fieldText (by decide) isAlphanum_of_toDigits,
    splitWhitespace_fieldText (by decide) (isAlphanum_of_hexText hash),
    splitWhitespace_fieldText (by decide) (isAlphanum_of_hexText chain),
    splitWhitespace_fieldText (by decide) fun c hc => mem_clean hc, houtcome]

/-! ### Reading the fields -/

variable {acc : AnchorFields}

theorem splitOnce_fieldText (h : '=' ∉ k.toList) : splitOnce '=' (fieldText k v) = some (k.toList, v) :=
  splitOnce_append h

/-- A field that no other key has is skipped, whatever its value is. -/
theorem anchorField_other (hk : '=' ∉ k.toList) (hseq : k.toList ≠ "seq".toList) (hhash : k.toList ≠ "hash".toList)
    (hchain : k.toList ≠ "chain".toList) : anchorField acc (fieldText k v) = some acc := by
  simp only [anchorField, splitOnce_fieldText hk, Option.bind_eq_bind, Option.bind_some]
  rw [if_neg hseq, if_neg hhash, if_neg hchain]

theorem anchorField_seq : anchorField acc (fieldText "seq" v) = some { acc with seq := parseU64 v } := by
  have hk : '=' ∉ "seq".toList := by decide
  simp only [anchorField, splitOnce_fieldText hk, Option.bind_eq_bind, Option.bind_some]
  exact if_pos trivial

theorem anchorField_hash :
    anchorField acc (fieldText "hash" v) = some { acc with hash := (hexValue 64 v).or acc.hash } := by
  have hk : '=' ∉ "hash".toList := by decide
  have hseq : "hash".toList ≠ "seq".toList := by decide
  simp only [anchorField, splitOnce_fieldText hk, Option.bind_eq_bind, Option.bind_some]
  rw [if_neg hseq]
  exact if_pos trivial

theorem anchorField_chain :
    anchorField acc (fieldText "chain" v) = some { acc with chain := (hexValue 16 v).or acc.chain } := by
  have hk : '=' ∉ "chain".toList := by decide
  have hseq : "chain".toList ≠ "seq".toList := by decide
  have hhash : "chain".toList ≠ "hash".toList := by decide
  simp only [anchorField, splitOnce_fieldText hk, Option.bind_eq_bind, Option.bind_some]
  rw [if_neg hseq, if_neg hhash]
  exact if_pos trivial

/-- The text of an anchor is read as the fields it was made of. -/
theorem foldlM_anchorField : [fieldText "seq" (Nat.toDigits 10 seq.toNat), fieldText "hash" hash.1.toList,
    fieldText "chain" chain.1.toList, fieldText "action" (clean action 32).toList,
    fieldText "outcome" (clean outcome 32).toList].foldlM anchorField ⟨none, none, none⟩ =
      some ⟨some seq.toNat, some hash.lower, some chain.lower⟩ := by
  have hseq : parseU64 (Nat.toDigits 10 seq.toNat) = some seq.toNat := parseU64_toDigits seq.toNat_lt
  have haction (acc) : anchorField acc (fieldText "action" (clean action 32).toList) = some acc :=
    anchorField_other (by decide) (by decide) (by decide) (by decide)
  have houtcome (acc) : anchorField acc (fieldText "outcome" (clean outcome 32).toList) = some acc :=
    anchorField_other (by decide) (by decide) (by decide) (by decide)
  simp only [List.foldlM_cons, List.foldlM_nil, anchorField_seq, anchorField_hash, anchorField_chain, haction, houtcome,
    hseq, hexValue_hexText, Option.bind_eq_bind, Option.bind_some, Option.pure_def, Option.some_or]

/-! ### The round trip -/

theorem findStr_anchorText {pre : List Char} (h : ¬ "audit seq=".toList <:+: pre) :
    findStr "audit seq=".toList (pre ++ (anchorText seq hash.1 chain.1 action outcome).toList) =
      some (anchorText seq hash.1 chain.1 action outcome).toList := by
  have hpat : "audit seq=".toList = 'a' :: "udit seq=".toList := by decide
  have hstart : "audit ".toList ++ "seq".toList ++ ['='] = "audit seq=".toList := by decide
  obtain ⟨rest, hrest⟩ : ∃ rest, (anchorText seq hash.1 chain.1 action outcome).toList = "audit seq=".toList ++ rest :=
    ⟨_, by
      rw [anchorText_toList, ← hstart]
      simp only [fieldText, List.append_assoc, List.cons_append, List.nil_append]
      rfl⟩
  rw [hrest, hpat]
  rw [hpat] at h
  exact findStr_append (by decide) h

/-- An anchor survives the system log: whatever stands before it, and whatever the action and the outcome are, its
number is read back, and its hash and chain identifier in lower case. -/
theorem parseAnchor_anchorText (pre : String) (seq : UInt64) (hash : HexText 64) (chain : HexText 16)
    (action outcome : String) (hpre : ¬ "audit seq=".toList <:+: pre.toList) :
    parseAnchor (pre ++ anchorText seq hash.1 chain.1 action outcome) =
      some ⟨seq.toNat, hash.lower, some chain.lower⟩ := by
  unfold parseAnchor
  simp only [String.toList_append, findStr_anchorText hpre, Option.bind_eq_bind, Option.bind_some,
    splitWhitespace_anchorText, foldlM_anchorField]

/-- A hash and a chain identifier in capitals. -/
def upperHash : HexText 64 := ⟨String.ofList (List.replicate 64 'A'), by decide⟩

def upperChain : HexText 16 := ⟨"ABCDEF0123456789", by decide⟩

/-- An outcome that tries to end the line and to set a field of its own. -/
theorem parseAnchor_anchorText_sample :
    parseAnchor ("warden[1]: " ++ anchorText 7 upperHash.1 upperChain.1 "restore" "ok\nseq=9 hash=") =
      some ⟨7, upperHash.lower, some "abcdef0123456789"⟩ :=
  parseAnchor_anchorText "warden[1]: " 7 upperHash upperChain "restore" "ok\nseq=9 hash=" (by decide)

/-- A chain identifier in capitals is not read back as it was written. -/
theorem upper_chain_lowered : ¬ "audit seq=".toList <:+: "".toList ∧
    parseAnchor ("" ++ anchorText 7 upperHash.1 upperChain.1 "restore" "ok") ≠
      some ⟨7, upperHash.lower, some upperChain.1⟩ := by
  have hpre : ¬ "audit seq=".toList <:+: "".toList := by decide
  refine ⟨hpre, ?_⟩
  unfold parseAnchor
  simp only [String.toList_append, findStr_anchorText hpre, Option.bind_eq_bind, Option.bind_some,
    splitWhitespace_anchorText, foldlM_anchorField]
  decide

end AbyssalWarden
