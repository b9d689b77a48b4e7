import AbyssalWarden.Json

/-! Reading JSON objects whose values are strings, as `Json.encode` writes them. -/
namespace AbyssalWarden

namespace Json

/-- An object whose values are strings. -/
def strings (members : List (String × String)) : Json := .obj (members.map fun m => (m.1, .str m.2))

/-- A reader of JSON text, which reads an object of strings back as it was written. -/
structure Reader where
  read : Bytes → Option Json
  read_strings : ∀ members, read (strings members).encode = some (strings members)

/-! ### Strings -/

/-- The byte that an escape of one letter stands for. -/
def unescape (b : UInt8) : Option UInt8 :=
  if b = 0x22 ∨ b = 0x5C ∨ b = 0x2F then some b
  else if b = 0x62 then some 0x08
  else if b = 0x74 then some 0x09
  else if b = 0x6E then some 0x0A
  else if b = 0x66 then some 0x0C
  else if b = 0x72 then some 0x0D
  else none

/-- A byte before what was read. -/
def consRead (b : UInt8) (r : Bytes × Bytes) : Bytes × Bytes := (b :: r.1, r.2)

/-- The bytes of a string up to its closing quote, and what follows it. -/
def readChars : Bytes → Option (Bytes × Bytes)
  | [] => none
  | 0x22 :: rest => some ([], rest)
  | 0x5C :: 0x75 :: 0x30 :: 0x30 :: a :: b :: rest => do
    let byte ← unhexByte (Char.ofNat a.toNat) (Char.ofNat b.toNat)
    if byte < 0x80 then (readChars rest).map (consRead byte) else none
  | 0x5C :: e :: rest => do
    let byte ← unescape e
    (readChars rest).map (consRead byte)
  | b :: rest => (readChars rest).map (consRead b)

def readStr : Bytes → Option (String × Bytes)
  | 0x22 :: data => do
    let (bytes, rest) ← readChars data
    some (← fromUtf8 bytes, rest)
  | _ => none

/-- The members of an object up to its closing brace, which ends the text; at most `n` of them. -/
def readMembers : ℕ → Bytes → Option (List (String × Json))
  | 0, _ => none
  | n + 1, data => do
    let (name, rest) ← readStr data
    match rest with
    | 0x3A :: rest => do
      let (value, rest) ← readStr rest
      match rest with
      | [0x7D] => some [(name, .str value)]
      | 0x2C :: rest => do some ((name, .str value) :: (← readMembers n rest))
      | _ => none
    | _ => none

def readStrings : Bytes → Option Json
  | [0x7B, 0x7D] => some (.obj [])
  | 0x7B :: data => (readMembers data.length data).map .obj
  | _ => none

variable {c : Char} {tail rest bytes : Bytes} {b : UInt8}

theorem readChars_plain (hquote : b ≠ 0x22) (hslash : b ≠ 0x5C) :
    readChars (b :: tail) = (readChars tail).map (consRead b) := by
  rw [readChars.eq_def]
  split
  all_goals simp_all

/-- Bytes before what was read. -/
def appendRead (bytes : Bytes) (r : Bytes × Bytes) : Bytes × Bytes := (bytes ++ r.1, r.2)

theorem readChars_append (h : ∀ b ∈ bytes, b ≠ 0x22 ∧ b ≠ 0x5C) :
    readChars (bytes ++ tail) = (readChars tail).map (appendRead bytes) := by
  induction bytes with
  | nil =>
    have hid : appendRead [] = id := rfl
    rw [hid, Option.map_id]
    rfl
  | cons b bytes ih =>
    have hb := h b List.mem_cons_self
    rw [List.cons_append, readChars_plain hb.1 hb.2, ih fun b hb => h b (List.mem_cons_of_mem _ hb), Option.map_map]
    rfl

/-- The encoding of a character holds no quote and no backslash but that character itself. -/
theorem utf8EncodeChar_plain (hquote : c.toNat ≠ 0x22) (hslash : c.toNat ≠ 0x5C) :
    ∀ b ∈ String.utf8EncodeChar c, b ≠ 0x22 ∧ b ≠ 0x5C := by
  intro b hb
  suffices hnat : b.toNat ≠ 0x22 ∧ b.toNat ≠ 0x5C from
    ⟨fun h => hnat.1 (congrArg UInt8.toNat h), fun h => hnat.2 (congrArg UInt8.toNat h)⟩
  have hval : c.val.toNat = c.toNat := rfl
  simp only [String.utf8EncodeChar, hval] at hb
  split at hb
  · rw [List.mem_singleton] at hb
    rw [hb, UInt8.toNat_ofNat']
    omega
  -- the other bytes are from 0x80 on
  all_goals
    repeat' split at hb
    all_goals
      simp only [List.mem_cons, List.not_mem_nil, or_false] at hb
      rcases hb with rfl | rfl | rfl | rfl
      all_goals
        rw [UInt8.toNat_ofNat']
        omega

theorem utf8EncodeChar_ascii (h : c.toNat < 0x80) : String.utf8EncodeChar c = [UInt8.ofNat c.toNat] := by
  have hval : c.val.toNat = c.toNat := rfl
  rw [String.utf8EncodeChar, hval]
  exact if_pos (by omega)

theorem appendRead_ascii (h : c.toNat < 0x80) : appendRead (String.utf8EncodeChar c) = consRead (UInt8.ofNat c.toNat) := by
  rw [utf8EncodeChar_ascii h]
  rfl

/-- The two digits of an escaped control character. -/
theorem hexByte_control {n : ℕ} (h : n < 0x20) : ∃ a b, utf8Bytes (String.ofList (hexByte false (UInt8.ofNat n))) = [a, b] ∧
    unhexByte (Char.ofNat a.toNat) (Char.ofNat b.toNat) = some (UInt8.ofNat n) := by
  have hall : ∀ i : Fin 0x20, utf8Bytes (String.ofList (hexByte false (UInt8.ofNat i.val))) =
      [UInt8.ofNat (hexDigit false (i.val / 16)).toNat, UInt8.ofNat (hexDigit false (i.val % 16)).toNat] ∧
      unhexByte (Char.ofNat (UInt8.ofNat (hexDigit false (i.val / 16)).toNat).toNat)
        (Char.ofNat (UInt8.ofNat (hexDigit false (i.val % 16)).toNat).toNat) = some (UInt8.ofNat i.val) := by decide
  exact ⟨_, _, hall ⟨n, h⟩⟩

/-- A character is read back from what it is written as. -/
theorem readChars_escapeChar :
    readChars (escapeChar c ++ tail) = (readChars tail).map (appendRead (String.utf8EncodeChar c)) := by
  -- a character that is escaped is one of the ASCII range
  by_cases hplain : c.toNat ≠ 0x22 ∧ c.toNat ≠ 0x5C ∧ 0x20 ≤ c.toNat
  · have hescape : escapeChar c = String.utf8EncodeChar c := by
      simp only [escapeChar]
      rw [if_neg (by omega), if_neg (by omega), if_neg (by omega), if_neg (by omega), if_neg (by omega),
        if_neg (by omega), if_neg (by omega), if_neg (by omega)]
    rw [hescape]
    exact readChars_append (utf8EncodeChar_plain hplain.1 hplain.2.1)
  · rw [appendRead_ascii (by omega)]
    simp only [escapeChar]
    split_ifs with hquote hslash h8 h9 h10 h12 h13 hcontrol
    · rw [hquote]
      rfl
    · rw [hslash]
      rfl
    · rw [h8]
      rfl
    · rw [h9]
      rfl
    · rw [h10]
      rfl
    · rw [h12]
      rfl
    · rw [h13]
      rfl
    · obtain ⟨a, b, hbytes, hread⟩ := hexByte_control hcontrol
      have hascii : UInt8.ofNat c.toNat < 0x80 := by
        rw [UInt8.lt_iff_toNat_lt, UInt8.toNat_ofNat']
        change c.toNat % 2 ^ 8 < 128
        omega
      rw [hbytes]
      simp only [List.cons_append, List.nil_append, readChars, hread, Option.bind_eq_bind, Option.bind_some]
      exact if_pos hascii
    · omega

/-- The characters of a string up to its closing quote. -/
theorem readChars_flatMap (cs : List Char) : readChars (cs.flatMap escapeChar ++ quote :: rest) =
    some (cs.flatMap String.utf8EncodeChar, rest) := by
  induction cs with
  | nil => rfl
  | cons c cs ih =>
    rw [List.flatMap_cons, List.append_assoc, readChars_escapeChar, ih]
    rfl

theorem fromUtf8_utf8Bytes (s : String) : fromUtf8 (utf8Bytes s) = some s := by
  have hbytes : (⟨(utf8Bytes s).toArray⟩ : ByteArray) = s.toByteArray := rfl
  rw [fromUtf8, hbytes, String.fromUTF8?, dif_pos s.isValidUTF8]
  rfl

theorem utf8Bytes_eq (s : String) : utf8Bytes s = s.toList.flatMap String.utf8EncodeChar := by
  have hencode := String.toByteArray_ofList (l := s.toList)
  rw [String.ofList_toList] at hencode
  rw [utf8Bytes, hencode, List.utf8Encode]
  simp

theorem readStr_encodeStr (s : String) : readStr (encodeStr s ++ rest) = some (s, rest) := by
  rw [encodeStr, List.cons_append, List.cons_append, List.append_assoc]
  change (do
    let (bytes, rest) ← readChars (s.toList.flatMap escapeChar ++ quote :: rest)
    some (← fromUtf8 bytes, rest)) = _
  rw [readChars_flatMap, ← utf8Bytes_eq]
  simp only [Option.bind_eq_bind, Option.bind_some, fromUtf8_utf8Bytes]

/-! ### Objects -/

variable {name value : String} {members : List (String × String)} {n : ℕ}

/-- A member as it is written. -/
theorem encodeFields_cons : encodeFields ((name, .str value) :: members.map fun m => (m.1, .str m.2)) =
    (encodeStr name ++ 0x3A :: encodeStr value) :: encodeFields (members.map fun m => (m.1, .str m.2)) := by
  rw [encodeFields, encode]

/-- Members with their commas, up to the closing brace. -/
theorem readMembers_encode (hne : members ≠ []) (hn : members.length ≤ n) :
    readMembers n (joinComma (encodeFields (members.map fun m => (m.1, .str m.2))) ++ [0x7D]) =
      some (members.map fun m => (m.1, .str m.2)) := by
  induction members generalizing n with
  | nil => exact absurd rfl hne
  | cons m members ih =>
    obtain ⟨name, value⟩ := m
    obtain ⟨n, rfl⟩ : ∃ k, n = k + 1 := ⟨n - 1, by
      rw [List.length_cons] at hn
      omega⟩
    rw [List.map_cons, encodeFields_cons]
    cases members with
    | nil =>
      simp only [List.map_nil, encodeFields, joinComma, List.append_assoc, List.cons_append, readMembers,
        readStr_encodeStr, Option.bind_eq_bind, Option.bind_some]
    | cons m' members =>
      have hrest := ih (List.cons_ne_nil m' members) (Nat.le_of_succ_le_succ hn)
      obtain ⟨name', value'⟩ := m'
      rw [List.map_cons, encodeFields_cons] at hrest ⊢
      simp only [joinComma, List.append_assoc, List.cons_append, readMembers, readStr_encodeStr, Option.bind_eq_bind,
        Option.bind_some]
      rw [hrest]
      rfl

/-- A member takes a byte at least. -/
theorem length_le_joinComma (members : List (String × String)) :
    members.length ≤ (joinComma (encodeFields (members.map fun m => (m.1, .str m.2)))).length := by
  have hpos : ∀ f : String × Json, 1 ≤ fieldSize f := fun f => by
    rw [fieldSize]
    omega
  have hsum : ∀ fields : List (String × Json), fields.length ≤ (fields.map fieldSize).sum := by
    intro fields
    induction fields with
    | nil => exact Nat.le_refl _
    | cons f fields ih =>
      have hf := hpos f
      rw [List.map_cons, List.sum_cons, List.length_cons]
      omega
  have hfields := hsum (members.map fun m => (m.1, .str m.2))
  rw [List.length_map] at hfields
  rw [joinComma_length, encodeFields_length]
  exact hfields.trans le_joinedSize

/-- A reader of objects of strings. -/
def Reader.ofStrings : Reader where
  read := readStrings
  read_strings members := by
    rw [strings, encode]
    cases members with
    | nil => rfl
    | cons m members =>
      have hlength := length_le_joinComma (m :: members)
      have hread : ∀ data : Bytes, data ≠ [0x7D] → readStrings (0x7B :: data) = (readMembers data.length data).map .obj := by
        intro data hdata
        rw [readStrings]
        intro h
        exact hdata h
      have hne : joinComma (encodeFields ((m :: members).map fun m => (m.1, .str m.2))) ++ [0x7D] ≠ [0x7D] := by
        intro h
        have hnil := List.append_left_eq_self.mp h
        rw [hnil, List.length_cons, List.length_nil] at hlength
        omega
      rw [List.cons_append, hread _ hne,
        readMembers_encode (List.cons_ne_nil m members) (hlength.trans (by simp))]
      rfl

end Json

end AbyssalWarden
