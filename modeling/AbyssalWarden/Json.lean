import AbyssalWarden.Text

/-! JSON as it is written without blanks, and how long it is. -/
namespace AbyssalWarden

/-- A JSON value; a number is kept as the text it is written as. -/
inductive Json where
  | null
  | bool (b : Bool)
  | num (text : String)
  | str (s : String)
  | arr (items : List Json)
  | obj (fields : List (String × Json))

namespace Json

def quote : UInt8 := 0x22

/-- A character inside a string: the quote, the backslash and what is below the blank are escaped. -/
def escapeChar (c : Char) : Bytes :=
  let n := c.toNat
  if n = 0x22 then [0x5C, 0x22]
  else if n = 0x5C then [0x5C, 0x5C]
  else if n = 0x08 then [0x5C, 0x62]
  else if n = 0x09 then [0x5C, 0x74]
  else if n = 0x0A then [0x5C, 0x6E]
  else if n = 0x0C then [0x5C, 0x66]
  else if n = 0x0D then [0x5C, 0x72]
  else if n < 0x20 then
    [0x5C, 0x75, 0x30, 0x30] ++ utf8Bytes (String.ofList (hexByte false (UInt8.ofNat n)))
  else String.utf8EncodeChar c

def encodeStr (s : String) : Bytes := quote :: s.toList.flatMap escapeChar ++ [quote]

/-- Parts with commas between them. -/
def joinComma : List Bytes → Bytes
  | [] => []
  | [part] => part
  | part :: rest => part ++ 0x2C :: joinComma rest

mutual

def encode : Json → Bytes
  | .null => utf8Bytes "null"
  | .bool b => utf8Bytes (if b then "true" else "false")
  | .num text => utf8Bytes text
  | .str s => encodeStr s
  | .arr items => 0x5B :: joinComma (encodeItems items) ++ [0x5D]
  | .obj fields => 0x7B :: joinComma (encodeFields fields) ++ [0x7D]

def encodeItems : List Json → List Bytes
  | [] => []
  | item :: rest => encode item :: encodeItems rest

def encodeFields : List (String × Json) → List Bytes
  | [] => []
  | (name, value) :: rest => (encodeStr name ++ 0x3A :: encode value) :: encodeFields rest

end

def nat (n : ℕ) : Json := .num (toString n)

def int (n : ℤ) : Json := .num (toString n)

/-- A field that is left out when there is no value. -/
def optional (name : String) (value : Option Json) : List (String × Json) :=
  match value with
  | none => []
  | some v => [(name, v)]

/-! ### Lengths -/

def size (j : Json) : ℕ := (encode j).length

def strSize (s : String) : ℕ := (encodeStr s).length

/-- The length of parts with commas between them. -/
def joinedSize (sizes : List ℕ) : ℕ := sizes.sum + (sizes.length - 1)

def fieldSize (f : String × Json) : ℕ := strSize f.1 + 1 + f.2.size

theorem encodeItems_eq_map (items : List Json) : encodeItems items = items.map encode := by
  induction items with
  | nil => rw [encodeItems, List.map_nil]
  | cons item rest ih => rw [encodeItems, ih, List.map_cons]

theorem encodeFields_length (fields : List (String × Json)) :
    (encodeFields fields).map List.length = fields.map fieldSize := by
  induction fields with
  | nil => rw [encodeFields, List.map_nil, List.map_nil]
  | cons f rest ih =>
    obtain ⟨name, value⟩ := f
    have hfield : (encodeStr name ++ 0x3A :: encode value).length = fieldSize (name, value) := by
      rw [List.length_append, List.length_cons, fieldSize, strSize, size, Nat.add_right_comm, Nat.add_assoc]
    rw [encodeFields, List.map_cons, List.map_cons, ih, hfield]

theorem joinComma_length (parts : List Bytes) :
    (joinComma parts).length = joinedSize (parts.map List.length) := by
  induction parts with
  | nil => rfl
  | cons part rest ih =>
    cases rest with
    | nil => simp [joinComma, joinedSize]
    | cons next rest =>
      rw [joinComma, List.length_append, List.length_cons, ih]
      · simp only [joinedSize, List.map_cons, List.sum_cons, List.length_cons, List.length_map]
        omega
      · exact List.cons_ne_nil _ _

theorem size_arr (items : List Json) : size (.arr items) = joinedSize (items.map size) + 2 := by
  have hitems : (encodeItems items).map List.length = items.map size := by
    rw [encodeItems_eq_map, List.map_map]
    rfl
  rw [size, encode, List.length_append, List.length_cons, joinComma_length, hitems]
  rfl

theorem size_obj (fields : List (String × Json)) :
    size (.obj fields) = joinedSize (fields.map fieldSize) + 2 := by
  rw [size, encode, List.length_append, List.length_cons, joinComma_length, encodeFields_length]
  rfl

theorem size_str (s : String) : size (.str s) = strSize s := by
  rw [size, encode, strSize]

theorem le_joinedSize {sizes : List ℕ} : sizes.sum ≤ joinedSize sizes := Nat.le_add_right _ _

theorem joinedSize_cons (n : ℕ) {sizes : List ℕ} (hne : sizes ≠ []) :
    joinedSize (n :: sizes) = n + 1 + joinedSize sizes := by
  have hpos := List.length_pos_iff.mpr hne
  simp only [joinedSize, List.sum_cons, List.length_cons]
  omega

theorem escapeChar_pos (c : Char) : 1 ≤ (escapeChar c).length := by
  have hpos := Char.utf8Size_pos c
  simp only [escapeChar]
  split_ifs
  all_goals simp
  omega

/-- Every character takes a byte at least. -/
theorem length_le_strSize (s : String) : s.toList.length + 2 ≤ strSize s := by
  have hchars : ∀ cs : List Char, cs.length ≤ (cs.flatMap escapeChar).length := by
    intro cs
    induction cs with
    | nil => exact Nat.le_refl _
    | cons c cs ih =>
      have hpos := escapeChar_pos c
      rw [List.flatMap_cons, List.length_append, List.length_cons]
      omega
  have hall := hchars s.toList
  rw [strSize, encodeStr, List.length_append, List.length_cons]
  simp only [List.length_singleton]
  omega

/-- A character takes four bytes at most. -/
theorem utf8Bytes_length_le (cs : List Char) : (utf8Bytes (String.ofList cs)).length ≤ 4 * cs.length := by
  have hencode : (utf8Bytes (String.ofList cs)).length = (cs.flatMap String.utf8EncodeChar).length := by
    rw [utf8Bytes, String.toByteArray_ofList, List.utf8Encode]
    simp
  rw [hencode]
  clear hencode
  induction cs with
  | nil => exact Nat.le_refl _
  | cons c cs ih =>
    have hchar := Char.utf8Size_le_four c
    rw [List.flatMap_cons, List.length_append, List.length_cons, String.length_utf8EncodeChar]
    omega

theorem escapeChar_le (c : Char) : (escapeChar c).length ≤ 12 := by
  have hsize := Char.utf8Size_le_four c
  have hhex := utf8Bytes_length_le (hexByte false (UInt8.ofNat c.toNat))
  simp only [escapeChar]
  split_ifs
  all_goals simp
  · simp only [hexByte, List.length_cons, List.length_nil] at hhex ⊢
    omega
  · omega

theorem strSize_le (s : String) : strSize s ≤ 12 * s.toList.length + 2 := by
  have hchars : ∀ cs : List Char, (cs.flatMap escapeChar).length ≤ 12 * cs.length := by
    intro cs
    induction cs with
    | nil => exact Nat.le_refl _
    | cons c cs ih =>
      have hchar := escapeChar_le c
      rw [List.flatMap_cons, List.length_append, List.length_cons]
      omega
  have hall := hchars s.toList
  rw [strSize, encodeStr, List.length_append, List.length_cons]
  simp only [List.length_singleton]
  omega

/-- The digits of a number below a power of ten. -/
theorem size_nat_le {n k : ℕ} (hk : 0 < k) (h : n < 10 ^ k) : size (nat n) ≤ 4 * k := by
  have hdigits : (toString n).toList.length ≤ k := by
    rw [String.length_toList]
    exact (Nat.length_repr_le_iff hk).mpr h
  have hbytes := utf8Bytes_length_le (toString n).toList
  rw [String.ofList_toList] at hbytes
  rw [size, nat, encode]
  omega

end Json

end AbyssalWarden
