import Mathlib

/-! Text as the configuration and trust code reads it: control characters, lines, trimming,
hexadecimal and base64. A `String` is taken apart as its list of characters. -/
namespace AbyssalWarden

abbrev Bytes := List UInt8

instance lawfulBEqChars : LawfulBEq (List Char) := inferInstance

instance lawfulBEqBytes : LawfulBEq (List UInt8) := inferInstance

instance lawfulBEqNatPair : LawfulBEq (ℕ × ℕ) := inferInstance

/-- `char::is_control`: the C0 and C1 controls and DEL. -/
def isControl (c : Char) : Bool := c.toNat < 0x20 || (0x7F ≤ c.toNat && c.toNat ≤ 0x9F)

def isBidiControl (c : Char) : Bool :=
  let n := c.toNat
  (0x202A ≤ n && n ≤ 0x202E) || (0x2066 ≤ n && n ≤ 0x2069) || n == 0x200E || n == 0x200F ||
    n == 0x061C

def hasUnsafeChars (s : String) (allowNewlines : Bool) : Bool :=
  s.toList.any fun c =>
    let allowedWs := allowNewlines && (c = '\n' || c = '\t')
    (isControl c && !allowedWs) || isBidiControl c

/-- `char::is_whitespace`: the Unicode `White_Space` property. -/
def isWhitespace (c : Char) : Bool :=
  let n := c.toNat
  (0x09 ≤ n && n ≤ 0x0D) || n == 0x20 || n == 0x85 || n == 0xA0 || n == 0x1680 ||
    (0x2000 ≤ n && n ≤ 0x200A) || n == 0x2028 || n == 0x2029 || n == 0x202F || n == 0x205F ||
    n == 0x3000

/-- `str::trim` -/
def trim (s : List Char) : List Char :=
  ((s.dropWhile isWhitespace).reverse.dropWhile isWhitespace).reverse

/-- `str::lines`: a final line ending does not start another line, and a carriage return
before a line feed belongs to the line ending. -/
def lines (s : List Char) : List (List Char) :=
  let parts := s.splitOn '\n'
  let ended := parts.dropLast.map fun l => if l.getLast? = some '\r' then l.dropLast else l
  match parts.getLast? with
  | none | some [] => ended
  | some last => ended ++ [last]

/-- `str::eq_ignore_ascii_case` -/
def eqIgnoreAsciiCase (a b : String) : Bool := a.toList.map Char.toLower = b.toList.map Char.toLower

def hexDigit (upper : Bool) (n : ℕ) : Char :=
  if n < 10 then Char.ofNat ('0'.toNat + n)
  else Char.ofNat ((if upper then 'A' else 'a').toNat + (n - 10))

def hexByte (upper : Bool) (b : UInt8) : List Char :=
  [hexDigit upper (b.toNat / 16), hexDigit upper (b.toNat % 16)]

/-- Lower-case hexadecimal, two digits a byte. -/
def hexEncode (bytes : Bytes) : List Char := bytes.flatMap (hexByte false)

theorem hexDigit_injective (upper : Bool) {i j : ℕ} (hi : i < 16) (hj : j < 16)
    (h : hexDigit upper i = hexDigit upper j) : i = j := by
  have hall : ∀ (u : Bool) (i j : Fin 16), hexDigit u i.val = hexDigit u j.val → i = j := by
    decide
  exact congrArg Fin.val (hall upper ⟨i, hi⟩ ⟨j, hj⟩ h)

theorem hexByte_injective (upper : Bool) : Function.Injective (hexByte upper) := by
  intro a b h
  simp only [hexByte, List.cons.injEq, and_true] at h
  have ha := a.toNat_lt
  have hb := b.toNat_lt
  have hhi := hexDigit_injective upper (by omega) (by omega) h.1
  have hlo := hexDigit_injective upper (by omega) (by omega) h.2
  exact UInt8.toNat_inj.mp (by omega)

theorem hexEncode_injective : Function.Injective hexEncode := by
  intro a
  induction a with
  | nil =>
    intro b h
    cases b with
    | nil => rfl
    | cons y b => simp [hexEncode, hexByte] at h
  | cons x a ih =>
    intro b h
    cases b with
    | nil => simp [hexEncode, hexByte] at h
    | cons y b =>
      simp only [hexEncode, List.flatMap_cons] at h
      obtain ⟨hxy, hab⟩ := List.append_inj h rfl
      rw [hexByte_injective false hxy, ih hab]

/-- A byte, of which one digit may be a plus sign: `u8::from_str_radix(_, 16)` -/
def unhexByte (a b : Char) : Option UInt8 := do
  let digit (c : Char) : Option ℕ :=
    if c.isDigit then some (c.toNat - '0'.toNat)
    else if 'a' ≤ c ∧ c ≤ 'f' then some (c.toNat - 'a'.toNat + 10)
    else if 'A' ≤ c ∧ c ≤ 'F' then some (c.toNat - 'A'.toNat + 10)
    else none
  let hi ← if a = '+' then some 0 else digit a
  let lo ← digit b
  some (UInt8.ofNat (hi * 16 + lo))

def unhex : List Char → Option Bytes
  | [] => some []
  | [_] => none
  | a :: b :: rest => do
    let byte ← unhexByte a b
    let bytes ← unhex rest
    some (byte :: bytes)

theorem unhex_hexEncode (bytes : Bytes) : unhex (hexEncode bytes) = some bytes := by
  induction bytes with
  | nil => rfl
  | cons b bytes ih =>
    have hall : ∀ i j : Fin 16, unhexByte (hexDigit false i.val) (hexDigit false j.val) =
        some (UInt8.ofNat (i.val * 16 + j.val)) := by
      decide
    have hlt := b.toNat_lt
    have hbyte := hall ⟨b.toNat / 16, by omega⟩ ⟨b.toNat % 16, by omega⟩
    have hval : UInt8.ofNat (b.toNat / 16 * 16 + b.toNat % 16) = b := by
      rw [Nat.div_add_mod' b.toNat 16, UInt8.ofNat_toNat]
    rw [hval] at hbyte
    simp only [hexEncode, List.flatMap_cons, hexByte, List.cons_append, List.nil_append, unhex] at ih ⊢
    rw [hbyte, ih]
    rfl

/-! ### UTF-8 -/

/-- `String::from_utf8` -/
def fromUtf8 (bytes : Bytes) : Option String := String.fromUTF8? ⟨bytes.toArray⟩

def utf8Bytes (s : String) : Bytes := s.toByteArray.data.toList

theorem utf8Bytes_of_fromUtf8 {bytes : Bytes} {s : String} (h : fromUtf8 bytes = some s) :
    utf8Bytes s = bytes := by
  unfold fromUtf8 String.fromUTF8? at h
  split at h
  · cases h
    rfl
  · cases h

def isContinuation (b : UInt8) : Bool := 0x80 ≤ b && b ≤ 0xBF

/-- The character that starts here and its length; or the length of what is cut off of one. -/
def utf8Char : Bytes → Option Char × ℕ
  | [] => (none, 0)
  | b₀ :: rest =>
    -- the bytes of the character, as far as there are some
    let bits (b : UInt8) : ℕ := b.toNat % 64
    let b₁ := rest.headD 0
    let b₂ := (rest.drop 1).headD 0
    let b₃ := (rest.drop 2).headD 0
    if b₀ < 0x80 then (some (Char.ofNat b₀.toNat), 1)
    else if 0xC2 ≤ b₀ && b₀ ≤ 0xDF then
      if isContinuation b₁ then (some (Char.ofNat (b₀.toNat % 32 * 64 + bits b₁)), 2) else (none, 1)
    else if 0xE0 ≤ b₀ && b₀ ≤ 0xEF then
      -- no character has a longer form than it needs, and none is a surrogate
      let lo : UInt8 := if b₀ = 0xE0 then 0xA0 else 0x80
      let hi : UInt8 := if b₀ = 0xED then 0x9F else 0xBF
      if lo ≤ b₁ && b₁ ≤ hi then
        if isContinuation b₂ then
          (some (Char.ofNat (b₀.toNat % 16 * 4096 + bits b₁ * 64 + bits b₂)), 3)
        else (none, 2)
      else (none, 1)
    else if 0xF0 ≤ b₀ && b₀ ≤ 0xF4 then
      -- no longer form, and none beyond the last code point
      let lo : UInt8 := if b₀ = 0xF0 then 0x90 else 0x80
      let hi : UInt8 := if b₀ = 0xF4 then 0x8F else 0xBF
      if lo ≤ b₁ && b₁ ≤ hi then
        if isContinuation b₂ then
          if isContinuation b₃ then
            (some (Char.ofNat (b₀.toNat % 8 * 262144 + bits b₁ * 4096 + bits b₂ * 64 + bits b₃)), 4)
          else (none, 3)
        else (none, 2)
      else (none, 1)
    else (none, 1)

/-- What cannot be decoded becomes one U+FFFD a piece; each step takes at least one byte. -/
def utf8LossyChars : ℕ → Bytes → List Char
  | 0, _ => []
  | _, [] => []
  | n + 1, bytes =>
    let (c, len) := utf8Char bytes
    c.getD '\uFFFD' :: utf8LossyChars n (bytes.drop len)

/-- `String::from_utf8_lossy` -/
def fromUtf8Lossy (bytes : Bytes) : String := String.ofList (utf8LossyChars bytes.length bytes)

/-! ### Base64 -/

theorem mapM_some_forall {α β : Type} {f : α → Option β} {as : List α} {bs : List β}
    (h : as.mapM f = some bs) : ∀ a ∈ as, ∃ b, f a = some b := by
  induction as generalizing bs with
  | nil => simp
  | cons a as ih =>
    simp only [List.mapM_cons, Option.bind_eq_bind, Option.bind_eq_some_iff] at h
    obtain ⟨b, hb, bs', hbs, _⟩ := h
    intro x hx
    rcases List.mem_cons.mp hx with rfl | hx
    · exact ⟨b, hb⟩
    · exact ih hbs x hx

def base64Val (c : Char) : Option ℕ :=
  let n := c.toNat
  if 'A' ≤ c ∧ c ≤ 'Z' then some (n - 'A'.toNat)
  else if 'a' ≤ c ∧ c ≤ 'z' then some (n - 'a'.toNat + 26)
  else if '0' ≤ c ∧ c ≤ '9' then some (n - '0'.toNat + 52)
  else if c = '+' then some 62
  else if c = '/' then some 63
  else none

/-- Four characters: up to two trailing `=` leave out as many bytes. -/
def base64Chunk (chunk : List Char) : Option Bytes :=
  let pad := (chunk.reverse.takeWhile (· = '=')).length
  if pad > 2 then none
  else do
    let vals ← (chunk.take (4 - pad)).mapM base64Val
    let n := vals.foldl (fun n v => n * 64 + v) 0 * 64 ^ pad
    some ([UInt8.ofNat (n / 65536), UInt8.ofNat (n / 256), UInt8.ofNat n].take (3 - pad))

/-- Standard base64 (with padding) decoder, used only to extract key IDs. A character outside
ASCII is never part of an accepted text, so counting characters or bytes is the same. -/
def base64Decode : List Char → Option Bytes
  | [] => some []
  | a :: b :: c :: d :: rest => do
    let chunk ← base64Chunk [a, b, c, d]
    let bytes ← base64Decode rest
    some (chunk ++ bytes)
  | _ => none

def isBase64Char (c : Char) : Bool := (base64Val c).isSome || c = '='

theorem base64Chunk_chars {chunk : List Char} {out : Bytes}
    (h : base64Chunk chunk = some out) (hlen : chunk.length = 4) :
    ∀ c ∈ chunk, isBase64Char c = true := by
  let pads := chunk.reverse.takeWhile (· = '=')
  let rest := chunk.reverse.dropWhile (· = '=')
  -- a chunk is its digits and then its padding
  have hsplit : chunk = rest.reverse ++ pads.reverse := by
    rw [← List.reverse_append, List.takeWhile_append_dropWhile, List.reverse_reverse]
  have hrest : chunk.take (4 - pads.length) = rest.reverse := by
    have hl : rest.reverse.length = 4 - pads.length := by
      have hsum := congrArg List.length hsplit
      simp only [List.length_append, List.length_reverse] at hsum ⊢
      omega
    rw [← hl]
    conv_lhs => rw [hsplit]
    exact List.take_left' rfl
  have hvals : ∃ vals, (chunk.take (4 - pads.length)).mapM base64Val = some vals := by
    simp only [base64Chunk] at h
    split at h
    · cases h
    · obtain ⟨vals, hv, _⟩ := Option.bind_eq_some_iff.mp h
      exact ⟨vals, hv⟩
  obtain ⟨vals, hvals⟩ := hvals
  rw [hrest] at hvals
  intro c hc
  rw [hsplit] at hc
  rcases List.mem_append.mp hc with hc | hc
  · obtain ⟨v, hv⟩ := mapM_some_forall hvals c hc
    simp [isBase64Char, hv]
  · have hall := List.all_takeWhile (l := chunk.reverse) (p := fun x => decide (x = '='))
    have heq := List.all_eq_true.mp hall c (List.mem_reverse.mp hc)
    simp [isBase64Char, of_decide_eq_true heq]

theorem base64Decode_chars {s : List Char} {out : Bytes} (h : base64Decode s = some out) :
    ∀ c ∈ s, isBase64Char c = true := by
  induction s using base64Decode.induct generalizing out with
  | case1 => simp
  | case2 a b c d rest ih =>
    simp only [base64Decode, Option.bind_eq_bind, Option.bind_eq_some_iff] at h
    obtain ⟨chunk, hchunk, bytes, hbytes, _⟩ := h
    intro x hx
    have hx' : x ∈ [a, b, c, d] ++ rest := by simpa using hx
    rcases List.mem_append.mp hx' with hx' | hx'
    · exact base64Chunk_chars hchunk rfl x hx'
    · exact ih hbytes x hx'
  | case3 s h1 h2 =>
    rcases s with _ | ⟨a, _ | ⟨b, _ | ⟨c, _ | ⟨d, rest⟩⟩⟩⟩ <;> simp_all [base64Decode]

/-- The alphabet lies between `+` and `z`, where there is no white space. -/
theorem isBase64Char_range {c : Char} (h : isBase64Char c = true) :
    0x2B ≤ c.toNat ∧ c.toNat ≤ 0x7A := by
  have hle (a b : Char) : a ≤ b ↔ a.toNat ≤ b.toNat := Iff.rfl
  simp only [isBase64Char, base64Val, Bool.or_eq_true, decide_eq_true_eq, hle] at h
  rcases h with h | rfl
  · split_ifs at h with h1 h2 h3 h4 h5
    · simp only [Char.reduceToNat] at h1
      omega
    · simp only [Char.reduceToNat] at h2
      omega
    · simp only [Char.reduceToNat] at h3
      omega
    · rw [h4]
      decide
    · rw [h5]
      decide
    · simp at h
  · decide

theorem isBase64Char_not_whitespace {c : Char} (h : isBase64Char c = true) :
    isWhitespace c = false := by
  have hr := isBase64Char_range h
  simp only [isWhitespace, Bool.or_eq_false_iff, Bool.and_eq_false_iff, decide_eq_false_iff_not,
    beq_eq_false_iff_ne]
  omega

theorem trim_eq_self {s : List Char} (h : ∀ c ∈ s, isWhitespace c = false) : trim s = s := by
  have hdrop (l : List Char) (hl : ∀ c ∈ l, isWhitespace c = false) :
      l.dropWhile isWhitespace = l := by
    cases l with
    | nil => rfl
    | cons a l => simp [hl a (by simp)]
  unfold trim
  rw [hdrop s h, hdrop s.reverse (fun c hc => h c (List.mem_reverse.mp hc)), List.reverse_reverse]

/-- Text without a line feed is one line. -/
theorem lines_singleton {s : List Char} (hne : s ≠ []) (hn : '\n' ∉ s) : lines s = [s] := by
  have hsplit : s.splitOn '\n' = [s] := by
    apply List.splitOnP_eq_singleton
    intro c hc
    simpa using fun heq : c = '\n' => hn (heq ▸ hc)
  cases s with
  | nil => exact absurd rfl hne
  | cons a s => simp [lines, hsplit]

end AbyssalWarden
