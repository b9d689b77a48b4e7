import AbyssalWarden.Checked
import AbyssalWarden.Collect
import AbyssalWarden.Sddl
import AbyssalWarden.TextFields

/-! Reading security descriptor strings, and the checks that are made of them. -/
namespace AbyssalWarden

namespace Sddl

/-- The right that each two-letter code stands for. -/
def rightCodes : List (String × ℕ) :=
  [("GA", 0x10000000), ("GR", 0x80000000), ("GW", 0x40000000), ("GX", 0x20000000), ("RC", 0x00020000),
    ("SD", 0x00010000), ("WD", 0x00040000), ("WO", 0x00080000), ("RP", 0x10), ("WP", 0x20), ("CC", 0x1), ("DC", 0x2),
    ("LC", 0x4), ("SW", 0x8), ("LO", 0x80), ("DT", 0x40), ("CR", 0x100), ("FA", 0x001f01ff), ("FR", 0x00120089),
    ("FW", 0x00120116), ("FX", 0x001200a0), ("KA", 0x000f003f), ("KR", 0x00020019), ("KW", 0x00020006),
    ("KX", 0x00020019)]

/-- The rights of two-letter codes, one after another. -/
def codeRights (mask : ℕ) : List Char → Option ℕ
  | [] => some mask
  | [_] => none
  | a :: b :: rest => do
    let right ← rightCodes.lookup (String.ofList [a, b])
    codeRights (mask ||| right) rest

/-- Access mask of an SDDL rights string. -/
def rights (s : List Char) : Option ℕ :=
  match s with
  | '0' :: 'x' :: hex => parseHexU32 hex
  | '0' :: 'X' :: hex => parseHexU32 hex
  | s => codeRights 0 s

/-- Why a descriptor is not read: it is refused, or a slice does not end at a character. -/
inductive Stop where
  | unreadable
  | panicked
  deriving DecidableEq

/-- A text at a byte position; `none` where that lies inside a character, or past the end. -/
def splitAtBytes : ℕ → List Char → Option (List Char × List Char)
  | 0, s => some ([], s)
  | _ + 1, [] => none
  | n + 1, c :: s =>
    if c.utf8Size ≤ n + 1 then (splitAtBytes (n + 1 - c.utf8Size) s).map fun (a, b) => (c :: a, b) else none

def isSidChar (c : Char) : Bool := c.isDigit || c = '-' || c = 'S'

/-- A SID value in an SDDL owner or group field: `S-...` or a two-letter alias. -/
def takeSid (s : List Char) : Except Stop (List Char × List Char) :=
  if "S-".toList.isPrefixOf s then .ok (s.span isSidChar)
  else (splitAtBytes (min 2 (s.map Char.utf8Size).sum) s).elim (.error .panicked) .ok

/-- The flags of an ACL, up to its first entry, or else up to the tag of the next part. -/
def takeFlags (body : List Char) : Except Stop (List Char × List Char) :=
  if '(' ∈ body then .ok (body.span (· ≠ '('))
  else
    let bytes := if ':' ∈ body then ((body.takeWhile (· ≠ ':')).map Char.utf8Size).sum - 1
      else (body.map Char.utf8Size).sum
    (splitAtBytes bytes body).elim (.error .panicked) .ok

/-- Whether an entry of this type allows; `none` for an unknown type. -/
def aceAllows (type : List Char) : Option Bool :=
  if type ∈ ["A".toList, "OA".toList, "XA".toList, "ZA".toList] then some true
  else if type ∈ ["D".toList, "OD".toList, "XD".toList] then some false
  else none

/-- One entry of the DACL, without its parentheses. -/
def parseAce (inner : List Char) (dacl : Option (List Ace)) : Option (Option (List Ace)) :=
  match inner.splitOn ';' with
  | type :: flags :: mask :: _ :: _ :: sid :: _ => do
    let allow ← aceAllows type
    match dacl with
    | none => some none
    | some list =>
      let mask ← rights mask
      some (some (list ++ [⟨allow, "IO".toList <:+: flags, mask, normalizeSid (String.ofList sid)⟩]))
  | _ => none

/-- The entries of an ACL, of which only those of the DACL are looked at. -/
def parseAces (isDacl : Bool) (s : List Char) (dacl : Option (List Ace)) :
    Option (Option (List Ace) × List Char) :=
  match s with
  | '(' :: inner =>
    match _hsplit : splitOnce ')' inner with
    | none => none
    | some (ace, rest) =>
      match if isDacl then parseAce ace dacl else some dacl with
      | none => none
      | some dacl => parseAces isDacl rest dacl
  | rest => some (dacl, rest)
termination_by s.length
decreasing_by
  have hlength := splitOnce_length _hsplit
  simp only [List.length_cons]
  omega

/-- An owner or group part, of which only the owner is kept. -/
def parseSid (isOwner : Bool) (d : Descriptor) (body : List Char) : Except Stop (Descriptor × List Char) := do
  let (sid, r) ← takeSid body
  if sid = [] then .error .unreadable
  else .ok (if isOwner then { d with owner := some (normalizeSid (String.ofList sid)) } else d, r)

/-- An ACL part, of which only the DACL is kept. -/
def parseAcl (isDacl : Bool) (d : Descriptor) (body : List Char) : Except Stop (Descriptor × List Char) := do
  let (flags, r) ← takeFlags body
  let d := if isDacl then
      { d with
        isProtected := 'P' ∈ flags
        dacl := if "NO_ACCESS_CONTROL".toList <:+: flags then none else some [] }
    else d
  match parseAces isDacl r d.dacl with
  | none => .error .unreadable
  | some (dacl, r) => .ok ({ d with dacl := dacl }, r)

/-- One round of the loop of `parse`: a part, and what follows it. -/
def parsePart (d : Descriptor) (rest : List Char) : Except Stop (Descriptor × List Char) :=
  match splitAtBytes 2 rest with
  | none => .error .unreadable
  | some (tag, body) =>
    if tag = "O:".toList then parseSid true d body
    else if tag = "G:".toList then parseSid false d body
    else if tag = "D:".toList then parseAcl true d body
    else if tag = "S:".toList then parseAcl false d body
    else .error .unreadable

variable {n : ℕ} {s a b r rest : List Char} {d d' : Descriptor} {isDacl : Bool} {dacl dacl' : Option (List Ace)}

theorem splitAtBytes_append (h : splitAtBytes n s = some (a, b)) : a ++ b = s := by
  induction s generalizing n a with
  | nil =>
    cases n with
    | zero =>
      obtain ⟨rfl, rfl⟩ := Prod.mk.inj (Option.some.inj h)
      rfl
    | succ n => cases h
  | cons c s ih =>
    cases n with
    | zero =>
      obtain ⟨rfl, rfl⟩ := Prod.mk.inj (Option.some.inj h)
      rfl
    | succ n =>
      unfold splitAtBytes at h
      split at h
      · obtain ⟨⟨a', b'⟩, hrest, heq⟩ := Option.map_eq_some_iff.mp h
        obtain ⟨rfl, rfl⟩ := Prod.mk.inj heq
        rw [List.cons_append, ih hrest]
      · cases h

theorem splitAtBytes_succ_length (h : splitAtBytes (n + 1) s = some (a, b)) : b.length < s.length := by
  have happend := splitAtBytes_append h
  cases a with
  | nil =>
    cases s with
    | nil => cases h
    | cons c s =>
      unfold splitAtBytes at h
      split at h
      · obtain ⟨⟨a', b'⟩, -, heq⟩ := Option.map_eq_some_iff.mp h
        cases (Prod.mk.inj heq).1
      · cases h
  | cons c a =>
    rw [← happend, List.length_append, List.length_cons]
    omega

theorem takeSid_append (h : takeSid s = .ok (a, b)) : a ++ b = s := by
  unfold takeSid at h
  split at h
  · rw [List.span_eq_takeWhile_dropWhile] at h
    obtain ⟨rfl, rfl⟩ := Prod.mk.inj (Except.ok.inj h)
    exact List.takeWhile_append_dropWhile
  · cases hsplit : splitAtBytes (min 2 (s.map Char.utf8Size).sum) s with
    | none =>
      rw [hsplit] at h
      cases h
    | some ab =>
      rw [hsplit] at h
      obtain rfl := Except.ok.inj h
      exact splitAtBytes_append hsplit

theorem takeFlags_append (h : takeFlags s = .ok (a, b)) : a ++ b = s := by
  unfold takeFlags at h
  split at h
  · rw [List.span_eq_takeWhile_dropWhile] at h
    obtain ⟨rfl, rfl⟩ := Prod.mk.inj (Except.ok.inj h)
    exact List.takeWhile_append_dropWhile
  · simp only at h
    split at h
    all_goals
      cases hsplit : splitAtBytes _ s with
      | none =>
        rw [hsplit] at h
        cases h
      | some ab =>
        rw [hsplit] at h
        obtain rfl := Except.ok.inj h
        exact splitAtBytes_append hsplit

/-- What follows an ACL is no longer than the ACL with it. -/
theorem parseAces_length (h : parseAces isDacl s dacl = some (dacl', r)) : r.length ≤ s.length := by
  fun_induction parseAces isDacl s dacl with
  | case1 => cases h
  | case2 => cases h
  | case3 dacl inner ace rest hsplit dacl₁ hace ih =>
    have hlength := splitOnce_length hsplit
    have hrest := ih h
    rw [List.length_cons]
    omega
  | case4 =>
    obtain ⟨-, rfl⟩ := Prod.mk.inj (Option.some.inj h)
    exact Nat.le_refl _

theorem parseSid_length {isOwner : Bool} (h : parseSid isOwner d s = .ok (d', r)) : r.length ≤ s.length := by
  unfold parseSid at h
  obtain ⟨⟨sid, r'⟩, hsid, h⟩ := except_bind_eq_ok.mp h
  have happend := congrArg List.length (takeSid_append hsid)
  rw [List.length_append] at happend
  simp only at h
  split at h
  · cases h
  · obtain ⟨-, rfl⟩ := Prod.mk.inj (Except.ok.inj h)
    omega

theorem parseAcl_length (h : parseAcl isDacl d s = .ok (d', r)) : r.length ≤ s.length := by
  unfold parseAcl at h
  obtain ⟨⟨flags, r'⟩, hflags, h⟩ := except_bind_eq_ok.mp h
  have happend := congrArg List.length (takeFlags_append hflags)
  rw [List.length_append] at happend
  simp only at h
  split at h
  · cases h
  · rename_i dacl r'' haces
    obtain ⟨-, rfl⟩ := Prod.mk.inj (Except.ok.inj h)
    have hrest := parseAces_length haces
    omega

theorem parsePart_length (h : parsePart d rest = .ok (d', r)) : r.length < rest.length := by
  unfold parsePart at h
  split at h
  · cases h
  · rename_i tag body hsplit
    have hbody := splitAtBytes_succ_length hsplit
    suffices hle : r.length ≤ body.length by omega
    split at h
    · exact parseSid_length h
    split at h
    · exact parseSid_length h
    split at h
    · exact parseAcl_length h
    split at h
    · exact parseAcl_length h
    · cases h

/-- The loop of `parse`. -/
def parseParts (d : Descriptor) (rest : List Char) : Except Stop Descriptor :=
  if rest = [] then .ok d
  else
    match _hpart : parsePart d rest with
    | .error e => .error e
    | .ok (d, r) => parseParts d r
termination_by rest.length
decreasing_by exact parsePart_length _hpart

/-- Parses owner and DACL of an SDDL string. Group and SACL are skipped. -/
def parse (sddl : String) : Except Stop Descriptor := parseParts ⟨none, false, none⟩ (trim sddl.toList)

/-! ### The checks -/

/-- Rights that let a principal change a file or directory, or its security. -/
def writeRights : ℕ :=
  0x2 ||| 0x4 ||| 0x10 ||| 0x40 ||| 0x100 ||| 0x00010000 ||| 0x00040000 ||| 0x00080000 ||| 0x10000000 ||| 0x40000000

/-- What a check answers: `none` is a panic. -/
def checked (sddl : String) (check : Descriptor → Except String Unit) : Option (Except String Unit) :=
  match parse sddl with
  | .error .panicked => none
  | .error .unreadable => some (.error "unreadable security descriptor")
  | .ok d => some (check d)

/-- Checks a private directory's descriptor: protected, and no principal other than `trusted` has any access. -/
def checkPrivate (sddl : String) (trusted : List String) : Option (Except String Unit) :=
  checked sddl fun d =>
    if d.isProtected = false then .error "the DACL inherits from the parent directory"
    else
      let others := grantedToOthers d (2^32 - 1) trusted
      if others = [] then .ok ()
      else .error ("other principals have access: " ++ ", ".intercalate others)

/-- The owner, who can rewrite the DACL unless an OWNER RIGHTS entry limits it. -/
def untrustedOwner (d : Descriptor) (trusted others : List String) : List String :=
  let limited := d.dacl.any fun acl => acl.any fun a => a.sid = ownerRights && !a.inheritOnly
  match d.owner with
  | some owner =>
    if limited = false ∧ owner ∉ trusted.map normalizeSid ∧ owner ∉ others then [owner ++ " (owner)"] else []
  | none => []

/-- Checks that only `trusted` principals can modify an object. -/
def checkWriteRestricted (sddl : String) (trusted : List String) : Option (Except String Unit) :=
  checked sddl fun d =>
    let granted := grantedToOthers d writeRights trusted
    let others := granted ++ untrustedOwner d trusted granted
    if others = [] then .ok () else .error ("writable by " ++ ", ".intercalate others)

end Sddl

end AbyssalWarden
