import AbyssalWarden.ContentState

/-! The revoked keys of the state file, as a scan that loads bundles reads them and as one that
loads none does. -/
namespace AbyssalWarden

namespace ContentState

/-- Read only the revoked keys from the state at `path`, without locking or creating anything; a
missing file means none. `fault` is an error from opening or reading the file. -/
def readRevokedKeys (codec : StateCodec) (path : String) (fault : Option IoKind)
    (file : Option Bytes) : Except StateError (List String) := do
  refuseSome fault (.io path)
  match file with
  | none => .ok []
  | some bytes =>
    let bytes := bytes.take (maxStateBytes + 1)
    let data ← (codec.fromSlice bytes).mapError (.corrupt path)
    .ok data.revokedKeys.keys

end ContentState

section Readers

variable {codec : StateCodec} {path : String} {fault : Option IoKind} {file : Option Bytes}
variable {bytes : Bytes}

/-- What stands in a state file that its owner opens. -/
structure StateFile.Opens (codec : StateCodec) (bytes : Bytes) (data : StateFile) : Prop where
  length_le : bytes.length ≤ maxStateBytes
  parses : codec.fromSlice bytes = .ok data
  formatVersion_eq : data.formatVersion = 1

theorem openState_eq_ok {s : ContentState} :
    ContentState.openState codec path none (some bytes) = .ok s ↔
      s.path = path ∧ StateFile.Opens codec bytes s.data := by
  obtain ⟨path', data⟩ := s
  simp only [ContentState.openState, refuseSome, except_ok_bind, except_bind_eq_ok, refuseIf_eq_ok,
    mapError_eq_ok, exists_const, List.length_take, Except.ok.injEq, ContentState.mk.injEq]
  constructor
  · intro h
    obtain ⟨hsize, data', hdata, hversion, hpath, hsame⟩ := h
    have hle : bytes.length ≤ maxStateBytes := by omega
    rw [List.take_of_length_le (by omega), hsame] at hdata
    rw [hsame] at hversion
    exact ⟨hpath.symm, hle, hdata, not_not.mp hversion⟩
  · intro h
    obtain ⟨hpath, hle, hdata, hversion⟩ := h
    refine ⟨by omega, data, ?_, not_not.mpr hversion, hpath.symm, rfl⟩
    rw [List.take_of_length_le (by omega)]
    exact hdata

theorem readRevokedKeys_eq_ok (path : String) {ids : List String} :
    ContentState.readRevokedKeys codec path none (some bytes) = .ok ids ↔
      ∃ data, codec.fromSlice (bytes.take (maxStateBytes + 1)) = .ok data ∧
        data.revokedKeys.keys = ids := by
  simp only [ContentState.readRevokedKeys, refuseSome, except_ok_bind, except_bind_eq_ok,
    mapError_eq_ok, Except.ok.injEq]

/-- The two readers agree: what one lists is what the other opens. -/
def ReadersAgree (codec : StateCodec) (path : String) (fault : Option IoKind)
    (file : Option Bytes) : Prop :=
  ∀ ids, ContentState.readRevokedKeys codec path fault file = .ok ids ↔
    ∃ s, ContentState.openState codec path fault file = .ok s ∧ s.revokedKeys = ids

/-- What stands in the file is no state as far as it is read, or a state of the known format that
is read whole. -/
def WholeOrNoState (codec : StateCodec) (bytes : Bytes) : Prop :=
  ∀ data, codec.fromSlice (bytes.take (maxStateBytes + 1)) = .ok data →
    bytes.length ≤ maxStateBytes ∧ data.formatVersion = 1

/-- The readers of the revoked keys agree just when the file cannot be opened or is missing, when
it holds no state, or when its state is of a known format and within the limit. -/
theorem readers_agree_iff (codec : StateCodec) (path : String) (fault : Option IoKind)
    (file : Option Bytes) :
    ReadersAgree codec path fault file ↔
      fault.isSome ∨ ∀ bytes, file = some bytes → WholeOrNoState codec bytes := by
  -- a file that cannot be opened and one that is missing are the same to both readers
  cases fault with
  | some e =>
    have hopen (s : ContentState) : ContentState.openState codec path (some e) file ≠ .ok s :=
      fun h => nomatch h
    have hread (ids : List String) :
        ContentState.readRevokedKeys codec path (some e) file ≠ .ok ids := fun h => nomatch h
    exact iff_of_true (fun ids => iff_of_false (hread ids) fun ⟨s, h, _⟩ => hopen s h) (.inl rfl)
  | none =>
    cases file with
    | none =>
      refine iff_of_true (fun ids => ?_) (.inr fun _ h => nomatch h)
      constructor
      · intro h
        have hids : [] = ids := Except.ok.inj h
        refine ⟨⟨path, StateFile.empty⟩, rfl, ?_⟩
        rw [← hids]
        rfl
      · intro h
        obtain ⟨s, hs, hids⟩ := h
        have hs : (⟨path, StateFile.empty⟩ : ContentState) = s := Except.ok.inj hs
        rw [← hids, ← hs]
        rfl
    | some bytes =>
      have hcases : (none : Option IoKind).isSome = true ∨
          (∀ b, some bytes = some b → WholeOrNoState codec b) ↔ WholeOrNoState codec bytes := by
        simp
      rw [hcases]
      -- the lax reader takes the limit's bytes of any state; the strict one looks at length and version
      constructor
      · intro hagree data hdata
        have hread := (readRevokedKeys_eq_ok path).mpr ⟨data, hdata, rfl⟩
        obtain ⟨s, hopen, _⟩ := (hagree _).mp hread
        have hopens := (openState_eq_ok.mp hopen).2
        have hle := hopens.length_le
        have hparses := hopens.parses
        rw [List.take_of_length_le (by omega)] at hdata
        have hsame : s.data = data := Except.ok.inj (hparses.symm.trans hdata)
        exact ⟨hle, hsame ▸ hopens.formatVersion_eq⟩
      · intro hwhole ids
        rw [readRevokedKeys_eq_ok]
        constructor
        · intro h
          obtain ⟨data, hdata, hids⟩ := h
          obtain ⟨hle, hversion⟩ := hwhole data hdata
          rw [List.take_of_length_le (by omega)] at hdata
          exact ⟨⟨path, data⟩, openState_eq_ok.mpr ⟨rfl, hle, hdata, hversion⟩, hids⟩
        · intro h
          obtain ⟨s, hopen, hids⟩ := h
          have hopens := (openState_eq_ok.mp hopen).2
          have hle := hopens.length_le
          refine ⟨s.data, ?_, hids⟩
          rw [List.take_of_length_le (by omega)]
          exact hopens.parses

/-- The state of a later version, as it is written. -/
def laterState : StateFile := { StateFile.empty with formatVersion := 2 }

def laterStateJson : Bytes :=
  utf8Bytes "\x7b\n  \"format_version\": 2,\n  \"bundles\": \x7b\x7d,\n  \"revoked_keys\": \x7b\x7d\n\x7d"

/-- Of the state of a later version the revoked keys are read, while it cannot be opened. -/
theorem later_state_readers_disagree :
    ContentState.readRevokedKeys (codecOf laterState laterStateJson) "content-state.json" none
        (some laterStateJson) = .ok [] ∧
      ContentState.openState (codecOf laterState laterStateJson) "content-state.json" none
        (some laterStateJson) =
          .error (.corrupt "content-state.json" "unsupported format_version") ∧
      ¬ ReadersAgree (codecOf laterState laterStateJson) "content-state.json" none
        (some laterStateJson) := by
  have hparses : (codecOf laterState laterStateJson).fromSlice
      (laterStateJson.take (maxStateBytes + 1)) = .ok laterState := by
    have hlength : laterStateJson.length ≤ maxStateBytes + 1 := by decide
    rw [List.take_of_length_le hlength]
    rfl
  have hread : ContentState.readRevokedKeys (codecOf laterState laterStateJson)
      "content-state.json" none (some laterStateJson) = .ok [] :=
    (readRevokedKeys_eq_ok _).mpr ⟨laterState, hparses, rfl⟩
  have hopen : ContentState.openState (codecOf laterState laterStateJson) "content-state.json" none
      (some laterStateJson) = .error (.corrupt "content-state.json" "unsupported format_version") :=
    rfl
  refine ⟨hread, hopen, fun hagree => ?_⟩
  obtain ⟨s, hs, _⟩ := (hagree []).mp hread
  rw [hopen] at hs
  exact nomatch hs

end Readers

end AbyssalWarden
