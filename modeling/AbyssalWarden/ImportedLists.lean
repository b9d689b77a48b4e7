import AbyssalWarden.HashImport

/-! An imported hash list loads when no two of its hashes share an identifier, and leads from each hash to its name. -/
namespace AbyssalWarden.Signatures

/-- Each element is mapped to the one at its place. -/
theorem mapM_eq_some_iff {α β : Type} {f : α → Option β} {as : List α} {bs : List β} :
    as.mapM f = some bs ↔ List.Forall₂ (fun a b => f a = some b) as bs := by
  induction as generalizing bs with
  | nil =>
    rw [List.mapM_nil, List.forall₂_nil_left_iff]
    exact Option.some_inj.trans eq_comm
  | cons a as ih =>
    simp only [List.mapM_cons, Option.bind_eq_bind, Option.bind_eq_some_iff]
    constructor
    · rintro ⟨b, hb, bs', hbs', heq⟩
      obtain rfl := Option.some.inj heq
      exact .cons hb (ih.mp hbs')
    · intro h
      cases h with
      | cons hb hbs => exact ⟨_, hb, _, ih.mpr hbs, rfl⟩

section

variable {codec : ImportCodec} {m : HashImport} {hashes : HashGroups} {entry : String × String} {data : Bytes}
  {raw : RawDatabase} {db : HashSignatureDatabase} {sig : HashSignature} {sigs : List HashSignature}

/-- The metadata of the database. -/
def HashImport.info (m : HashImport) : DatabaseMeta := ⟨m.dbName, m.dbVersion, m.description, some m.license⟩

/-- What an entry says as a signature. -/
def EntryReads (m : HashImport) (entry : String × String) (sig : HashSignature) : Prop :=
  (signatureValue m entry).read = some sig

theorem EntryReads.spec (h : EntryReads m entry sig) :
    sig.id = (idAndName entry.1 entry.2 m).1 ∧ sig.name = (idAndName entry.1 entry.2 m).2 ∧
      digestFromStr entry.1 = some sig.sha256 := by
  simp only [EntryReads, SignatureValue.read, Option.bind_eq_bind, Option.bind_eq_some_iff] at h
  obtain ⟨sha256, hsha256, category, -, severity, -, version, -, heq⟩ := h
  obtain rfl := Option.some.inj heq
  simp only [signatureValue] at hsha256 ⊢
  exact ⟨trivial, trivial, hsha256⟩

theorem read_importDocument : (importDocument hashes m).read = some raw ↔
    raw.database = m.info ∧ List.Forall₂ (EntryReads m) hashes.entries raw.signatures := by
  simp only [ImportDocument.read, Option.bind_eq_bind, Option.bind_eq_some_iff, importDocument, mapM_eq_some_iff,
    List.forall₂_map_left_iff]
  constructor
  · rintro ⟨sigs, hsigs, heq⟩
    obtain rfl := Option.some.inj heq
    exact ⟨rfl, hsigs⟩
  · rintro ⟨hinfo, hsigs⟩
    refine ⟨raw.signatures, hsigs, congrArg some ?_⟩
    cases raw
    cases hinfo
    rfl

theorem hashDatabase_eq_ok : hashDatabase codec hashes m = .ok data ↔
    codec.toVecPretty (importDocument hashes m) = .ok data ∧ ∃ db, fromSlice codec.serde data = .ok db := by
  simp only [hashDatabase, except_bind_eq_ok, mapError_eq_ok]
  constructor
  · rintro ⟨data', hwritten, db, hload, heq⟩
    obtain rfl := Except.ok.inj heq
    exact ⟨hwritten, db, hload⟩
  · rintro ⟨hwritten, db, hload⟩
    exact ⟨data, hwritten, db, hload, rfl⟩

/-- A written document loads when it is within the limits, keeps the rules and repeats nothing. -/
theorem fromSlice_written (hwritten : codec.toVecPretty (importDocument hashes m) = .ok data) :
    fromSlice codec.serde data = .ok db ↔ data.length ≤ maxDatabaseBytes ∧ m.info.Valid ∧
      ∃ sigs, List.Forall₂ (EntryReads m) hashes.entries sigs ∧ sigs.length ≤ maxSignatures ∧
        (∀ sig ∈ sigs, sig.Valid) ∧ (sigs.map (·.id)).Nodup ∧ (sigs.map (·.sha256)).Nodup ∧
        db = indexed m.info sigs := by
  rw [fromSlice_eq_ok]
  constructor
  · rintro ⟨raw, h, rfl⟩
    obtain ⟨hinfo, hsigs⟩ := read_importDocument.mp ((codec.database _ _ _ hwritten).mp h.parsed)
    exact ⟨h.bounded, hinfo ▸ h.info, raw.signatures, hsigs, h.count, h.signatures, h.ids, h.hashes, by rw [hinfo]⟩
  · rintro ⟨hbounded, hinfo, sigs, hsigs, hcount, hvalid, hids, hhashes, rfl⟩
    have hparsed := (codec.database _ _ _ hwritten).mpr (read_importDocument.mpr ⟨rfl, hsigs⟩ : _ = some ⟨m.info, sigs⟩)
    exact ⟨⟨m.info, sigs⟩, ⟨hbounded, ⟨_, codec.header _ _ hwritten, rfl, rfl⟩, hparsed, hcount, hinfo, hvalid, hids,
      hhashes⟩, rfl⟩

theorem exists_of_forall₂ {α β : Type} {r : α → β → Prop} {as : List α} {bs : List β} {a : α}
    (h : List.Forall₂ r as bs) (ha : a ∈ as) : ∃ b ∈ bs, r a b := by
  induction h with
  | nil => cases ha
  | cons hab _ ih =>
    rcases List.mem_cons.mp ha with rfl | ha
    · exact ⟨_, List.mem_cons_self, hab⟩
    · obtain ⟨b, hb, hr⟩ := ih ha
      exact ⟨b, List.mem_cons_of_mem _ hb, hr⟩

/-! ### Which lists load -/

/-- A list whose identifiers differ, and whose metadata is valid even where no entry shows that it is. -/
structure HashGroups.Loadable (hashes : HashGroups) (m : HashImport) : Prop where
  apart : hashes.entries.Pairwise fun a b => ¬ (idPart a.2 = idPart b.2 ∧ shortHash a.1 = shortHash b.1)
  info : hashes.entries = [] → m.info.Valid

/-- Each hash leads to the name of its group, and any other digest to nothing. -/
structure HashSignatureDatabase.Answers (db : HashSignatureDatabase) (hashes : HashGroups) (m : HashImport) : Prop where
  found : ∀ entry ∈ hashes.entries, ∀ digest, entry.1 = Sha256Digest.toHex digest →
    ∃ sig, db.lookup digest = some sig ∧ sig.name = (idAndName entry.1 entry.2 m).2
  other : ∀ digest, Sha256Digest.toHex digest ∉ hashes.entries.map Prod.fst → db.lookup digest = none

/-- A map of lower-case SHA-256 values. -/
def HashGroups.LowerCase (hashes : HashGroups) : Prop :=
  ∀ entry ∈ hashes.entries, ∃ digest, entry.1 = Sha256Digest.toHex digest

theorem EntryReads.sha256_toHex {digest : Sha256Digest} (h : EntryReads m entry sig) (hkey : entry.1 = digest.toHex) :
    sig.sha256 = digest := by
  have hread := h.spec.2.2
  rw [hkey, digestFromStr_toHex] at hread
  exact (Option.some.inj hread).symm

theorem ids_eq (hsigs : List.Forall₂ (EntryReads m) hashes.entries sigs) :
    sigs.map (·.id) = hashes.entries.map fun entry => (idAndName entry.1 entry.2 m).1 := by
  have hsame : List.Forall₂ (· = ·) (hashes.entries.map fun entry => (idAndName entry.1 entry.2 m).1)
      (sigs.map (·.id)) := by
    rw [List.forall₂_map_left_iff, List.forall₂_map_right_iff]
    exact hsigs.imp fun entry sig h => h.spec.1.symm
  exact (List.forall₂_eq_eq_eq ▸ hsame : _ = _).symm

theorem hashes_eq (hlower : hashes.LowerCase) (hsigs : List.Forall₂ (EntryReads m) hashes.entries sigs) :
    (sigs.map (·.sha256)).map Sha256Digest.toHex = hashes.entries.map Prod.fst := by
  have hsame : List.Forall₂ (· = ·) (hashes.entries.map Prod.fst)
      ((sigs.map (·.sha256)).map Sha256Digest.toHex) := by
    rw [List.map_map, List.forall₂_map_left_iff, List.forall₂_map_right_iff]
    have hall := List.forall₂_and_left _ _ |>.mpr ⟨hlower, hsigs⟩
    refine hall.imp fun entry sig h => ?_
    obtain ⟨⟨digest, hkey⟩, hread⟩ := h
    rw [Function.comp_apply, hread.sha256_toHex hkey, hkey]
  exact (List.forall₂_eq_eq_eq ▸ hsame : _ = _).symm

/-- The identifiers repeat nothing exactly when no two hashes of a group start alike. -/
theorem ids_nodup_iff (hlower : hashes.LowerCase) (hsigs : List.Forall₂ (EntryReads m) hashes.entries sigs) :
    (sigs.map (·.id)).Nodup ↔
      hashes.entries.Pairwise fun a b => ¬ (idPart a.2 = idPart b.2 ∧ shortHash a.1 = shortHash b.1) := by
  have hlength : ∀ entry ∈ hashes.entries, 16 ≤ entry.1.toList.length := by
    intro entry hentry
    obtain ⟨digest, hkey⟩ := hlower entry hentry
    rw [hkey, toHex_length]
    decide
  rw [ids_eq hsigs, List.Nodup, List.pairwise_map]
  constructor
  · intro h
    refine h.imp_of_mem fun {a b} ha hb hne hsame => hne ?_
    exact (id_eq_iff (hlength a ha) (hlength b hb)).mpr hsame
  · intro h
    refine h.imp_of_mem fun {a b} ha hb hapart heq => hapart ?_
    exact (id_eq_iff (hlength a ha) (hlength b hb)).mp heq

theorem sha256_nodup (hlower : hashes.LowerCase) (hsigs : List.Forall₂ (EntryReads m) hashes.entries sigs) :
    (sigs.map (·.sha256)).Nodup := by
  have hkeys : (hashes.entries.map Prod.fst).Nodup := hashes.sorted.imp fun hlt => ne_of_lt hlt
  rw [← hashes_eq hlower hsigs] at hkeys
  exact hkeys.of_map _

theorem answers_indexed (hlower : hashes.LowerCase) (hsigs : List.Forall₂ (EntryReads m) hashes.entries sigs) :
    (indexed m.info sigs).Answers hashes m := by
  have hnodup := sha256_nodup hlower hsigs
  constructor
  · intro entry hentry digest hkey
    obtain ⟨sig, hsig, hread⟩ := exists_of_forall₂ hsigs hentry
    exact ⟨sig, (lookup_indexed hnodup).mpr ⟨hsig, hread.sha256_toHex hkey⟩, hread.spec.2.1⟩
  · intro digest habsent
    rw [Option.eq_none_iff_forall_ne_some]
    intro sig hlookup
    obtain ⟨hsig, rfl⟩ := (lookup_indexed hnodup).mp hlookup
    rw [← hashes_eq hlower hsigs] at habsent
    exact habsent (List.mem_map_of_mem (List.mem_map_of_mem hsig))

/-- What an entry that loads alone shows. -/
theorem single_reads (hsingle : ∃ data, hashDatabase codec (.single entry) m = .ok data) :
    m.info.Valid ∧ ∃ sig, EntryReads m entry sig ∧ sig.Valid := by
  obtain ⟨data, hdata⟩ := hsingle
  obtain ⟨hwritten, db, hload⟩ := hashDatabase_eq_ok.mp hdata
  obtain ⟨-, hinfo, sigs, hsigs, -, hvalid, -⟩ := (fromSlice_written hwritten).mp hload
  cases hsigs with
  | cons hread _ => exact ⟨hinfo, _, hread, hvalid _ List.mem_cons_self⟩

theorem exists_forall₂ {α β : Type} {r : α → β → Prop} {valid : β → Prop} {as : List α}
    (h : ∀ a ∈ as, ∃ b, r a b ∧ valid b) : ∃ bs, List.Forall₂ r as bs ∧ ∀ b ∈ bs, valid b := by
  induction as with
  | nil => exact ⟨[], .nil, by simp⟩
  | cons a as ih =>
    obtain ⟨b, hr, hb⟩ := h a List.mem_cons_self
    obtain ⟨bs, hbs, hall⟩ := ih fun a ha => h a (List.mem_cons_of_mem _ ha)
    exact ⟨b :: bs, .cons hr hbs, List.forall_mem_cons.mpr ⟨hb, hall⟩⟩

/-- A list within the limits whose entries load alone loads exactly when no two hashes of a group start with the same
16 digits; what is read back leads from each hash to the name of its group, and from nothing else to anything. -/
theorem imported_list_loads (codec : ImportCodec) (m : HashImport) (hashes : HashGroups) (hlower : hashes.LowerCase)
    (hcount : hashes.entries.length ≤ maxSignatures)
    (hsize : ∀ data, codec.toVecPretty (importDocument hashes m) = .ok data → data.length ≤ maxDatabaseBytes)
    (hsingle : ∀ entry ∈ hashes.entries, ∃ data, hashDatabase codec (.single entry) m = .ok data) :
    (∃ data db, hashDatabase codec hashes m = .ok data ∧ fromSlice codec.serde data = .ok db ∧
      db.Answers hashes m) ↔ hashes.Loadable m := by
  constructor
  · rintro ⟨data, db, hdata, hload, -⟩
    have hwritten := (hashDatabase_eq_ok.mp hdata).1
    obtain ⟨-, hinfo, sigs, hsigs, -, -, hids, -⟩ := (fromSlice_written hwritten).mp hload
    exact ⟨(ids_nodup_iff hlower hsigs).mp hids, fun _ => hinfo⟩
  · intro h
    obtain ⟨data, hwritten⟩ := codec.written (importDocument hashes m)
    obtain ⟨sigs, hsigs, hvalid⟩ := exists_forall₂ fun entry hentry => (single_reads (hsingle entry hentry)).2
    -- the metadata is checked with each entry, so only an empty map leaves it open
    have hinfo : m.info.Valid := by
      by_cases hempty : hashes.entries = []
      · exact h.info hempty
      · obtain ⟨entry, hentry⟩ := List.exists_mem_of_ne_nil _ hempty
        exact (single_reads (hsingle entry hentry)).1
    have hload : fromSlice codec.serde data = .ok (indexed m.info sigs) :=
      (fromSlice_written hwritten).mpr ⟨hsize data hwritten, hinfo, sigs, hsigs, hsigs.length_eq ▸ hcount, hvalid,
        (ids_nodup_iff hlower hsigs).mpr h.apart, sha256_nodup hlower hsigs, rfl⟩
    exact ⟨data, _, hashDatabase_eq_ok.mpr ⟨hwritten, _, hload⟩, hload, answers_indexed hlower hsigs⟩

theorem entryReads_of {digest : Sha256Digest} {category : ThreatCategory} {severity : Severity}
    (hkey : entry.1 = digest.toHex) (hcategory : categoryFromName m.category = some category)
    (hseverity : severityFromName m.severity = some severity) :
    ∃ sig, EntryReads m entry sig ∧ sig.ruleVersion = 1 ∧ sig.description = none ∧ sig.remediation = none := by
  have hsha256 : digestFromStr (signatureValue m entry).sha256 = some digest := by
    rw [signatureValue, hkey, digestFromStr_toHex]
  have hcategory' : categoryFromName (signatureValue m entry).category = some category := hcategory
  have hseverity' : severityFromName (signatureValue m entry).severity = some severity := hseverity
  have hversion : u32FromNumber (signatureValue m entry).ruleVersion = some 1 := rfl
  refine ⟨⟨(signatureValue m entry).id, (signatureValue m entry).name, digest, category, severity, 1, none, none⟩, ?_, rfl,
    rfl, rfl⟩
  simp only [EntryReads, SignatureValue.read, hsha256, hcategory', hseverity', hversion, Option.bind_eq_bind,
    Option.bind_some]

end

/-! ### A sample -/

/-- A digest that starts with the same bytes as others. -/
def sampleDigest (last : UInt8) : Sha256Digest := ⟨List.replicate 8 0xAB ++ List.replicate 24 last, rfl⟩

def sampleImport : HashImport where
  dbName := "feed"
  dbVersion := "2026.09.28"
  detectionName := "Feed.Sample"
  idPrefix := "FEED"
  category := "malware"
  severity := "high"
  license := "CC0-1.0"
  description := none

def firstEntry : String × String := ((sampleDigest 1).toHex, "")

def secondEntry : String × String := ((sampleDigest 2).toHex, "")

/-- The second hash, in a group. -/
def groupedEntry : String × String := ((sampleDigest 2).toHex, "aceCryptor_h2 2023")

/-- Two hashes that start alike, in no group. -/
def sampleGroups : HashGroups where
  entries := [firstEntry, secondEntry]
  sorted := by decide

/-- Two hashes that start alike, of which one is in a group. -/
def sampleFeed : HashGroups where
  entries := [firstEntry, groupedEntry]
  sorted := by decide

def signatureJson (v : SignatureValue) : String :=
  "    \x7b\n      \"category\": \"" ++ v.category ++ "\",\n      \"id\": \"" ++ v.id ++ "\",\n      \"name\": \"" ++ v.name ++
  "\",\n      \"rule_version\": 1,\n      \"severity\": \"" ++ v.severity ++ "\",\n      \"sha256\": \"" ++ v.sha256 ++
  "\"\n    \x7d"

@[irreducible] def documentJson (doc : ImportDocument) : Bytes :=
  0x7B :: utf8Bytes ("\n  \"database\": \x7b\n    \"license\": \"" ++ doc.database.license ++ "\",\n    \"name\": \"" ++
  doc.database.name ++ "\",\n    \"version\": \"" ++ doc.database.version ++
  "\"\n  \x7d,\n  \"format\": \"abyssal-warden.hash-signatures\",\n  \"format_version\": 1,\n  \"signatures\": [\n" ++
  String.intercalate ",\n" (doc.signatures.map signatureJson) ++ "\n  ]\n\x7d")

deriving instance Encodable for SignatureValue, DatabaseValue

deriving instance Encodable for ImportDocument

def sampleMaps : List HashGroups :=
  [.single firstEntry, .single secondEntry, .single groupedEntry, sampleGroups, sampleFeed]

def sampleDocuments : List ImportDocument := sampleMaps.map fun hashes => importDocument hashes sampleImport

def sampleTable : List (ImportDocument × Bytes) := sampleDocuments.map fun doc => (doc, documentJson doc)

theorem sampleTable_nodup : (sampleTable.map Prod.snd).Nodup := by decide +kernel

theorem sampleTable_brace : ∀ p ∈ sampleTable, p.2.head? = some 0x7B := by
  intro p hp
  obtain ⟨doc, -, rfl⟩ := List.mem_map.mp hp
  rw [documentJson, List.head?_cons]

/-- A codec that knows the text of some documents. -/
def ImportCodec.ofTable (table : List (ImportDocument × Bytes)) (hnodup : (table.map Prod.snd).Nodup)
    (hbrace : ∀ p ∈ table, p.2.head? = some 0x7B) : ImportCodec where
  toVecPretty doc := .ok (tableOrBlanks table doc)
  serde :=
    ⟨fun data => (readTableOrBlanks table data).elim (.error "no database") fun doc => .ok ⟨doc.format, doc.formatVersion⟩,
      fun data => ((readTableOrBlanks table data).bind ImportDocument.read).elim (.error "no database") .ok⟩
  written doc := ⟨_, rfl⟩
  header doc data h := by
    obtain rfl := Except.ok.inj h
    simp only [read_tableOrBlanks hnodup hbrace, Option.elim_some]
  database doc data raw h := by
    obtain rfl := Except.ok.inj h
    simp only [read_tableOrBlanks hnodup hbrace, Option.bind_some]
    cases doc.read <;> simp

def sampleCodec : ImportCodec := .ofTable sampleTable sampleTable_nodup sampleTable_brace

theorem sampleMaps_written {hashes : HashGroups} (hmem : hashes ∈ sampleMaps) :
    sampleCodec.toVecPretty (importDocument hashes sampleImport) = .ok (documentJson (importDocument hashes sampleImport)) := by
  have hfound : (sampleTable.find? fun p => p.1 = importDocument hashes sampleImport).isSome = true := by
    rw [List.find?_isSome]
    exact ⟨_, List.mem_map_of_mem (List.mem_map_of_mem hmem), decide_eq_true rfl⟩
  obtain ⟨p, hp⟩ := Option.isSome_iff_exists.mp hfound
  -- whichever entry is found, its text is the document's
  obtain ⟨doc, -, rfl⟩ := List.mem_map.mp (List.mem_of_find?_eq_some hp)
  have hdoc := List.find?_some hp
  obtain rfl : doc = importDocument hashes sampleImport := of_decide_eq_true hdoc
  exact congrArg Except.ok (tableOrBlanks_of_find hp)

theorem sampleMaps_length : ∀ hashes ∈ sampleMaps,
    (documentJson (importDocument hashes sampleImport)).length ≤ maxDatabaseBytes := by decide +kernel

theorem sampleMaps_bounded {hashes : HashGroups} {data : Bytes} (hmem : hashes ∈ sampleMaps)
    (hdata : sampleCodec.toVecPretty (importDocument hashes sampleImport) = .ok data) : data.length ≤ maxDatabaseBytes := by
  obtain rfl := Except.ok.inj ((sampleMaps_written hmem).symm.trans hdata)
  exact sampleMaps_length hashes hmem

/-- A text that passes its check keeps the rules. -/
theorem rules_of_check {value : String} {maxLen : ℕ} (h : checkText "" "" value maxLen false true = .ok ()) :
    TextRules maxLen false true value := checkText_eq_ok.mp h

theorem rules_of_checkId {id : String} (h : checkId "" id = .ok ()) : IdRules id := checkId_eq_ok.mp h

theorem sampleImport_valid : sampleImport.info.Valid where
  name := rules_of_check (by decide)
  version := rules_of_check (by decide)
  description := fun d hd => (Option.not_mem_none d hd).elim
  license := fun l hl => by
    obtain rfl := Option.some.inj hl
    exact rules_of_check (by decide)

/-- Each entry of the samples loads alone. -/
theorem single_loads {entry : String × String} (hmem : HashGroups.single entry ∈ sampleMaps)
    (hkey : ∃ digest, entry.1 = Sha256Digest.toHex digest) (hid : IdRules (idAndName entry.1 entry.2 sampleImport).1)
    (hname : TextRules maxNameLen false true (idAndName entry.1 entry.2 sampleImport).2) :
    ∃ data, hashDatabase sampleCodec (.single entry) sampleImport = .ok data := by
  have hwritten := sampleMaps_written hmem
  obtain ⟨digest, hkey⟩ := hkey
  obtain ⟨sig, hread, hversion, hdescription, hremediation⟩ := entryReads_of (m := sampleImport) hkey rfl rfl
  have hvalid : sig.Valid := by
    constructor
    · exact hread.spec.1 ▸ hid
    · exact hread.spec.2.1 ▸ hname
    · simp [hdescription]
    · simp [hremediation]
    · simp [hversion]
  have hreads : List.Forall₂ (EntryReads sampleImport) (HashGroups.single entry).entries [sig] := .cons hread .nil
  have hcount : [sig].length ≤ maxSignatures := by
    rw [List.length_singleton]
    decide
  have hload := (fromSlice_written hwritten).mpr ⟨sampleMaps_length _ hmem, sampleImport_valid, _, hreads, hcount,
    List.forall_mem_singleton.mpr hvalid, List.nodup_singleton _, List.nodup_singleton _, rfl⟩
  exact ⟨_, hashDatabase_eq_ok.mpr ⟨hwritten, _, hload⟩⟩

theorem shortHash_sample (last : UInt8) : shortHash (sampleDigest last).toHex = "abababababababab" := by
  have htake : (hexEncode (List.replicate 8 0xAB ++ List.replicate 24 last)).take 16 = "abababababababab".toList := rfl
  rw [shortHash, Sha256Digest.toHex, String.toList_ofList, sampleDigest, htake, String.ofList_toList]

theorem idPart_empty : idPart "" = "" := by decide

theorem idPart_group : idPart "aceCryptor_h2 2023" = "aceCryptor-h2-2023" := by decide

theorem plain_idAndName (last : UInt8) : idAndName (sampleDigest last).toHex "" sampleImport =
    ("FEED-abababababababab", "Feed.Sample") := by
  have hid : "FEED" ++ "-" ++ "abababababababab" = "FEED-abababababababab" := by decide
  rw [idAndName, if_pos idPart_empty, shortHash_sample]
  exact congrArg (·, "Feed.Sample") hid

theorem grouped_idAndName (last : UInt8) : idAndName (sampleDigest last).toHex "aceCryptor_h2 2023" sampleImport =
    ("FEED-aceCryptor-h2-2023-abababababababab", "Feed.Sample.aceCryptor-h2-2023") := by
  have hid : "FEED" ++ "-" ++ "aceCryptor-h2-2023" ++ "-" ++ "abababababababab" =
      "FEED-aceCryptor-h2-2023-abababababababab" := by decide
  have hname : "Feed.Sample" ++ "." ++ "aceCryptor-h2-2023" = "Feed.Sample.aceCryptor-h2-2023" := by decide
  have hgroup : idPart "aceCryptor_h2 2023" ≠ "" := by
    rw [idPart_group]
    decide
  rw [idAndName, if_neg hgroup, shortHash_sample, idPart_group]
  exact Prod.ext hid hname

theorem plain_loads {last : UInt8} (hmem : HashGroups.single ((sampleDigest last).toHex, "") ∈ sampleMaps) :
    ∃ data, hashDatabase sampleCodec (.single ((sampleDigest last).toHex, "")) sampleImport = .ok data := by
  refine single_loads hmem ⟨_, rfl⟩ ?_ ?_
  · rw [plain_idAndName]
    exact rules_of_checkId (by decide)
  · rw [plain_idAndName]
    exact rules_of_check (by decide)

theorem grouped_loads : ∃ data, hashDatabase sampleCodec (.single groupedEntry) sampleImport = .ok data := by
  refine single_loads (by simp [sampleMaps]) ⟨sampleDigest 2, rfl⟩ ?_ ?_
  · rw [groupedEntry, grouped_idAndName]
    exact rules_of_checkId (by decide)
  · rw [groupedEntry, grouped_idAndName]
    exact rules_of_check (by decide)

/-- In no group, two hashes that start alike do not load, though each does alone. -/
theorem list_of_loading_entries_may_not_load : ¬ ∀ (codec : ImportCodec) (m : HashImport) (hashes : HashGroups),
    hashes.LowerCase → hashes.entries.length ≤ maxSignatures →
    (∀ data, codec.toVecPretty (importDocument hashes m) = .ok data → data.length ≤ maxDatabaseBytes) →
    (∀ entry ∈ hashes.entries, ∃ data, hashDatabase codec (.single entry) m = .ok data) →
    ∃ data db, hashDatabase codec hashes m = .ok data ∧ fromSlice codec.serde data = .ok db ∧ db.Answers hashes m := by
  intro h
  have hlower : sampleGroups.LowerCase := by
    intro entry hentry
    rcases List.mem_cons.mp hentry with rfl | hentry
    · exact ⟨sampleDigest 1, rfl⟩
    · obtain rfl := List.mem_singleton.mp hentry
      exact ⟨sampleDigest 2, rfl⟩
  have hmem : sampleGroups ∈ sampleMaps := by simp [sampleMaps]
  have hsingle : ∀ entry ∈ sampleGroups.entries, ∃ data, hashDatabase sampleCodec (.single entry) sampleImport = .ok data := by
    intro entry hentry
    rcases List.mem_cons.mp hentry with rfl | hentry
    · exact plain_loads (by simp [sampleMaps, firstEntry])
    · obtain rfl := List.mem_singleton.mp hentry
      exact plain_loads (by simp [sampleMaps, secondEntry])
  obtain ⟨data, db, hdata, hload, -⟩ := h sampleCodec sampleImport sampleGroups hlower (by decide)
    (fun data hdata => sampleMaps_bounded hmem hdata) hsingle
  obtain ⟨-, -, sigs, hsigs, -, -, hids, -⟩ := (fromSlice_written (hashDatabase_eq_ok.mp hdata).1).mp hload
  -- but the identifiers of the two are the same
  have hapart := (ids_nodup_iff hlower hsigs).mp hids
  have hfirst := List.rel_of_pairwise_cons hapart List.mem_cons_self
  exact hfirst ⟨rfl, (shortHash_sample 1).trans (shortHash_sample 2).symm⟩

theorem sampleFeed_loads : ∃ data db, hashDatabase sampleCodec sampleFeed sampleImport = .ok data ∧
    fromSlice sampleCodec.serde data = .ok db ∧ db.Answers sampleFeed sampleImport := by
  have hmem : sampleFeed ∈ sampleMaps := by simp [sampleMaps]
  have happart : idPart "" ≠ idPart "aceCryptor_h2 2023" := by
    rw [idPart_empty, idPart_group]
    decide
  have hloadable : sampleFeed.Loadable sampleImport :=
    ⟨List.pairwise_pair.mpr fun h => happart h.1, nofun⟩
  refine (imported_list_loads sampleCodec sampleImport sampleFeed ?_ (by decide)
    (fun data hdata => sampleMaps_bounded hmem hdata) ?_).mpr hloadable
  · intro entry hentry
    rcases List.mem_cons.mp hentry with rfl | hentry
    · exact ⟨sampleDigest 1, rfl⟩
    · obtain rfl := List.mem_singleton.mp hentry
      exact ⟨sampleDigest 2, rfl⟩
  · intro entry hentry
    rcases List.mem_cons.mp hentry with rfl | hentry
    · exact plain_loads (by simp [sampleMaps, firstEntry])
    · obtain rfl := List.mem_singleton.mp hentry
      exact grouped_loads

end AbyssalWarden.Signatures
