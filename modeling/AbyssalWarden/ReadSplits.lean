import AbyssalWarden.FileScan

/-! When what `read_file` returns does not depend on how the content of the file came in its reads. -/
namespace AbyssalWarden

/-- The bytes that a read adds. -/
def FileRead.bytes : FileRead → Bytes
  | .data bytes _ _ => bytes
  | _ => []

/-- What the reads of a file deliver, one after another. -/
def contentOf (reads : List FileRead) : Bytes := reads.flatMap FileRead.bytes

/-- The data of the first read that has any. -/
def firstData : List FileRead → Bytes
  | [] => []
  | .data bytes _ _ :: _ => bytes
  | _ :: rest => firstData rest

def OpenFile.content (file : OpenFile) : Bytes := contentOf file.reads

/-- What `read_file` says of a file is true of its whole content. -/
structure ReadOutcome.Exact (sha256 : Bytes → Sha256Digest) (opts : ReadOptions) (content : Bytes) (out : ReadOutcome) :
    Prop where
  size : out.hashed.metadata.size = content.length
  fits : content.length ≤ opts.maxSize
  digest : out.hashed.sha256 = sha256 content
  zipMagic : out.zipMagic = looksLikeZip content
  kept : out.hasContent = true → out.content = content ∧ ∃ limit, opts.contentLimit = some limit ∧ content.length ≤ limit
  notKept : out.hasContent = false → out.content = []
  archives : opts.keepOnlyArchives = true → ∀ limit, opts.contentLimit = some limit → content.length ≤ limit →
    (out.hasContent = true ↔ mayContainZip content = true)

/-- The first read shows what the whole content shows, and the size at the opening lets the content be kept. -/
structure ShownAtFirst (opts : ReadOptions) (stat : Metadata) (first content : Bytes) : Prop where
  zipMagic : looksLikeZip content = true → looksLikeZip first = true
  archives : opts.keepOnlyArchives = true → ∀ limit, opts.contentLimit = some limit → content.length ≤ limit →
    (content = [] → limit < stat.len) ∧ (mayContainZip content = true → stat.len ≤ limit ∧ mayContainZip first = true)

variable {opts : ReadOptions} {st st' : ReadState} {first done content bytes : Bytes} {reads : List FileRead}
  {halted : ℕ → Option Halt} {i : ℕ} {file : OpenFile} {stat : Metadata} {sha256 : Bytes → Sha256Digest}
  {out : ReadOutcome}

/-! ### Prefixes -/

theorem looksLikeZip_append (h : looksLikeZip first = true) : looksLikeZip (first ++ done) = true := by
  simp only [looksLikeZip, Bool.or_eq_true, List.isPrefixOf_iff_prefix] at h ⊢
  rcases h with (hlocal | hempty) | hspanned
  · exact Or.inl (Or.inl (hlocal.trans (List.prefix_append first done)))
  · exact Or.inl (Or.inr (hempty.trans (List.prefix_append first done)))
  · exact Or.inr (hspanned.trans (List.prefix_append first done))

theorem mayContainZip_append (h : mayContainZip first = true) : mayContainZip (first ++ done) = true := by
  simp only [mayContainZip, Bool.or_eq_true, List.isPrefixOf_iff_prefix] at h ⊢
  rcases h with hzip | hexe
  · exact Or.inl (looksLikeZip_append hzip)
  · exact Or.inr (hexe.trans (List.prefix_append first done))

/-- What the first read shows, the whole content shows. -/
theorem firstData_prefix (reads : List FileRead) : firstData reads <+: contentOf reads := by
  induction reads with
  | nil => exact List.prefix_rfl
  | cons read rest ih =>
    cases read with
    | data bytes hne hfits => exact List.prefix_append bytes (contentOf rest)
    | interrupted => exact ih
    | failed e => exact ih

/-! ### The loop -/

/-- The locals of the loop after `done` was read, of which `first` was the first read. -/
structure Reading (opts : ReadOptions) (first done : Bytes) (st : ReadState) : Prop where
  hashed : st.hashed = done
  total : st.total = done.length
  fits : done.length ≤ opts.maxSize
  zipMagic : st.zipMagic = (done ≠ [] && looksLikeZip first)
  content : st.content = if st.keep then done else []
  keep : st.keep = true ↔ (∃ limit, opts.contentLimit = some limit ∧ done.length ≤ limit) ∧
    (opts.keepOnlyArchives = true → done = [] ∨ mayContainZip first = true)

/-- A chunk within the limit is read whole. -/
theorem readChunk_take (h : readChunk opts st bytes = .ok st') (htotal : st.total ≤ opts.maxSize) :
    bytes.take (opts.maxSize + 1 - st.total) = bytes ∧ st.total + bytes.length ≤ opts.maxSize := by
  unfold readChunk at h
  simp only at h
  split at h
  · cases h
  · rename_i hfits
    rw [List.length_take] at hfits
    have hlength : bytes.length ≤ opts.maxSize + 1 - st.total := by omega
    exact ⟨List.take_of_length_le hlength, by omega⟩

/-- The magic is looked for in the first read. -/
theorem Reading.zipMagic_chunk (h : Reading opts first done st) (hne : bytes ≠ []) (hfirst : done = [] → bytes = first) :
    (if st.total = 0 then looksLikeZip bytes else st.zipMagic) = (decide (done ++ bytes ≠ []) && looksLikeZip first) := by
  have happend : decide (done ++ bytes ≠ []) = true := decide_eq_true (List.append_ne_nil_of_right_ne_nil done hne)
  rw [happend, Bool.true_and, h.total]
  by_cases hdone : done = []
  · rw [if_pos (List.length_eq_zero_iff.mpr hdone), hfirst hdone]
  · rw [if_neg fun hzero => hdone (List.length_eq_zero_iff.mp hzero), h.zipMagic, decide_eq_true hdone, Bool.true_and]

/-- The content is kept on if the limit was kept and the first read lets it. -/
theorem Reading.keep_chunk (h : Reading opts first done st) (hfirst : done = [] → bytes = first) :
    (st.keep && !(decide (st.total = 0) && opts.keepOnlyArchives && !mayContainZip bytes)) = true ↔
      (∃ limit, opts.contentLimit = some limit ∧ done.length ≤ limit) ∧
        (opts.keepOnlyArchives = true → mayContainZip first = true) := by
  rw [Bool.and_eq_true, h.keep, h.total]
  by_cases hdone : done = []
  · rw [hfirst hdone, decide_eq_true (List.length_eq_zero_iff.mpr hdone), Bool.true_and]
    cases opts.keepOnlyArchives
    · simp [hdone]
    · simp [hdone]
  · have hzero : ¬ done.length = 0 := fun hzero => hdone (List.length_eq_zero_iff.mp hzero)
    rw [decide_eq_false hzero]
    simp [hdone]

theorem Reading.chunk (h : Reading opts first done st) (hne : bytes ≠ []) (hfirst : done = [] → bytes = first)
    (hchunk : readChunk opts st bytes = .ok st') : Reading opts first (done ++ bytes) st' := by
  have htotal : st.total ≤ opts.maxSize := h.total ▸ h.fits
  obtain ⟨htake, hfits⟩ := readChunk_take hchunk htotal
  have hlength : st.total + bytes.length = (done ++ bytes).length := by
    rw [h.total, List.length_append]
  have hkeep := h.keep_chunk hfirst
  unfold readChunk at hchunk
  simp only [htake, h.zipMagic_chunk hne hfirst, hlength, h.hashed] at hchunk
  rw [if_neg (by omega)] at hchunk
  have hdone : done.length ≤ (done ++ bytes).length := by
    rw [List.length_append]
    omega
  have happend : done ++ bytes ≠ [] := List.append_ne_nil_of_right_ne_nil done hne
  split at hchunk
  · rename_i hkept
    obtain ⟨⟨limit, hlimit, -⟩, harchive⟩ := hkeep.mp hkept
    have hcontent : st.content = done := by
      rw [h.content, if_pos (Bool.and_eq_true_iff.mp hkept).1]
    rw [hlimit, Option.any_some] at hchunk
    split at hchunk
    · -- grown past the content limit: hashed on, but no longer kept
      rename_i hpast
      have hpast' := of_decide_eq_true hpast
      cases Except.ok.inj hchunk
      refine ⟨rfl, rfl, by omega, rfl, rfl, ?_⟩
      constructor
      · intro hfalse
        cases hfalse
      · rintro ⟨⟨limit', hlimit', hle⟩, -⟩
        obtain rfl : limit = limit' := Option.some.inj (hlimit.symm.trans hlimit')
        omega
    · rename_i hwithin
      have hwithin' : (done ++ bytes).length ≤ limit := by
        have hnot : ¬ (done ++ bytes).length > limit := fun hgt => hwithin (decide_eq_true hgt)
        omega
      cases Except.ok.inj hchunk
      refine ⟨rfl, rfl, by omega, rfl, ?_, ?_⟩
      · rw [hcontent, if_pos rfl]
      · constructor
        · intro _
          exact ⟨⟨limit, hlimit, hwithin'⟩, fun hkeep => Or.inr (harchive hkeep)⟩
        · intro _
          rfl
  · rename_i hdropped
    -- what is no longer kept was dropped before, or is dropped with the first read
    have hcontent : st.content = [] := by
      rw [h.content]
      cases hwas : st.keep with
      | false => rfl
      | true =>
        rw [hwas, Bool.true_and, Bool.not_eq_true, Bool.not_eq_false', Bool.and_eq_true, Bool.and_eq_true] at hdropped
        have hzero := of_decide_eq_true hdropped.1.1
        rw [h.total] at hzero
        exact List.length_eq_zero_iff.mp hzero
    cases Except.ok.inj hchunk
    refine ⟨rfl, rfl, by omega, rfl, hcontent, ?_⟩
    constructor
    · intro hfalse
      cases hfalse
    · rintro ⟨⟨limit, hlimit, hle⟩, harchive⟩
      exact absurd (hkeep.mpr ⟨⟨limit, hlimit, hdone.trans hle⟩, fun honly => (harchive honly).resolve_left happend⟩)
        hdropped

/-- The loop to its end: what it read is all there is. -/
theorem Reading.loop (h : Reading opts first done st) (hfirst : done = [] → firstData reads = first)
    (hloop : readLoop opts halted reads i st = .ok st') : Reading opts first (done ++ contentOf reads) st' := by
  induction reads generalizing i st done with
  | nil =>
    unfold readLoop at hloop
    split at hloop
    · cases hloop
    · cases hloop
    · obtain rfl := Except.ok.inj hloop
      simpa [contentOf] using h
  | cons read rest ih =>
    unfold readLoop at hloop
    split at hloop
    · cases hloop
    · cases hloop
    · cases read with
      | failed e => cases hloop
      | interrupted => exact ih h hfirst hloop
      -- of the chunks, only the first one decides what is kept
      | data bytes hne hbound =>
        simp only at hloop
        split at hloop
        · cases hloop
        · rename_i st₁ hchunk
          have hnext := h.chunk hne (fun hdone => hfirst hdone) hchunk
          have hrest := ih hnext (fun hnil => absurd hnil (List.append_ne_nil_of_right_ne_nil done hne)) hloop
          rw [List.append_assoc] at hrest
          exact hrest

/-- The locals before the first read. -/
theorem Reading.start : Reading opts first [] ⟨[], opts.contentLimit.isSome, false, [], 0⟩ where
  hashed := rfl
  total := rfl
  fits := Nat.zero_le _
  zipMagic := by simp
  content := by simp
  keep := by
    rw [Option.isSome_iff_exists]
    simp

/-! ### The outcome -/

/-- What the loop makes of a file that is read to its end. -/
theorem readFile_reading (hstat : file.metadata = .ok stat)
    (h : Fsio.readFile sha256 opts (.ok file) = some (.ok out)) :
    ∃ st, Reading { opts with contentLimit := opts.contentLimit.filter (stat.len ≤ ·) } (firstData file.reads) file.content
        st ∧ hashedFile sha256 stat st = some out := by
  unfold Fsio.readFile at h
  simp only [hstat] at h
  split at h
  · cases h
  split at h
  · cases h
  split at h
  · cases h
  split at h
  · cases h
  unfold readOpened at h
  simp only at h
  split at h
  · cases h
  · rename_i st hloop
    obtain ⟨out', hout, hok⟩ := Option.map_eq_some_iff.mp h
    refine ⟨st, Reading.start.loop (fun _ => rfl) hloop, ?_⟩
    rw [hout, Except.ok.inj hok]

theorem hashedFile_fields {st : ReadState} (h : hashedFile sha256 stat st = some out) :
    out.hashed.sha256 = sha256 st.hashed ∧ out.hashed.metadata.size = st.total ∧ out.content = st.content ∧
      out.hasContent = st.keep ∧ out.zipMagic = st.zipMagic := by
  unfold hashedFile at h
  split at h
  · cases Option.some.inj h
    exact ⟨rfl, rfl, rfl, rfl, rfl⟩
  · obtain ⟨modified, -, hout⟩ := Option.map_eq_some_iff.mp h
    rw [← hout]
    exact ⟨rfl, rfl, rfl, rfl, rfl⟩

/-- The limit that is kept to after the opening. -/
theorem exists_limit_filter {n : ℕ} :
    (∃ limit, opts.contentLimit.filter (stat.len ≤ ·) = some limit ∧ n ≤ limit) ↔
      ∃ limit, opts.contentLimit = some limit ∧ stat.len ≤ limit ∧ n ≤ limit := by
  simp only [Option.filter_eq_some_iff, decide_eq_true_eq, and_assoc]

/-- When the content is kept: it fits the limit, as its size at the opening did, and the first read lets it. -/
theorem Reading.hasContent_iff
    (h : Reading { opts with contentLimit := opts.contentLimit.filter (stat.len ≤ ·) } (firstData reads)
      (contentOf reads) st) :
    st.keep = true ↔ (∃ limit, opts.contentLimit = some limit ∧ stat.len ≤ limit ∧ (contentOf reads).length ≤ limit) ∧
      (opts.keepOnlyArchives = true → contentOf reads = [] ∨ mayContainZip (firstData reads) = true) := by
  rw [h.keep, exists_limit_filter]

/-- The magic is that of the whole content if the first read shows it. -/
theorem Reading.zipMagic_iff (h : Reading opts (firstData reads) (contentOf reads) st) :
    st.zipMagic = looksLikeZip (contentOf reads) ↔
      (looksLikeZip (contentOf reads) = true → looksLikeZip (firstData reads) = true) := by
  have hmagic : st.zipMagic = looksLikeZip (firstData reads) := by
    rw [h.zipMagic]
    by_cases hnil : contentOf reads = []
    · have hfirst : firstData reads = [] := List.prefix_nil.mp (hnil ▸ firstData_prefix reads)
      rw [hnil, hfirst]
      rfl
    · rw [decide_eq_true hnil, Bool.true_and]
  obtain ⟨rest, hrest⟩ := firstData_prefix reads
  rw [hmagic, Bool.eq_iff_iff]
  constructor
  · intro hiff
    exact hiff.mpr
  · intro himp
    constructor
    · intro hfirst
      rw [← hrest]
      exact looksLikeZip_append hfirst
    · exact himp

/-- What a file is said to be is true of its whole content exactly when its first read shows it, and its size at the
opening lets the content be kept. -/
theorem readFile_exact_iff (hstat : file.metadata = .ok stat)
    (h : Fsio.readFile sha256 opts (.ok file) = some (.ok out)) :
    out.Exact sha256 opts file.content ↔ ShownAtFirst opts stat (firstData file.reads) file.content := by
  obtain ⟨st, hread, hout⟩ := readFile_reading hstat h
  obtain ⟨hsha, hsize, hcontent, hhas, hmagic⟩ := hashedFile_fields hout
  have hmagic_iff := hread.zipMagic_iff
  have hkeep := hread.hasContent_iff
  have hgrow : mayContainZip (firstData file.reads) = true → mayContainZip file.content = true := by
    obtain ⟨rest, hrest⟩ := firstData_prefix file.reads
    intro hfirst
    rw [OpenFile.content, ← hrest]
    exact mayContainZip_append hfirst
  have hempty : mayContainZip [] = false := rfl
  constructor
  · intro hexact
    refine ⟨hmagic_iff.mp (hmagic ▸ hexact.zipMagic), ?_⟩
    intro honly limit hlimit hfits
    have hiff := hexact.archives honly limit hlimit hfits
    rw [hhas] at hiff
    constructor
    · intro hnil
      -- kept, an empty file would count as an archive
      by_contra hlen
      have hkept := hkeep.mpr ⟨⟨limit, hlimit, by omega, hfits⟩, fun _ => Or.inl hnil⟩
      have hzip := hiff.mp hkept
      rw [hnil, hempty] at hzip
      cases hzip
    · intro hzip
      obtain ⟨⟨limit', hlimit', hlen, -⟩, hshown⟩ := hkeep.mp (hiff.mpr hzip)
      obtain rfl : limit = limit' := Option.some.inj (hlimit.symm.trans hlimit')
      refine ⟨hlen, (hshown honly).resolve_left ?_⟩
      intro hnil
      have hzip' : mayContainZip (contentOf file.reads) = true := hzip
      rw [hnil, hempty] at hzip'
      cases hzip'
  · intro hshown
    refine ⟨hsize.trans hread.total, hread.fits, hsha.trans (congrArg sha256 hread.hashed),
      hmagic.trans (hmagic_iff.mpr hshown.zipMagic), ?_, ?_, ?_⟩
    · intro hkept
      obtain ⟨⟨limit, hlimit, -, hfits⟩, -⟩ := hkeep.mp (hhas ▸ hkept)
      refine ⟨?_, limit, hlimit, hfits⟩
      rw [hcontent, hread.content, ← hhas, if_pos hkept]
    · intro hdropped
      rw [hcontent, hread.content, ← hhas, hdropped]
      exact if_neg Bool.false_ne_true
    · intro honly limit hlimit hfits
      obtain ⟨hnil, hzip⟩ := hshown.archives honly limit hlimit hfits
      rw [hhas, hkeep]
      constructor
      · rintro ⟨⟨limit', hlimit', hlen, -⟩, hfirst⟩
        obtain rfl : limit = limit' := Option.some.inj (hlimit.symm.trans hlimit')
        rcases hfirst honly with hnone | hfirst
        · have hpast := hnil hnone
          omega
        · exact hgrow hfirst
      · intro hwhole
        obtain ⟨hlen, hfirst⟩ := hzip hwhole
        exact ⟨⟨limit, hlimit, hlen, hfits⟩, fun _ => Or.inr hfirst⟩

/-! ### A ZIP file read in two ways -/

/-- A function in place of the digest. -/
def paddedDigest (data : Bytes) : Sha256Digest := ⟨(data ++ List.replicate 32 0).take 32, by simp⟩

def zipOptions : ReadOptions := ⟨100, some 100, none, true⟩

def zipStat : Metadata := ⟨.regular, 5, none, 0o644, 1, 2⟩

/-- A ZIP file that comes in one read. -/
def zipWhole : OpenFile := ⟨.ok zipStat, [.data [0x50, 0x4B, 0x03, 0x04, 0x14] (by decide) (by decide)], fun _ => none⟩

/-- The same file, of which the first read returns one byte. -/
def zipSplit : OpenFile :=
  ⟨.ok zipStat, [.data [0x50] (by decide) (by decide), .data [0x4B, 0x03, 0x04, 0x14] (by decide) (by decide)],
    fun _ => none⟩

def zipOutcome (content : Bytes) (found : Bool) : ReadOutcome :=
  ⟨⟨paddedDigest [0x50, 0x4B, 0x03, 0x04, 0x14], ⟨5, none, some 0o644⟩⟩, content, found, found⟩

theorem readFile_exact_iff_sample :
    (zipOutcome [0x50, 0x4B, 0x03, 0x04, 0x14] true).Exact paddedDigest zipOptions zipWhole.content ↔
      ShownAtFirst zipOptions zipStat [0x50, 0x4B, 0x03, 0x04, 0x14] zipWhole.content :=
  readFile_exact_iff rfl rfl

/-- Split after its first byte, a ZIP file is no ZIP, and its content is not kept. -/
theorem split_zip_missed : zipSplit.content = zipWhole.content ∧
    Fsio.readFile paddedDigest zipOptions (.ok zipSplit) = some (.ok (zipOutcome [] false)) ∧
      ¬ (zipOutcome [] false).Exact paddedDigest zipOptions zipSplit.content := by
  refine ⟨rfl, rfl, ?_⟩
  intro hexact
  have hmagic := hexact.zipMagic
  revert hmagic
  decide

end AbyssalWarden
