import AbyssalWarden.StoreEncoding
import AbyssalWarden.StoreFrames

/-! The encoding loses nothing: what is written piece by piece is the encoding of the whole content, and
what is read back piece by piece is its decoding. -/
namespace AbyssalWarden

variable {key : Bytes} {off : ℕ}

theorem xorInPlace_append (a b : Bytes) :
    xorInPlace (a ++ b) key off = xorInPlace a key off ++ xorInPlace b key (off + a.length) := by
  unfold xorInPlace
  rw [List.mapIdx_append]
  congr 1
  apply List.ext_getElem
  · simp
  · intro i h₁ h₂
    simp only [List.getElem_mapIdx]
    rw [show off + (i + a.length) = off + a.length + i by omega]

theorem xorInPlace_length (buf : Bytes) : (xorInPlace buf key off).length = buf.length := by
  simp [xorInPlace]

theorem xorInPlace_xorInPlace (buf : Bytes) : xorInPlace (xorInPlace buf key off) key off = buf := by
  unfold xorInPlace
  rw [List.mapIdx_mapIdx]
  apply List.ext_getElem
  · simp
  · intro i h₁ h₂
    simp

theorem decoded_encoded (content : Bytes) : decoded key (encoded key content) = some content := by
  simp [decoded, encoded, xorInPlace_xorInPlace]

variable {host : Host} {mayFail : StoreCall → Bool} {w : Disk} {f : ItemFile} {id : QuarantineId}

/-- The loop of `decode_file` over the pieces of some bytes, without output: it makes no call. -/
theorem decodePieces_meets {stop : Disk → Prop} {err : RemediationError → Disk → Prop}
    {path : NativePath} (pieces : List Bytes) :
    (Prog.forEach (Host.decodePiece key none path) ([], 0) pieces).Meets mayFail stop err
      (fun acc w' => w' = w ∧ acc = (xorInPlace pieces.flatten key 0, pieces.flatten.length)) w := by
  let Inv (acc : Bytes × ℕ) (rest : List Bytes) (w' : Disk) : Prop :=
    w' = w ∧ acc.2 = acc.1.length ∧
      acc.1 ++ xorInPlace rest.flatten key acc.2 = xorInPlace pieces.flatten key 0
  have h : (Prog.forEach (Host.decodePiece key none path) ([], 0) pieces).Meets mayFail stop err
      (fun acc w' => Inv acc [] w') w := by
    apply Prog.meets_forEach
    · intro acc piece rest w' hinv
      obtain ⟨hw', hlen, hacc⟩ := hinv
      refine ⟨hw', ?_, ?_⟩
      · simp [hlen, xorInPlace_length]
      · rw [List.flatten_cons, xorInPlace_append] at hacc
        rw [← hacc, List.append_assoc]
    · exact ⟨rfl, rfl, rfl⟩
  refine h.mono (fun _ h => h) (fun _ _ h => h) fun acc w' hinv => ?_
  obtain ⟨hw', hlen, hacc⟩ := hinv
  have hnil : xorInPlace ([] : List Bytes).flatten key acc.2 = [] := rfl
  rw [hnil, List.append_nil] at hacc
  refine ⟨hw', Prod.ext hacc ?_⟩
  rw [hlen, hacc, xorInPlace_length]

theorem readItem_eq_ok {data : Bytes} {w' : Disk} (h : w.apply (.readItem f) = (.ok data, w')) :
    w.items.lookup f = some data ∧ w' = w := by
  simp only [Disk.apply, Prod.mk.injEq] at h
  refine ⟨?_, h.2.symm⟩
  cases hf : w.items.lookup f with
  | none => simp [hf] at h
  | some data => simpa [hf] using h.1

/-- Decoding a file without output changes nothing and finds the decoded content. -/
theorem decodeFile_returns : (host.decodeFile id f key none).Returns mayFail
    (fun r w' => w' = w ∧ ∃ file plain, w.items.lookup f = some file ∧ decoded key file = some plain ∧
      r = (host.sha256 plain, plain.length)) w := by
  unfold Host.decodeFile
  refine Prog.Returns.bind (Prog.returns_request fun file _ hread => ?_)
  obtain ⟨hlookup, rfl⟩ := readItem_eq_ok hread
  refine Prog.Returns.bind (Prog.returns_ofExcept fun _ hmissing => ?_)
  refine Prog.Returns.bind (Prog.returns_ofExcept fun _ hmagic => ?_)
  rw [refuseIf_eq_ok, not_not] at hmagic
  refine Prog.Returns.bind (Prog.Returns.mono (decodePieces_meets _) fun acc w' => ?_)
  rintro ⟨rfl, rfl⟩
  rw [host.flatten_pieces]
  refine ⟨rfl, file, _, hlookup, if_pos hmagic, ?_⟩
  simp only [xorInPlace_length]

theorem appendItem_lookup {data before : Bytes} (h : w.items.lookup f = some before) :
    (w.appendItem f data).items.lookup f = some (before ++ data) := by
  simp [Disk.appendItem, h]

theorem createItem_eq_ok {w' : Disk} (h : w.createItem f = (.ok (), w')) : w' = w.setItem f [] := by
  unfold Disk.createItem at h
  split at h
  · cases h
  · exact (Prod.mk.inj h).2.symm

/-- The loop of `write_encoded` over the pieces of a content. -/
theorem encodePieces_returns {max : ℕ} {path : NativePath} (pieces : List Bytes)
    (hf : w.items.lookup f = some dataMagic) :
    (Prog.forEach (host.encodePiece f key max path) ([], 0) pieces).Returns mayFail
      (fun acc w' => w'.items.lookup f = some (encoded key pieces.flatten) ∧
        acc = (pieces.flatten, pieces.flatten.length)) w := by
  -- the file holds what was read so far, encoded; the offset is its length
  let Inv (acc : Bytes × ℕ) (rest : List Bytes) (w' : Disk) : Prop :=
    w'.items.lookup f = some (encoded key acc.1) ∧ acc.2 = acc.1.length ∧
      acc.1 ++ rest.flatten = pieces.flatten
  have h : (Prog.forEach (host.encodePiece f key max path) ([], 0) pieces).Returns mayFail
      (fun acc w' => Inv acc [] w') w := Prog.returns_forEach ?_ ?_
  · refine h.mono fun acc w' => ?_
    rintro ⟨hfile, hlen, hacc⟩
    rw [List.flatten_nil, List.append_nil] at hacc
    rw [← hacc]
    exact ⟨hfile, Prod.ext rfl hlen⟩
  · rintro acc piece rest w' ⟨hfile, hlen, hacc⟩
    unfold Host.encodePiece
    refine Prog.Returns.bind (Prog.returns_ofExcept fun _ _ => ?_)
    refine Prog.Returns.bind (Prog.returns_request fun _ _ happly => ?_)
    cases happly
    refine ⟨?_, ?_, ?_⟩
    · have hoff : acc.2 + piece.length - piece.length = 0 + acc.1.length := by omega
      rw [appendItem_lookup hfile, encoded, encoded, xorInPlace_append, hoff, List.append_assoc]
    · simp [hlen]
    · rw [List.append_assoc]
      exact hacc
  · exact ⟨by simp [hf, encoded, xorInPlace], rfl, rfl⟩

/-- `write_encoded` returns the hash and size of the content, with its encoding in the file. -/
theorem writeEncoded_returns {content : Bytes} {max : ℕ} {path : NativePath} :
    (host.writeEncoded id content key max path).Returns mayFail
      (fun r w' => w'.items.lookup (.dataTmp id) = some (encoded key content) ∧
        r = (host.sha256 content, content.length)) w := by
  unfold Host.writeEncoded
  refine Prog.Returns.bind (Prog.returns_request fun _ _ hcreate => ?_)
  obtain rfl := createItem_eq_ok hcreate
  refine Prog.Returns.bind (Prog.returns_request fun _ _ happend => ?_)
  cases happend
  have hmagic : ((w.setItem (.dataTmp id) []).appendItem (.dataTmp id) dataMagic).items.lookup
      (.dataTmp id) = some dataMagic := by
    rw [appendItem_lookup (Disk.createdItem_lookup _ _), List.nil_append]
  refine Prog.Returns.bind ((encodePieces_returns (host.pieces content) hmagic).mono fun acc w₁ => ?_)
  rintro ⟨hfile, rfl⟩
  rw [host.flatten_pieces] at hfile
  refine Prog.Returns.bind (Prog.returns_request fun _ _ hsync => ?_)
  cases hsync
  refine Prog.Returns.bind (decodeFile_returns.mono fun checked w₂ => ?_)
  rintro ⟨rfl, -⟩
  refine Prog.Returns.bind (Prog.returns_ofExcept fun _ _ => ?_)
  exact ⟨hfile, by rw [host.flatten_pieces]⟩

end AbyssalWarden
