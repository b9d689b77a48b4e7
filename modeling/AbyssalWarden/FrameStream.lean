import AbyssalWarden.JsonStrings
import AbyssalWarden.Protocol
import AbyssalWarden.SplitReads

/-! Frames of any messages, written one after another and read back, wherever the stream is split or cut off. -/
namespace AbyssalWarden

/-- How messages are written as JSON and read back: what is written is read as the message it is of. -/
structure FrameCodec (α : Type) where
  toVec : α → Except String Bytes
  fromSlice : Bytes → Except String α
  fromSlice_toVec : ∀ msg body, toVec msg = .ok body → fromSlice body = .ok msg

/-- `u32::from_be_bytes` -/
def lengthOf (word : Bytes) : ℕ := word.foldl (fun n b => n * 2^8 + b.toNat) 0

/-- What one call of `read_frame` does: what it returns, the bytes it allocates for a body, and what it leaves. -/
structure FrameRead (α : Type) where
  result : Except FrameError α
  allocated : Option ℕ
  rest : ByteStream

variable {α : Type}

namespace FrameCodec

variable (codec : FrameCodec α)

/-- `write_frame` to a writer that takes everything: the bytes that are written. -/
def writeFrame (msg : α) (max : ℕ) : Except FrameError Bytes :=
  match codec.toVec msg with
  | .error e => .error (.malformed e)
  | .ok body =>
    if body.length > max then .error (.tooLarge body.length max)
    else if body.length ≥ 2^32 then .error (.tooLarge body.length max)
    else .ok (lengthBytes body.length ++ body)

/-- Frames one after another. -/
def writeFrames (max : ℕ) : List α → Except FrameError Bytes
  | [] => .ok []
  | msg :: msgs => do
    let frame ← codec.writeFrame msg max
    let rest ← writeFrames max msgs
    .ok (frame ++ rest)

/-- `decode` -/
def decode (body : Bytes) : Except FrameError α := (codec.fromSlice body).mapError .malformed

/-- `read_frame`: a stream that ends in the length is a closed connection, and one that ends in the body fails. -/
def readFrame (max : ℕ) (s : ByteStream) : FrameRead α :=
  match readExact s.reads 4 s.bytes with
  | none => ⟨.error .closed, none, ⟨[], []⟩⟩
  | some (word, s) =>
    let len := lengthOf word
    if len > max then ⟨.error (.tooLarge len max), none, s⟩
    else
      match readExact s.reads len s.bytes with
      | none => ⟨.error (.io "failed to fill whole buffer"), some len, ⟨[], []⟩⟩
      | some (body, s) => ⟨codec.decode body, some len, s⟩

/-- Up to `n` calls of `read_frame`, until one fails: the messages, and the error. -/
def readFrames (max : ℕ) : ℕ → ByteStream → List α × Option FrameError
  | 0, _ => ([], none)
  | n + 1, s =>
    match (codec.readFrame max s).result with
    | .error e => ([], some e)
    | .ok msg =>
      let (msgs, e) := readFrames max n (codec.readFrame max s).rest
      (msg :: msgs, e)

end FrameCodec

/-- A response is framed as any message is. -/
theorem writeFrame_response (codec : FrameCodec Response) (hcodec : codec.toVec = Response.toVec) (r : Response)
    (max : ℕ) : writeFrame r max none = codec.writeFrame r max := by
  cases hvec : r.toVec with
  | error e => simp only [writeFrame, FrameCodec.writeFrame, hcodec, hvec]
  | ok body => simp only [writeFrame, FrameCodec.writeFrame, hcodec, hvec]

/-! ### Length words -/

variable {n max : ℕ} {word bytes body rest cut : Bytes} {codec : FrameCodec α} {msg : α} {msgs : List α}
  {reads : List (Option ℕ+)}

theorem lengthOf_lengthBytes (h : n < 2^32) : lengthOf (lengthBytes n) = n := by
  simp only [lengthOf, lengthBytes, List.foldl_cons, List.foldl_nil, UInt8.toNat_ofNat']
  omega

/-! ### A frame -/

/-- A message whose encoding fits the limit and the length word. -/
def FrameCodec.Fits (codec : FrameCodec α) (max : ℕ) (msg : α) : Prop :=
  ∃ body, codec.toVec msg = .ok body ∧ body.length ≤ max ∧ body.length < 2^32

theorem writeFrame_of_fits (h : codec.toVec msg = .ok body) (hmax : body.length ≤ max) (hword : body.length < 2^32) :
    codec.writeFrame msg max = .ok (lengthBytes body.length ++ body) := by
  simp only [FrameCodec.writeFrame, h]
  rw [if_neg (by omega), if_neg (by omega)]

/-- A length above the limit is refused, and nothing is allocated for a body. -/
theorem readFrame_tooLarge (hword : word.length = 4) (hlen : max < lengthOf word) :
    (codec.readFrame max ⟨word ++ rest, reads⟩).result = .error (.tooLarge (lengthOf word) max) ∧
      (codec.readFrame max ⟨word ++ rest, reads⟩).allocated = none := by
  obtain ⟨reads', hread⟩ : ∃ reads', readExact reads word.length (word ++ rest) = _ := readExact_append word rest
  rw [hword] at hread
  simp only [FrameCodec.readFrame, hread, if_pos hlen, and_self]

/-- A frame is read back, and nothing after it. -/
theorem readFrame_frame (h : codec.toVec msg = .ok body) (hmax : body.length ≤ max) (hword : body.length < 2^32) :
    ∃ reads', codec.readFrame max ⟨lengthBytes body.length ++ body ++ rest, reads⟩ =
      ⟨.ok msg, some body.length, ⟨rest, reads'⟩⟩ := by
  obtain ⟨reads₁, hlength⟩ : ∃ reads₁, readExact reads 4 (lengthBytes body.length ++ (body ++ rest)) = _ :=
    readExact_append (lengthBytes body.length) (body ++ rest)
  obtain ⟨reads₂, hbody⟩ : ∃ reads₂, readExact reads₁ body.length (body ++ rest) = _ := readExact_append body rest
  have hdecode : codec.decode body = .ok msg := by
    rw [FrameCodec.decode, codec.fromSlice_toVec msg body h]
    rfl
  refine ⟨reads₂, ?_⟩
  rw [List.append_assoc]
  simp only [FrameCodec.readFrame, hlength, lengthOf_lengthBytes hword, if_neg (Nat.not_lt.mpr hmax), hbody, hdecode]

/-- What is left of a frame that is cut off after its length word. -/
theorem cut_after_word (hcut : cut <+: word ++ body) (hne : cut ≠ word ++ body) (hlength : word.length ≤ cut.length) :
    ∃ part, cut = word ++ part ∧ part.length < body.length := by
  have htake := List.prefix_iff_eq_take.mp hcut
  rw [List.take_append, List.take_of_length_le hlength] at htake
  refine ⟨body.take (cut.length - word.length), htake, ?_⟩
  by_contra hall
  apply hne
  rw [List.length_take] at hall
  rw [htake, List.take_of_length_le (by omega)]

/-- A frame that is cut off fails. -/
theorem readFrame_cut (hword : body.length < 2^32) (hcut : cut <+: lengthBytes body.length ++ body)
    (hne : cut ≠ lengthBytes body.length ++ body) :
    ∃ e, (codec.readFrame max ⟨cut, reads⟩).result = .error e := by
  by_cases hshort : cut.length < 4
  · have hread : readExact reads 4 cut = none := readExact_of_lt hshort
    simp only [FrameCodec.readFrame, hread]
    exact ⟨_, rfl⟩
  · obtain ⟨part, rfl, hpart⟩ := cut_after_word hcut hne (Nat.not_lt.mp hshort)
    obtain ⟨reads₁, hlength⟩ : ∃ reads₁, readExact reads 4 (lengthBytes body.length ++ part) = _ :=
      readExact_append (lengthBytes body.length) part
    have hread : readExact reads₁ body.length part = none := readExact_of_lt hpart
    simp only [FrameCodec.readFrame, hlength, lengthOf_lengthBytes hword, hread]
    by_cases hmax : body.length > max
    · rw [if_pos hmax]
      exact ⟨_, rfl⟩
    · rw [if_neg hmax]
      exact ⟨_, rfl⟩

/-! ### Frame after frame -/

theorem writeFrames_cons {frame rest : Bytes} (hframe : codec.writeFrame msg max = .ok frame)
    (hrest : codec.writeFrames max msgs = .ok rest) : codec.writeFrames max (msg :: msgs) = .ok (frame ++ rest) := by
  rw [FrameCodec.writeFrames, hframe, except_ok_bind, hrest, except_ok_bind]

theorem exists_writeFrames (h : ∀ msg ∈ msgs, codec.Fits max msg) : ∃ bytes, codec.writeFrames max msgs = .ok bytes := by
  induction msgs with
  | nil => exact ⟨[], rfl⟩
  | cons msg msgs ih =>
    obtain ⟨body, hbody, hmax, hword⟩ := h msg List.mem_cons_self
    obtain ⟨rest, hrest⟩ := ih fun msg hmsg => h msg (List.mem_cons_of_mem _ hmsg)
    exact ⟨_, writeFrames_cons (writeFrame_of_fits hbody hmax hword) hrest⟩

theorem readFrames_of_error {e : FrameError} {s : ByteStream} (h : (codec.readFrame max s).result = .error e) :
    codec.readFrames max (n + 1) s = ([], some e) := by
  simp only [FrameCodec.readFrames, h]

theorem readFrames_of_ok {s s' : ByteStream} {allocated : Option ℕ} (h : codec.readFrame max s = ⟨.ok msg, allocated, s'⟩) :
    codec.readFrames max (n + 1) s = (msg :: (codec.readFrames max n s').1, (codec.readFrames max n s').2) := by
  simp only [FrameCodec.readFrames, h]

/-- What was written is read back, and then the connection is closed. -/
theorem readFrames_written (h : ∀ msg ∈ msgs, codec.Fits max msg) (hwritten : codec.writeFrames max msgs = .ok bytes) :
    codec.readFrames max (msgs.length + 1) ⟨bytes, reads⟩ = (msgs, some .closed) := by
  induction msgs generalizing bytes reads with
  | nil =>
    obtain rfl := Except.ok.inj hwritten
    have hend : readExact reads 4 [] = none := readExact_of_lt (by decide)
    have hclosed : (codec.readFrame max ⟨[], reads⟩).result = .error .closed := by
      simp only [FrameCodec.readFrame, hend]
    exact readFrames_of_error hclosed
  | cons msg msgs ih =>
    obtain ⟨body, hbody, hmax, hword⟩ := h msg List.mem_cons_self
    have hfits : ∀ msg ∈ msgs, codec.Fits max msg := fun msg hmsg => h msg (List.mem_cons_of_mem _ hmsg)
    obtain ⟨rest, hrest⟩ := exists_writeFrames hfits
    rw [writeFrames_cons (writeFrame_of_fits hbody hmax hword) hrest] at hwritten
    obtain rfl := Except.ok.inj hwritten
    obtain ⟨reads', hread⟩ : ∃ reads', codec.readFrame max ⟨lengthBytes body.length ++ body ++ rest, reads⟩ = _ :=
      readFrame_frame hbody hmax hword
    rw [List.length_cons, readFrames_of_ok hread, ih hfits hrest]

/-- Where the bytes are cut off, the messages before that are read, and then a read fails. -/
theorem readFrames_cut (h : ∀ msg ∈ msgs, codec.Fits max msg) (hwritten : codec.writeFrames max msgs = .ok bytes)
    (hcut : cut <+: bytes) (hne : cut ≠ bytes) :
    ∃ k < msgs.length, ∃ e, codec.readFrames max (msgs.length + 1) ⟨cut, reads⟩ = (msgs.take k, some e) := by
  -- along the messages; how the bytes are split into reads is general
  induction msgs generalizing bytes cut reads with
  | nil =>
    obtain rfl := Except.ok.inj hwritten
    exact absurd (List.prefix_nil.mp hcut) hne
  | cons msg msgs ih =>
    obtain ⟨body, hbody, hmax, hword⟩ := h msg List.mem_cons_self
    have hfits : ∀ msg ∈ msgs, codec.Fits max msg := fun msg hmsg => h msg (List.mem_cons_of_mem _ hmsg)
    obtain ⟨rest, hrest⟩ := exists_writeFrames hfits
    rw [writeFrames_cons (writeFrame_of_fits hbody hmax hword) hrest] at hwritten
    obtain rfl := Except.ok.inj hwritten
    generalize hframe : lengthBytes body.length ++ body = frame at hcut hne
    by_cases hwhole : frame.length ≤ cut.length
    · -- the first frame is whole, and the cut is in what follows it
      have htake := List.prefix_iff_eq_take.mp hcut
      rw [List.take_append, List.take_of_length_le hwhole] at htake
      have hpart : rest.take (cut.length - frame.length) <+: rest := List.take_prefix _ _
      have hpartne : rest.take (cut.length - frame.length) ≠ rest := fun heq => hne (heq ▸ htake)
      obtain ⟨reads', hread⟩ : ∃ reads', codec.readFrame max
          ⟨lengthBytes body.length ++ body ++ rest.take (cut.length - frame.length), reads⟩ = _ :=
        readFrame_frame hbody hmax hword
      rw [hframe, ← htake] at hread
      obtain ⟨k, hk, e, hmsgs⟩ : ∃ k < msgs.length, ∃ e, codec.readFrames max (msgs.length + 1)
          ⟨rest.take (cut.length - frame.length), reads'⟩ = (msgs.take k, some e) := ih hfits hrest hpart hpartne
      refine ⟨k + 1, Nat.succ_lt_succ hk, e, ?_⟩
      rw [List.length_cons, readFrames_of_ok hread, hmsgs, List.take_succ_cons]
    -- the cut is inside the first frame
    · have hcutFrame : cut <+: frame := List.prefix_of_prefix_length_le hcut (List.prefix_append frame rest) (by omega)
      have hcutne : cut ≠ frame := by
        rintro rfl
        exact hwhole (Nat.le_refl _)
      rw [← hframe] at hcutFrame hcutne
      obtain ⟨e, herror⟩ : ∃ e, (codec.readFrame max ⟨cut, reads⟩).result = .error e :=
        readFrame_cut hword hcutFrame hcutne
      refine ⟨0, by rw [List.length_cons]; omega, e, ?_⟩
      rw [readFrames_of_error herror, List.take_zero]

/-! ### Streams of frames -/

/-- Messages that are written are read back in order however the reads are split, and then the connection is closed;
and where the bytes are cut off, a prefix of them is read, and then a read fails. -/
def FrameCodec.RoundTrips (codec : FrameCodec α) (max : ℕ) (msgs : List α) : Prop :=
  ∃ bytes, codec.writeFrames max msgs = .ok bytes ∧
    (∀ reads, codec.readFrames max (msgs.length + 1) ⟨bytes, reads⟩ = (msgs, some .closed)) ∧
    ∀ cut, cut <+: bytes → cut ≠ bytes → ∀ reads,
      ∃ k < msgs.length, ∃ e, codec.readFrames max (msgs.length + 1) ⟨cut, reads⟩ = (msgs.take k, some e)

/-- A length word above the limit is refused before anything is allocated for a body. -/
def FrameCodec.RefusesLong (codec : FrameCodec α) (max : ℕ) : Prop :=
  ∀ word rest reads, word.length = 4 → max < lengthOf word →
    (codec.readFrame max ⟨word ++ rest, reads⟩).result = .error (.tooLarge (lengthOf word) max) ∧
      (codec.readFrame max ⟨word ++ rest, reads⟩).allocated = none

/-- Messages whose encodings fit the limit and the length word are read back as they were written. -/
theorem frame_stream_exact (codec : FrameCodec α) (max : ℕ) (msgs : List α) (h : ∀ msg ∈ msgs, codec.Fits max msg) :
    codec.RoundTrips max msgs ∧ codec.RefusesLong max := by
  constructor
  · obtain ⟨bytes, hwritten⟩ := exists_writeFrames h
    refine ⟨bytes, hwritten, fun reads => readFrames_written h hwritten, ?_⟩
    intro cut hcut hne reads
    exact readFrames_cut h hwritten hcut hne
  · intro word rest reads hword hlen
    exact readFrame_tooLarge hword hlen

/-- A JSON string as a message. -/
def stringCodec : FrameCodec String where
  toVec s := .ok (Json.encodeStr s)
  fromSlice body :=
    match Json.readStr body with
    | some (s, []) => .ok s
    | _ => .error "invalid JSON"
  fromSlice_toVec s body h := by
    obtain rfl := Except.ok.inj h
    have hread : Json.readStr (Json.encodeStr s ++ []) = some (s, []) := Json.readStr_encodeStr s
    rw [List.append_nil] at hread
    simp only [hread]

theorem frame_stream_exact_sample :
    stringCodec.RoundTrips maxRequest ["scan", "status"] ∧ stringCodec.RefusesLong maxRequest := by
  have hfits : ∀ msg ∈ ["scan", "status"], stringCodec.Fits maxRequest msg := by
    intro msg hmsg
    rw [List.mem_cons, List.mem_singleton] at hmsg
    obtain rfl | rfl := hmsg
    · exact ⟨_, rfl, by decide, by decide⟩
    · exact ⟨_, rfl, by decide, by decide⟩
  exact frame_stream_exact stringCodec maxRequest ["scan", "status"] hfits

/-- A message of `n` letters. -/
def letters (n : ℕ) : String := String.ofList (List.replicate n 'a')

theorem lt_letters_length (n : ℕ) : n < (Json.encodeStr (letters n)).length := by
  have hlen := Json.length_le_strSize (letters n)
  rw [Json.strSize, letters, String.toList_ofList, List.length_replicate] at hlen
  rw [letters]
  omega

theorem writeFrames_of_long {s : String} (h : 2^32 ≤ (Json.encodeStr s).length) :
    ∃ e, stringCodec.writeFrames (Json.encodeStr s).length [s] = .error e := by
  have hvec : stringCodec.toVec s = .ok (Json.encodeStr s) := rfl
  have hrefused : stringCodec.writeFrame s (Json.encodeStr s).length =
      .error (.tooLarge (Json.encodeStr s).length (Json.encodeStr s).length) := by
    simp only [FrameCodec.writeFrame, hvec]
    rw [if_neg (Nat.lt_irrefl _), if_pos h]
  rw [FrameCodec.writeFrames, hrefused]
  exact ⟨_, rfl⟩

/-- However large the limit, an encoding of 2^32 bytes is not written. -/
theorem huge_message_refused : ¬ ∀ (max : ℕ) (msgs : List String),
    (∀ msg ∈ msgs, ∃ body, stringCodec.toVec msg = .ok body ∧ body.length ≤ max) →
      stringCodec.RoundTrips max msgs ∧ stringCodec.RefusesLong max := by
  intro h
  have hlong : ∃ s, 2^32 ≤ (Json.encodeStr s).length := ⟨letters (2^32), Nat.le_of_lt (lt_letters_length (2^32))⟩
  obtain ⟨s, hlong⟩ := hlong
  have hwithin : ∀ msg ∈ [s], ∃ body, stringCodec.toVec msg = .ok body ∧ body.length ≤ (Json.encodeStr s).length := by
    intro msg hmsg
    obtain rfl := List.mem_singleton.mp hmsg
    exact ⟨_, rfl, Nat.le_refl _⟩
  obtain ⟨⟨bytes, hwritten, -⟩, -⟩ := h _ [s] hwithin
  obtain ⟨e, hrefused⟩ := writeFrames_of_long hlong
  rw [hrefused] at hwritten
  cases hwritten

end AbyssalWarden
