import AbyssalWarden.Text

/-! A stream of bytes whose reads return as little as they like, and reading an exact number of bytes from it. -/
namespace AbyssalWarden

/-- What is left of a stream, and what its next reads do: return a number of bytes at most, or be interrupted. After
these a read returns what it is asked for. -/
structure ByteStream where
  bytes : Bytes
  reads : List (Option ℕ+)

/-- `read_exact`, with what is left of the stream; `none` at its end. -/
def readExact : List (Option ℕ+) → ℕ → Bytes → Option (Bytes × ByteStream)
  | reads, 0, bytes => some ([], ⟨bytes, reads⟩)
  | [], n, bytes => if n ≤ bytes.length then some (bytes.take n, ⟨bytes.drop n, []⟩) else none
  | none :: reads, n, bytes => readExact reads n bytes
  | some most :: reads, n, bytes =>
    let got := min (most : ℕ) (min n bytes.length)
    if got = 0 then none
    else (readExact reads (n - got) (bytes.drop got)).map fun (rest, s) => (bytes.take got ++ rest, s)

variable {reads : List (Option ℕ+)} {n : ℕ} {bytes : Bytes}

/-- However the reads are split, what is read are the next bytes if there are enough. -/
theorem readExact_of_le (h : n ≤ bytes.length) :
    ∃ reads', readExact reads n bytes = some (bytes.take n, ⟨bytes.drop n, reads'⟩) := by
  induction reads generalizing n bytes with
  | nil =>
    cases n with
    | zero => exact ⟨[], rfl⟩
    | succ n => exact ⟨[], if_pos h⟩
  | cons read reads ih =>
    cases n with
    | zero => exact ⟨read :: reads, rfl⟩
    | succ n =>
      cases read with
      | none => exact ih h
      | some most =>
        have hmost := most.pos
        simp only [readExact]
        -- a read that is not interrupted gets at least one byte
        generalize hgot : min (most : ℕ) (min (n + 1) bytes.length) = got
        have hpos : ¬ got = 0 := by omega
        have hle : n + 1 - got ≤ (bytes.drop got).length := by
          rw [List.length_drop]
          omega
        obtain ⟨reads', hrest⟩ := ih hle
        have hsum : got + (n + 1 - got) = n + 1 := by omega
        refine ⟨reads', ?_⟩
        rw [if_neg hpos, hrest, Option.map_some, ← List.take_add, List.drop_drop, hsum]

theorem readExact_of_lt (h : bytes.length < n) : readExact reads n bytes = none := by
  induction reads generalizing n bytes with
  | nil =>
    cases n with
    | zero => omega
    | succ n => exact if_neg (by omega)
  | cons read reads ih =>
    cases n with
    | zero => omega
    | succ n =>
      cases read with
      | none => exact ih h
      | some most =>
        simp only [readExact]
        split
        · rfl
        · have hlt : (bytes.drop (min (most : ℕ) (min (n + 1) bytes.length))).length <
              n + 1 - min (most : ℕ) (min (n + 1) bytes.length) := by
            rw [List.length_drop]
            omega
          rw [ih hlt]
          rfl

theorem readExact_append (data rest : Bytes) :
    ∃ reads', readExact reads data.length (data ++ rest) = some (data, ⟨rest, reads'⟩) := by
  have hle : data.length ≤ (data ++ rest).length := by
    rw [List.length_append]
    omega
  obtain ⟨reads', hread⟩ : ∃ reads', readExact reads data.length (data ++ rest) = _ := readExact_of_le hle
  refine ⟨reads', ?_⟩
  rw [hread, List.take_left, List.drop_left]

end AbyssalWarden
