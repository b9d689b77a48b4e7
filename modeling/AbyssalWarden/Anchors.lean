import AbyssalWarden.Audit
import AbyssalWarden.Collect
import AbyssalWarden.Protocol

/-! Comparing the local audit chain with the anchors sent to the system log. -/
namespace AbyssalWarden

/-- One anchor as found in the system log; the chain is absent in anchors written before it existed. -/
structure Anchor where
  seq : ℕ
  hash : String
  chain : Option String
  deriving DecidableEq

/-- The outcome of comparing a chain with its anchors. -/
structure AnchorComparison where
  /-- Local entries. -/
  entries : ℕ
  /-- Local entries whose anchor matches. -/
  matched : ℕ
  /-- Sequence numbers anchored with a different hash: the local chain was altered. -/
  mismatched : List ℕ
  /-- Anchored sequence numbers beyond the local head: entries were removed from the end. -/
  missingLocally : List ℕ
  /-- Local entries with no anchor. -/
  unanchored : ℕ
  /-- Anchors for other chains and anchors without a chain identifier. -/
  otherChains : ℕ
  deriving DecidableEq

/-- No evidence of tampering. -/
def AnchorComparison.consistent (c : AnchorComparison) : Bool := c.mismatched.isEmpty && c.missingLocally.isEmpty

/-- `a - b` on `u64`, which wraps around in a release build. -/
def subU64 (a b : ℕ) : ℕ := if b ≤ a then a - b else a + 2^64 - b

namespace Chain

/-- The identifier of a chain: the first 16 hex digits of the hash of its first entry. -/
def id (chain : List (ℕ × String)) : Option String := chain.head?.map fun e => String.ofList (e.2.toList.take 16)

/-- The hash of a local entry; of two with one number the later one counts. -/
def localHash (chain : List (ℕ × String)) (seq : ℕ) : Option String := chain.reverse.lookup seq

def head (chain : List (ℕ × String)) : ℕ := (chain.getLast?.map Prod.fst).getD 0

/-- One round of the loop of `compare_anchors`: the numbers matched so far, and the outcome. -/
def compareAnchor (chain : List (ℕ × String)) (acc : List ℕ × AnchorComparison) (a : Anchor) :
    List ℕ × AnchorComparison :=
  let (anchored, out) := acc
  if a.chain = none ∨ a.chain ≠ id chain then (anchored, { out with otherChains := out.otherChains + 1 })
  else
    match localHash chain a.seq with
    | some h =>
      if h = a.hash then
        if a.seq ∈ anchored then acc else (pushNew anchored a.seq, { out with matched := out.matched + 1 })
      else (anchored, { out with mismatched := pushNew out.mismatched a.seq })
    | none =>
      if a.seq > head chain then (anchored, { out with missingLocally := pushNew out.missingLocally a.seq })
      else acc

/-- Compares the local chain (`(seq, hash)` for every entry) with anchors. -/
def compareAnchors (chain : List (ℕ × String)) (anchors : List Anchor) : AnchorComparison :=
  let (_, out) := anchors.foldl (compareAnchor chain) ([], ⟨chain.length, 0, [], [], 0, 0⟩)
  { out with unanchored := subU64 (subU64 out.entries out.matched) out.mismatched.length }

end Chain

/-! ### The periodic check -/

/-- The check of a store that exists or not, with its chain and the anchors of the journal as they are read. -/
def checkAudit (now : OffsetDateTime) (storeExists : Bool) (readChain : Except String (List (ℕ × String)))
    (readAnchors : Except String (List Anchor)) : AuditStatus :=
  let status : AuditStatus := ⟨now, false, 0, false, 0, [], [], 0, 0, false, ""⟩
  -- without a store there is nothing that could have been tampered with
  if !storeExists then
    { status with
      chainOk := true
      consistent := true
      detail := "no quarantine store yet" }
  else
    match readChain with
    | .error e => { status with detail := "audit chain invalid or unreadable: " ++ e }
    | .ok chain =>
      match readAnchors with
      -- a journal that cannot be read leaves the chain as it was found
      | .error why =>
        { status with
          chainOk := true
          entries := chain.length
          consistent := true
          detail := "chain valid; anchors not compared (" ++ why ++ ")" }
      | .ok anchors =>
        let cmp := Chain.compareAnchors chain anchors
        { checkedAt := now
          chainOk := true
          entries := chain.length
          journalChecked := true
          matched := cmp.matched
          mismatched := cmp.mismatched
          missingLocally := cmp.missingLocally
          unanchored := cmp.unanchored
          otherChains := cmp.otherChains
          consistent := cmp.consistent
          detail :=
            if cmp.consistent then
              toString cmp.matched ++ " of " ++ toString chain.length ++
                " entries anchored in the journal and matching"
            else
              "the audit log does not match the anchors in the system journal: it was altered or truncated" }

end AbyssalWarden
