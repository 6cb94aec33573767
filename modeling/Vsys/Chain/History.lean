import Vsys.Chain.Block

/-!
# The history

`HistoryWriterImpl`: the blocks as bytes under their heights, their identifiers both ways, and the
score of the chain up to each height.
-/

namespace Vsys

open Lib

variable [Platform]

/-- The maps of `HistoryWriterImpl`. -/
structure History where
  height : Nat
  blockBodyByHeight : Dict Nat ByteStr
  scoreByHeight : Dict Nat Int
  blockIdByHeight : Dict Nat ByteStr
  heightByBlockId : Dict ByteStr Nat

namespace History

/-- The history of a new database. -/
def empty : History := ⟨0, ∅, ∅, ∅, ∅⟩

/-- `blockBytes`. -/
def blockBytes (h : History) (height : Nat) : Option ByteStr := h.blockBodyByHeight.lookup height

/-- `heightOf`. -/
def heightOf (h : History) (blockSignature : ByteStr) : Option Nat :=
  h.heightByBlockId.lookup blockSignature

/-- `scoreOf`. -/
def scoreOf (h : History) (id : ByteStr) : Option Int :=
  (h.heightOf id).map fun height => (h.scoreByHeight.lookup height).getD 0

/-- `blockAt`, which raises when the stored bytes are no block. -/
def blockAt (h : History) (height : Nat) : Result (Option Block) :=
  match h.blockBytes height with
  | none => .ok none
  | some bytes => some <$> explicitGet (Block.parseBytes bytes)

/-- `lastBlock`. -/
def lastBlock (h : History) : Result (Option Block) := h.blockAt h.height

/-- `score`. -/
def score (h : History) : Result Int := do
  let last ← h.lastBlock
  .ok ((last.bind fun b => h.scoreOf b.uniqueId).getD 0)

/-- `contains`. -/
def contains (h : History) (signature : ByteStr) : Bool := (h.heightOf signature).isSome

/-- `parent`. -/
def parent (h : History) (block : Block) : Result (Option Block) :=
  match h.heightOf block.reference with
  | none => .ok none
  | some referenceHeight => h.blockAt referenceHeight

/-- The changes of `appendBlock`'s batch. -/
def push (h : History) (block : Block) (bytes : ByteStr) (score : Int) : History where
  height := h.height + 1
  blockBodyByHeight := h.blockBodyByHeight.insert (h.height + 1) bytes
  scoreByHeight := h.scoreByHeight.insert (h.height + 1) score
  blockIdByHeight := h.blockIdByHeight.insert (h.height + 1) block.uniqueId
  heightByBlockId := h.heightByBlockId.insert block.uniqueId (h.height + 1)

/-- Whether the history can take `block` next. -/
def isNext (h : History) (block : Block) : Result Bool :=
  if h.height = 0 then .ok true
  else do
    let last ← h.lastBlock
    let last ← getOrRaise .noSuchElement last
    .ok (last.uniqueId = block.reference)

/-- `appendBlock`: the diff of the validation and the longer history. -/
def appendBlock (h : History) (block : Block) (consensusValidation : Result BlockDiff) :
    Result (BlockDiff × History) := do
  if ← h.isNext block then
    let blockDiff ← consensusValidation
    let oldScore ← if h.height = 0 then .ok 0 else h.score
    let bytes ← block.bytes
    .ok (blockDiff, h.push block bytes (oldScore + block.blockScore))
  else
    let last ← h.lastBlock
    let lastId := optionText (last.map fun b => Platform.base58 b.uniqueId)
    left (.genericError
      s!"Parent {Platform.base58 block.reference} of block {Platform.base58 block.uniqueId} does not match last local block {lastId}")

/-- The transactions of the last block, none when its bytes cannot be read. -/
def lastTransactions (h : History) : List Transaction :=
  match Block.parseBytes ((h.blockBytes h.height).getD []) with
  | .ok b => b.transactions
  | .error _ => []

/-- The history after `discardBlock`. -/
def pop (h : History) : History where
  height := h.height - 1
  blockBodyByHeight := h.blockBodyByHeight.erase h.height
  scoreByHeight := h.scoreByHeight.erase h.height
  blockIdByHeight := h.blockIdByHeight.erase h.height
  heightByBlockId :=
    match h.blockIdByHeight.lookup h.height with
    | some id => h.heightByBlockId.erase id
    | none => h.heightByBlockId

/-- `discardBlock`. -/
def discardBlock (h : History) : List Transaction × History := (h.lastTransactions, h.pop)

/-- `discardBlock`, `count` times: the transactions, newest block first, and the history left. -/
def discardBlocks : Nat → History → List Transaction × History
  | 0, h => ([], h)
  | count + 1, h =>
      let (transactions, h) := h.discardBlock
      let (rest, h) := discardBlocks count h
      (transactions ++ rest, h)

end History

end Vsys
