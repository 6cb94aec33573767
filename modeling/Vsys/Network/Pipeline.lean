import Vsys.Lib.Transducer
import Vsys.Network.Messages

/-!
# The pipeline of a channel

What the handlers of a channel pass to one another: the messages of the network as `MessageCodec`
decodes them, and the requests and answers that never leave the node.
-/

namespace Vsys

open Lib

/-- `ExtensionIds`: the last block both sides have, and the blocks that follow it. -/
structure ExtensionIds where
  lastCommonId : ByteStr
  extensionIds : List ByteStr
  deriving DecidableEq

variable [Platform]

/-- The objects that travel through a pipeline. -/
inductive Signal where
  | getPeers
  | knownPeers (peers : List InetSocketAddress)
  | getSignatures (signatures : List ByteStr)
  | signatures (signatures : List ByteStr)
  | getBlock (signature : ByteStr)
  | block (b : Block)
  | score (newScore : Int)
  | checkpoint (checkpoint : Checkpoint)
  | transaction (tx : Transaction)
  | rawBytes (bytes : RawBytes)
  | handshake
  | localScoreChanged (newLocalScore : Int)
  | loadBlockchainExtension (lastBlockIds : List ByteStr)
  | extensionIds (xid : ExtensionIds)
  | extensionBlocks (extension : List Block)
  deriving DecidableEq

/-- What a handler does with its channel. -/
inductive Effect where
  /-- Hands an object to the next handler upstream. -/
  | fireChannelRead (msg : Signal)
  /-- Hands an object to the next handler downstream. -/
  | write (msg : Signal)
  /-- `promise.setSuccess()`: a write ends here. -/
  | setSuccess
  /-- `peerDatabase.blacklistAndClose` of the channel. -/
  | blacklistAndClose (reason : String)
  /-- An exception leaves the handler. -/
  | raised (e : Fault)
  deriving DecidableEq

end Vsys
