import Vsys.Chain.Checkpoints
import Vsys.Chain.Identity
import Vsys.Chain.LeaseBook
import Vsys.Chain.Records
import Vsys.Chain.SlotOwners
import Vsys.Chain.Minting
import Vsys.Chain.Pages
import Vsys.Chain.BlockBytes
import Vsys.Chain.PoolPortfolios
import Vsys.Chain.Reorganisations
import Vsys.Chain.Entries
import Vsys.Chain.Snapshots
import Vsys.Chain.BlockCrashes
import Vsys.Chain.Forging
import Vsys.Chain.Restarts
import Vsys.Chain.Makers
import Vsys.Chain.TokenLedgers
import Vsys.Chain.Confirmations
import Vsys.Network.Messages
import Vsys.Network.ScoreObserver
import Vsys.Network.OptimisticExtension
import Vsys.Network.Exchange
import Vsys.Chain.HistoryStorage
import Vsys.Network.Frames
import Vsys.Network.Payloads
import Vsys.Opc.Assembly
import Vsys.Contract.Entries
import Vsys.Network.Handshake
import Vsys.Diffs.Solvency
import Vsys.Diffs.Atomicity
import Vsys.Opc.Crashes
import Vsys.Network.PeerDatabase
import Vsys.Db.NestedCodecs
import Vsys.Db.StateMaps
import Vsys.Matcher.OrderHistory
import Vsys.Exchange.Fills
