import CryptoNote.Lib.ByteStream
import CryptoNote.Lib.Leb128
import CryptoNote.Lib.Codec
import CryptoNote.Lib.ByteFile
import CryptoNote.Lib.LruCache
import CryptoNote.Lib.Simulation
import CryptoNote.Lib.Radix
import CryptoNote.Types
import CryptoNote.Common.JsonValue
import CryptoNote.Common.JsonRoundTrip
import CryptoNote.Stream.Primitives
import CryptoNote.Stream.Codec
import CryptoNote.Storage.BlockAccessor
import CryptoNote.Storage.Refinement
import CryptoNote.Serialization.ISerializer
import CryptoNote.Serialization.Basics
import CryptoNote.Serialization.Format
import CryptoNote.Serialization.KVBinary
import CryptoNote.Serialization.KVBinaryVarint
import CryptoNote.Crypto.Difficulty
import CryptoNote.Common.Base58
import CryptoNote.Common.Address
import CryptoNote.Lib.OrderedIndex
import CryptoNote.P2p.PeerList
import CryptoNote.Core.TransactionExtra
import CryptoNote.Core.Indexing
import CryptoNote.Core.FormatUtils
import CryptoNote.Core.Currency
import CryptoNote.Core.MinerTransaction
import CryptoNote.Core.TxMemoryPool
import CryptoNote.Core.Checkpoints
import CryptoNote.Lib.StateExcept
import CryptoNote.Core.Blockchain
import CryptoNote.Core.BlockchainUpdate
import CryptoNote.Core.BlockchainPush
import CryptoNote.Core.BlockchainSwitch
import CryptoNote.Core.Reorganisation
import CryptoNote.Core.CheckpointSafety
import CryptoNote.Core.BlockTemplate
import CryptoNote.Transfers.TransfersContainer
import CryptoNote.Transfers.Detach
import CryptoNote.Transfers.Visibility
import CryptoNote.Lib.ListWindow
import CryptoNote.Transfers.SynchronizationState
import CryptoNote.Core.BlockIndex
import CryptoNote.Lib.DecimalText
import CryptoNote.Core.AmountText
import CryptoNote.Core.AlternativeWindows
import CryptoNote.Common.ShuffleGenerator
import CryptoNote.Core.RandomOuts
import CryptoNote.Rpc.ExplorerHandlers
import CryptoNote.Transfers.ContainerStorage
import CryptoNote.Lib.LowerBound
import CryptoNote.Core.QueryBlocks
import CryptoNote.Transfers.BlockchainSynchronizer
import CryptoNote.Transfers.SyncRound
import CryptoNote.Transfers.SynchronizerFsm
import CryptoNote.Lib.Reconcile
import CryptoNote.Core.PoolChanges
import CryptoNote.Transfers.PoolSync
import CryptoNote.Lib.RequestLedger
import CryptoNote.Protocol.BlockDownload
import CryptoNote.Protocol.Connection
import CryptoNote.Protocol.GetObjects
import CryptoNote.Protocol.Link
import CryptoNote.Protocol.ChainExchange
