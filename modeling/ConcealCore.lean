import ConcealCore.Lib.Varint
import ConcealCore.Lib.KeyedStack
import ConcealCore.Lib.Codec
import ConcealCore.Spec.Types
import ConcealCore.Spec.Serialization
import ConcealCore.Spec.Deserialization
import ConcealCore.Spec.Crypto
import ConcealCore.Spec.FormatUtils
import ConcealCore.Spec.TransactionCaches
import ConcealCore.Proof.PushPop
import ConcealCore.Spec.Currency
import ConcealCore.Spec.Interest
import ConcealCore.Spec.Difficulty
import ConcealCore.Spec.Blockchain
import ConcealCore.Proof.Rollback
import ConcealCore.Proof.AltDifficulty
import ConcealCore.Proof.Format
import ConcealCore.Spec.Checkpoints
import ConcealCore.Spec.TransactionExtra
import ConcealCore.Spec.Validation
import ConcealCore.Spec.Pool
import ConcealCore.Spec.AddNewBlock
import ConcealCore.Proof.Finality
import ConcealCore.Proof.Residue
import ConcealCore.Proof.Emission
import ConcealCore.Proof.Deposit
import ConcealCore.Lib.WideArith
import ConcealCore.Spec.IntUtil
import ConcealCore.Proof.Reward
import ConcealCore.Proof.DepositIndex
import ConcealCore.Proof.Difficulty
import ConcealCore.Proof.PoolInvariant
import ConcealCore.Lib.Descent
import ConcealCore.Spec.JsonValue
import ConcealCore.Spec.KVBinary
import ConcealCore.Proof.ParseDepth
import ConcealCore.Proof.ParseTermination
import ConcealCore.Lib.Throwing
import ConcealCore.Spec.TransfersContainer
import ConcealCore.Spec.TransfersQueries
import ConcealCore.Proof.Transfers
import ConcealCore.Lib.MultiIndex
import ConcealCore.Proof.TransfersLedger
import ConcealCore.Proof.TransfersOrder
import ConcealCore.Lib.FixedDigits
import ConcealCore.Spec.Base58
import ConcealCore.Proof.Base58
import ConcealCore.Proof.TransactionExtra
import ConcealCore.Spec.MinerTx
import ConcealCore.Proof.MinerTx
import ConcealCore.Lib.ByteFile
import ConcealCore.Spec.SwappedVector
import ConcealCore.Proof.SwappedVector
import ConcealCore.Spec.BlockTemplate
import ConcealCore.Proof.BlockTemplate
import ConcealCore.Lib.RunningSums
import ConcealCore.Proof.OutputOffsets
import ConcealCore.Lib.Decimal
import ConcealCore.Spec.Amount
import ConcealCore.Proof.Amount
import ConcealCore.Lib.SparseHeights
import ConcealCore.Spec.BlockIndex
import ConcealCore.Proof.BlockIndex
import ConcealCore.Spec.Mnemonics
import ConcealCore.Proof.WordList
import ConcealCore.Proof.Mnemonics
import ConcealCore.Lib.TimeIndex
import ConcealCore.Spec.PeerList
import ConcealCore.Proof.PeerList
import ConcealCore.Spec.TransfersStorage
import ConcealCore.Proof.TransfersStorage
import ConcealCore.Proof.TransfersUntied
import ConcealCore.Proof.TransfersRestore
import ConcealCore.Spec.KVBinaryOutput
import ConcealCore.Spec.KVBinaryDoc
import ConcealCore.Proof.KVBinaryRoundTrip
