import GoCoupe.CanonicalNumberIndex
import GoCoupe.HeadPointers
import GoCoupe.ForkChoice
import GoCoupe.TransactionLookup
import GoCoupe.HeaderQueryExactness
import GoCoupe.HeaderRules
import GoCoupe.MinerUncles
import GoCoupe.DatabaseItems
import GoCoupe.LogFilterCompleteness
import GoCoupe.ReceiptChainImport
import GoCoupe.RawStreamValues
import GoCoupe.StreamAccounting
import GoCoupe.EncodedOutput
import GoCoupe.AccountEncoding
import GoCoupe.BlockWireCanonicity
import GoCoupe.RunLengthCoding
import GoCoupe.ProtocolAgreement
import GoCoupe.DialTaskAccounting
import GoCoupe.RlpxFrames
import GoCoupe.TableClosing
import GoCoupe.ServerStopSafety
import GoCoupe.TableBuckets
import GoCoupe.NeighborPackets
import GoCoupe.RandomNodes
import GoCoupe.WhisperDelivery
import GoCoupe.FetcherAccounting
import GoCoupe.FetcherBlame
import GoCoupe.FetcherCleaning
import GoCoupe.PoolRetentionRuns
import GoCoupe.RawSplittingExactness
import GoCoupe.TrieSyncRuns
import GoCoupe.DerivedRoots
import GoCoupe.TrieArbitraryKeys
import GoCoupe.TrieIteration
import GoCoupe.EvmCallTree
import GoCoupe.SignatureRecovery
import GoCoupe.EvmMemoryFees
import GoCoupe.EvmWordArithmetic
import GoCoupe.DownloadDeliveries
import GoCoupe.MinerTransactions
import GoCoupe.MinerGas
import GoCoupe.NonceVerification
import GoCoupe.HashQueries
import GoCoupe.EnvelopeExpiry
import GoCoupe.AccountUnlocks
import GoCoupe.DialBudgets
import GoCoupe.NodeDistances
import GoCoupe.ManagedNonces
import GoCoupe.PendingReplies
