import InsDb.Library.Varint
import InsDb.Column
import InsDb.Library.Sweep
import InsDb.Row
import InsDb.UserKey
import InsDb.VerticalMerge
import InsDb.Library.OuterJoin
import InsDb.ScratchPad
import InsDb.Db
import InsDb.Store
import InsDb.PadCache
import InsDb.Iterator
import InsDb.IteratorOrder
import InsDb.WriteBatch
import InsDb.TransactionLog
import InsDb.TransactionCount
import InsDb.BatchSnapshot
import InsDb.FlushColumn
import InsDb.FetchRow
import InsDb.FlushKey
import InsDb.Flush
import InsDb.CompactRange
import InsDb.Library.Run
import InsDb.WorkerLog
import InsDb.WorkerChain
import InsDb.WorkerLogOrder
import InsDb.CleanupRecord
import InsDb.LogRecord
import InsDb.RecoveredColumns
import InsDb.Recovery
import InsDb.RecoveredTransactions
import InsDb.CrashRecovery
import InsDb.Submission
import InsDb.PendingNodes
import InsDb.RequestQueue
import InsDb.SubmitQueue
import InsDb.TransactionEntries
import InsDb.TransactionThreads
import InsDb.TransactionConservation
import InsDb.TransactionRounds
import InsDb.TableImage
import InsDb.TableChain
import InsDb.ColumnHistory
import InsDb.KeyHistory
import InsDb.LatestVersion
import InsDb.StoredKey
import InsDb.HistoryReads
import InsDb.LatestSequence
import InsDb.BatchBytes
import InsDb.PrefixIterator
import InsDb.SnapshotList
import InsDb.Library.Reorder
import InsDb.Library.Parts
import InsDb.Coding
import InsDb.Library.Layout
import InsDb.UpdateList
import InsDb.KeyBlock
import InsDb.KeyBlockMeta
import InsDb.ManifestFormat
import InsDb.TableFormat
import InsDb.TableLoading
import InsDb.RowFormat
import InsDb.TableRecovery
import InsDb.Driver.CarriedKey
import InsDb.Driver.Coherence
import InsDb.Driver.FlushWait
import InsDb.Driver.MultiCommand
import InsDb.BufferEstimates
import InsDb.CompletedGroups
import InsDb.ChainOrder
import InsDb.TableCache
import InsDb.TableEstimate
import InsDb.RecordedCount
import InsDb.SharedMeta
import InsDb.Driver.MultiCompletion
import InsDb.KvdbMerge
import InsDb.Driver.CopiedBytes
import InsDb.Driver.HashLocks
import InsDb.Driver.MultiIosched
import InsDb.UncompletedColumns
import InsDb.Driver.KvFifo
import InsDb.KvdbSnapshots
import InsDb.SavePoints
import InsDb.VarintCoding
import InsDb.SkipListHeight
import InsDb.SkipList2
import InsDb.IteratedReads
