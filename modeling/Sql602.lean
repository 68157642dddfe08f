import Sql602.Library.Run
import Sql602.Library.Digits
import Sql602.Library.Buddy
import Sql602.Library.Bytes
import Sql602.Library.Cells
import Sql602.Library.Probing
import Sql602.Disk.Gcr
import Sql602.Heap.Pieces
import Sql602.Heap.PieceTiling
import Sql602.Heap.Dworm
import Sql602.Heap.DwormLayout
import Sql602.Heap.DwormExpand
import Sql602.Heap.DwormRead
import Sql602.Heap.DwormCounts
import Sql602.Lock.LockTable
import Sql602.Lock.Isolation
import Sql602.Lock.DeadlockWalk
import Sql602.TransLog.Log
import Sql602.TransLog.LogItems
import Sql602.TransLog.LogOps
import Sql602.TransLog.Conservation
import Sql602.Library.Bitmap
import Sql602.Disk.Space
import Sql602.Disk.Growth
import Sql602.Disk.Taking
import Sql602.Disk.BlockOwnership
import Sql602.Disk.Remap
import Sql602.Library.Files
import Sql602.Disk.HotBackup
import Sql602.Disk.BackupRecords
import Sql602.Disk.Transparency
import Sql602.Disk.BackupRuns
import Sql602.Table.Bipointer
import Sql602.Table.BipointerLinks
import Sql602.Table.BipointerWrites
import Sql602.Table.BipointerSymmetry
import Sql602.Table.BipointerRuns
import Sql602.Fulltext.Analyser
import Sql602.Fulltext.Queries
import Sql602.Fulltext.Passing
import Sql602.Fulltext.Phrases
import Sql602.Fulltext.Scanning
import Sql602.Fulltext.Documents
import Sql602.Fulltext.Search
import Sql602.Join.Conditions
import Sql602.Join.Distribution
import Sql602.Library.OuterRows
import Sql602.Join.OuterJoin
import Sql602.Join.OuterPassing
import Sql602.Join.OuterRight
import Sql602.Table.UniqueValues
import Sql602.TransLog.Entries
import Sql602.TransLog.Registrations
import Sql602.Table.FreeRecords
import Sql602.TransLog.RecordFates
import Sql602.TransLog.ChangeMaps
import Sql602.Events.EventDelivery
import Sql602.Events.EventManagement
import Sql602.Library.Chains
import Sql602.Rights.PrivilCache
import Sql602.Rights.PrivilRefinement
import Sql602.Library.Holding
import Sql602.Swap.Transactor
import Sql602.Swap.SwapSpace
import Sql602.ExtIndex.NodePools
import Sql602.ExtIndex.NodeAllocation
import Sql602.ExtIndex.NodeRuns
import Sql602.Table.RecordBlocks
import Sql602.Table.RecordGrowth
import Sql602.Table.RecordShrinking
import Sql602.Table.RecordBlockRuns
import Sql602.Library.Rounding
import Sql602.Convert.Integers
import Sql602.Convert.Scaling
import Sql602.Convert.IntegerTexts
import Sql602.Convert.IntegerConversion
import Sql602.Convert.Timestamps
import Sql602.Convert.TimestampEncoding
import Sql602.Convert.TimestampTexts
import Sql602.Library.Levels
import Sql602.Collation.Weights
import Sql602.Collation.Comparison
import Sql602.Collation.CharacterSets
import Sql602.Swap.PageCache
import Sql602.Swap.PageCopies
import Sql602.Swap.PageSaving
import Sql602.Swap.PageFixing
import Sql602.Swap.FixFailures
import Sql602.Btree.Nodes
import Sql602.Btree.Insertion
import Sql602.Btree.Search
import Sql602.Btree.Division
import Sql602.Btree.InsertFailures
import Sql602.Btree.InsertReports
import Sql602.Library.Layouts
import Sql602.Core.CoreHeap
import Sql602.Core.BlockTags
import Sql602.Core.HeapStages
import Sql602.Core.HeapSteps
import Sql602.Core.HeapCalls
import Sql602.Core.HeapAllocation
import Sql602.Core.CoreRuns
import Sql602.Journal.JournalWindow
import Sql602.Journal.Replay
import Sql602.Library.Neighbours
import Sql602.Sorter.PmatSorter
import Sql602.Btree.Stepping
import Sql602.Btree.Iteration
import Sql602.Btree.Intervals
import Sql602.Library.Closing
import Sql602.Table.Compaction
import Sql602.Table.CompactionRight
import Sql602.Library.Attempts
import Sql602.Table.ColumnWrites
import Sql602.Table.ColumnWritesRight
import Sql602.Sorter.BtreeSorter
import Sql602.Sorter.ChainSorter
import Sql602.Sorter.ChainAccesses
import Sql602.Table.ValueSets
import Sql602.Convert.CalendarDays
import Sql602.Planner.PlannedActions
import Sql602.Library.Slots
import Sql602.Rights.PrivilMaps
import Sql602.Rights.PrivilWrites
import Sql602.Rights.PrivilSetting
import Sql602.Rights.Granting
import Sql602.Rights.ListConversion
import Sql602.Library.Greatest
import Sql602.Backup.Reduction
import Sql602.Trace.MessageCache
import Sql602.Trace.RecentLog
import Sql602.Schemas.SchemaCache
import Sql602.Schemas.SchemaSearch
import Sql602.Schemas.SchemaIdentity
import Sql602.Rights.Memberships
import Sql602.Rights.Hierarchy
import Sql602.TransLog.GenHash
import Sql602.TransLog.IndexPages
import Sql602.TransLog.IndexPageRuns
import Sql602.Library.Wildcards
import Sql602.Library.Firsts
import Sql602.Texts.Like
import Sql602.Library.Pages
import Sql602.Table.RecordLayout
import Sql602.Texts.BlockSearch
import Sql602.Table.RecordLayoutRight
import Sql602.Disk.IntegrityCheck
import Sql602.Disk.IntegrityRight
import Sql602.Disk.IntegrityVerdicts
import Sql602.Library.Redo
import Sql602.Swap.Recovery
import Sql602.Table.IndexAlteration
import Sql602.Table.IndexAlterationRight
import Sql602.Disk.Encryption
import Sql602.Core.Dynar
import Sql602.Core.DynarRuns
import Sql602.Fulltext.Symbols
import Sql602.Export.Exporter
import Sql602.Export.ExportRight
import Sql602.Convert.Money
import Sql602.Convert.MoneyArithmetic
import Sql602.Convert.MoneyTexts
import Sql602.Convert.MoneyAmounts
import Sql602.Convert.MoneyRight
import Sql602.Sequences.Symbols
import Sql602.Sequences.Sequence
import Sql602.Sequences.SequenceTexts
import Sql602.Sequences.SequenceOptions
import Sql602.Sequences.SequenceRight
import Sql602.Changes.RecordHash
import Sql602.Changes.RecordHashRuns
import Sql602.Journal.Worm
import Sql602.Journal.WormRuns
import Sql602.Journal.WormAdding
import Sql602.Journal.WormRight
import Sql602.Lock.DadrLocks
import Sql602.Lock.DadrLocksRight
import Sql602.Lock.DadrLocksRuns
import Sql602.Library.Fences
import Sql602.Btree.Contents
import Sql602.Btree.Growing
import Sql602.Btree.Inserted
import Sql602.Btree.Removal
import Sql602.Btree.Shrinking
import Sql602.Btree.Removed
import Sql602.Query.Distinctor
import Sql602.Query.Union
