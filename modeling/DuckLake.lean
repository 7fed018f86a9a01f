import DuckLake.Storage.CompactionConflicts
import DuckLake.Storage.FilePruning
import DuckLake.Storage.Placeholders
import DuckLake.Lib.Attempt
import DuckLake.Storage.CommitAttempt
import DuckLake.Storage.CommitChanges
import DuckLake.Storage.CommitRetry
import DuckLake.Storage.SchemaConflicts
import DuckLake.Storage.CommitLoop
import DuckLake.Storage.LastSpec
import DuckLake.Storage.RowIds
import DuckLake.Lib.Validity
import DuckLake.Storage.Metadata
import DuckLake.Storage.ExpireSnapshots
import DuckLake.Storage.WrittenIds
import DuckLake.Storage.CommittedReferences
import DuckLake.Storage.NewObjects
import DuckLake.Storage.CommittedBatch
import DuckLake.Storage.CommitInvariant
import DuckLake.Storage.ConfigOptions
import DuckLake.Storage.Delete
import DuckLake.Storage.DeletedRows
import DuckLake.Lib.SqlLiteral
import DuckLake.Storage.DataFileRows
import DuckLake.Storage.CleanupFiles
import DuckLake.Storage.CleanupRuns
import DuckLake.Storage.AlteredTables
import DuckLake.Storage.InlinedTableRuns
import DuckLake.Storage.NewInlinedTables
import DuckLake.Lib.Grouping
import DuckLake.Storage.Compaction
import DuckLake.Storage.CompactionGroups
import DuckLake.Storage.CompactionRows
import DuckLake.Storage.CompactedTables
import DuckLake.Storage.CompactionIdentity
import DuckLake.Common.Murmur3
import DuckLake.Lib.Bytes
import DuckLake.Lib.Cursor
import DuckLake.Lib.Runs
import DuckLake.Replication.InactiveJobs
import DuckLake.Storage.BucketPruning
import DuckLake.Storage.DeleteFilter
import DuckLake.Storage.DeletionVector
import DuckLake.Storage.DeletionVectorBounds
import DuckLake.Storage.DeletionVectorRoundTrip
import DuckLake.Storage.PlainRoaring
import DuckLake.Storage.Puffin
import DuckLake.Storage.PuffinBounds
import DuckLake.Storage.PuffinRoundTrip
import DuckLake.Functions.AggregateDeltas
import DuckLake.Functions.RefreshConditions
import DuckLake.Storage.InlineData
import DuckLake.Storage.InlineDataRuns
import DuckLake.Storage.NotNullStatistics
import DuckLake.Common.StatsOrder
import DuckLake.Functions.FlushInlinedData
import DuckLake.Lib.Binary64
import DuckLake.Lib.JsonText
import DuckLake.Storage.DeleteFileFormats
import DuckLake.Storage.DeleteFormatsAgree
import DuckLake.Storage.DynamicFilters
import DuckLake.Storage.StringBounds
import DuckLake.Storage.FilterTrees
import DuckLake.Storage.GeoStats
import DuckLake.Storage.JsonReader
import DuckLake.Storage.VariantPaths
import DuckLake.Functions.ParquetSchema
import DuckLake.Lib.Chains
import DuckLake.Lib.Glob
import DuckLake.Replication.TablePatterns
import DuckLake.Storage.InlinedRowFilter
import DuckLake.Storage.SchemaTree
import DuckLake.Storage.ShreddedVariants
import DuckLake.Storage.TableConstraints
import DuckLake.Storage.FieldAlters
import DuckLake.Lib.SqlReader
import DuckLake.Replication.WatermarkRuns
import DuckLake.Storage.PartitionExpressions
import DuckLake.Storage.PartitionKeys
import DuckLake.Lib.LastChanges
import DuckLake.Lib.LiveRows
import DuckLake.Lib.VersionChain
import DuckLake.Storage.CommentRuns
import DuckLake.Functions.RbacFunctions
import DuckLake.Storage.NameMapCache
import DuckLake.Storage.StagedNameMaps
import DuckLake.Storage.NotNullRuns
