import Chimera.Foundations.Run
import Chimera.Foundations.SequencedLog
import Chimera.Foundations.Binary64
import Chimera.Foundations.Kleene
import Chimera.Foundations.QuotedText
import Chimera.Foundations.Representatives
import Chimera.Foundations.Grouping
import Chimera.Foundations.Comparison
import Chimera.Foundations.Interaction
import Chimera.Foundations.Faults
import Chimera.Foundations.Peers
import Chimera.Foundations.Transfers
import Chimera.Foundations.Binary64Exact
import Chimera.Foundations.Binary64Order
import Chimera.Foundations.Binary64Nearest
import Chimera.Foundations.ByteReader
import Chimera.Foundations.Positional
import Chimera.Foundations.Template
import Chimera.Foundations.SqlGrammar
import Chimera.Foundations.SqlMeaning
import Chimera.Foundations.KeyedLog
import Chimera.Translator.Error
import Chimera.Translator.Json
import Chimera.Translator.Bson
import Chimera.Translator.Id
import Chimera.Translator.Codec
import Chimera.Translator.Update
import Chimera.Translator.Paths
import Chimera.Translator.Writes
import Chimera.Translator.ArrayKeys
import Chimera.Translator.Increment
import Chimera.Translator.SetUpdates
import Chimera.Translator.Sort
import Chimera.Translator.SortOrder
import Chimera.Translator.Project
import Chimera.Translator.ProjectionContract
import Chimera.Translator.Filter
import Chimera.Translator.FilterSemantics
import Chimera.Translator.Query
import Chimera.Translator.Negation
import Chimera.Translator.Agreement
import Chimera.Translator.FilterText
import Chimera.Translator.Injection
import Chimera.Translator.Emit
import Chimera.Translator.FilterGrammar
import Chimera.Translator.Meaning
import Chimera.Translator.SqlGuard
import Chimera.Translator.Spelling
import Chimera.Translator.Equality
import Chimera.Translator.PathAgreement
import Chimera.Translator.TimestampOrder
import Chimera.Translator.ExtendedJson
import Chimera.Translator.IdKeys
import Chimera.Translator.Listing
import Chimera.Translator.Mongosh
import Chimera.Translator.Pipeline
import Chimera.Translator.Stages
import Chimera.Translator.GroupStage
import Chimera.Translator.Prefilter
import Chimera.Translator.Presence
import Chimera.Oplog.Stamp
import Chimera.Oplog.Server
import Chimera.Oplog.Invariant
import Chimera.Oplog.History
import Chimera.Oplog.Prune
import Chimera.Oplog.Retention
import Chimera.Oplog.Event
import Chimera.Oplog.Tail
import Chimera.Oplog.Reads
import Chimera.Oplog.Sessions
import Chimera.Oplog.Visibility
import Chimera.Oplog.Positions
import Chimera.Oplog.Tokens
import Chimera.Oplog.Handover
import Chimera.Oplog.Delivery
import Chimera.Plugin.Namespace
import Chimera.Plugin.Sql
import Chimera.Plugin.Collection
import Chimera.Plugin.KeyAgreement
import Chimera.Plugin.Interleaving
import Chimera.Plugin.Serializability
import Chimera.Plugin.CursorRegistry
import Chimera.Plugin.Statement
import Chimera.Plugin.WriteCommands
import Chimera.Plugin.Batches
import Chimera.Plugin.WriteFence
import Chimera.Plugin.FenceRuns
import Chimera.Plugin.NamespaceIdentity
import Chimera.Plugin.ReadCommands
import Chimera.Plugin.TiedValues
import Chimera.Plugin.CursorRuns
import Chimera.Plugin.ReadFrame
import Chimera.Plugin.RoundTrip
import Chimera.Plugin.MongoGateway
import Chimera.Plugin.CountFind
import Chimera.Plugin.AggregateFind
import Chimera.Plugin.AggregateCount
import Chimera.Plugin.Indexes
import Chimera.Plugin.Catalog
import Chimera.Plugin.IndexCreation
import Chimera.Plugin.IndexContract
import Chimera.Plugin.CatalogAgreement
import Chimera.Plugin.CatalogRuns
import Chimera.Plugin.IllTyped
import Chimera.Plugin.Reselection
import Chimera.Plugin.Render
import Chimera.Plugin.Upsert
import Chimera.Plugin.BatchEffects
import Chimera.Plugin.Mirror
import Chimera.Plugin.MirrorRuns
import Chimera.Plugin.Wire
import Chimera.Plugin.Listener
import Chimera.Translator.MergePatch
import Chimera.Plugin.Projection
import Chimera.Plugin.ProjectionRuns
import Chimera.Plugin.OplogFind
import Chimera.Translator.ShellGrammar
import Chimera.Translator.ShellAcceptance
import Chimera.Translator.ShellNumbers
import Chimera.Translator.ShellStrings
import Chimera.Translator.ShellRenderings
import Chimera.Translator.ResumeToken
import Chimera.Translator.StageOptions
import Chimera.Plugin.Replies
import Chimera.Plugin.Replication
import Chimera.Plugin.ReplicaRuns
import Chimera.Plugin.ListenerThreads
import Chimera.Plugin.Transport
import Chimera.Plugin.PingExchange
import Chimera.Oplog.Seeding
import Chimera.Plugin.SchemaInstall
import Chimera.Plugin.InstallPhases
import Chimera.Plugin.InstallInvariant
import Chimera.Plugin.InstallRuns
