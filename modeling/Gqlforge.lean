import Gqlforge.AccessRoundTrip
import Gqlforge.AssignedColumns
import Gqlforge.BatchedLoads
import Gqlforge.CacheHeaders
import Gqlforge.CachedFields
import Gqlforge.CheckSoundness
import Gqlforge.Chunks
import Gqlforge.ColumnNames
import Gqlforge.CompileTermination
import Gqlforge.DedupeProtocol
import Gqlforge.Discriminators
import Gqlforge.EnumLeaves
import Gqlforge.FilledUrls
import Gqlforge.GraphqlBodies
import Gqlforge.GrpcBatches
import Gqlforge.GrpcFrames
import Gqlforge.GuardedClaims
import Gqlforge.ImprovedNames
import Gqlforge.InputAcceptance
import Gqlforge.ItemAnswers
import Gqlforge.KeptValues
import Gqlforge.LineBreaks
import Gqlforge.LinkedExtensions
import Gqlforge.ListenDriver
import Gqlforge.LosslessSchemas
import Gqlforge.Merging
import Gqlforge.MissingOperands
import Gqlforge.NestedUnions
import Gqlforge.NumericTexts
import Gqlforge.ParamRoundTrip
import Gqlforge.ProtectedAnswers
import Gqlforge.ProtoImports
import Gqlforge.QueryStrings
import Gqlforge.RedisListener
import Gqlforge.RedisStream
import Gqlforge.RenderedValues
import Gqlforge.ReportedPaths
import Gqlforge.RestRewrites
import Gqlforge.SampledOperations
import Gqlforge.SchemaComposition
import Gqlforge.SchemaSubtypes
import Gqlforge.SentBodies
import Gqlforge.ServedLeaves
import Gqlforge.SqlIndependence
import Gqlforge.SseStreams
import Gqlforge.StoredCells
import Gqlforge.Subgraph
import Gqlforge.SurvivingConfigs
import Gqlforge.SynthPaths
import Gqlforge.TreeShake
import Gqlforge.UnionFreeInputs
import Gqlforge.Uuids
import Gqlforge.WorkerRoundTrip
