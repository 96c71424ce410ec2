import TagGateway.Cache.TombstoneOrder
import TagGateway.Proxy.AccessChange
import TagGateway.Proxy.AnonymousReads
import TagGateway.Proxy.BackgroundFill
import TagGateway.Proxy.Isolation
import TagGateway.Proxy.PopulateWhole
import TagGateway.Proxy.TieredConditional
import TagGateway.Proxy.Transparency
import TagGateway.Proxy.CrossTierCleanup
import TagGateway.Proxy.BodyFailures
import TagGateway.Proxy.NoStoreReads
import TagGateway.Proxy.ReadGrants
import TagGateway.Proxy.FetchRegistry
import TagGateway.Broadcast.Delivery
import TagGateway.Proxy.ByteBudget
import TagGateway.Handlers.Shutdown
import TagGateway.Proxy.BulkDelete
import TagGateway.Proxy.CompletionReplay
import TagGateway.Proxy.ConditionalReads
import TagGateway.Proxy.PutIntegrity
import TagGateway.Proxy.ChunkedWire
import TagGateway.Proxy.CachedBody
import TagGateway.Auth.Agreement
import TagGateway.Auth.CanonicalQuery
import TagGateway.Proxy.BlockInvalidation
import TagGateway.Proxy.Promotion
import TagGateway.Cache.EntityTags
import TagGateway.Cache.RemoteBlock
import TagGateway.Proxy.DirectiveGrammar
import TagGateway.Proxy.RangeServe
import TagGateway.Proxy.BlockTiling
import TagGateway.Proxy.ParquetPrefetch
