import TaxlienGateway.Framework.Implement
import TaxlienGateway.Framework.UpsertLog
import TaxlienGateway.Framework.Facade
import TaxlienGateway.Framework.Lease
import TaxlienGateway.Framework.LeaseQueue
import TaxlienGateway.SharedRedis.Registry
import TaxlienGateway.SharedRedis.Gateways
import TaxlienGateway.SharedRedis.InternalApps
import TaxlienGateway.SharedRedis.Deployment
import TaxlienGateway.SharedRedis.Starvation
import TaxlienGateway.Server.Http
import TaxlienGateway.Server.Answers
import TaxlienGateway.WorkerApi.ParcelTable
import TaxlienGateway.Legacy.ApiAnswers
import TaxlienGateway.Legacy.Breakers
import TaxlienGateway.Legacy.ServiceTraffic
import TaxlienGateway.Legacy.RateLimitedApi
import TaxlienGateway.Handler.Batch
import TaxlienGateway.WorkerApi.Persist
import TaxlienGateway.WorkerApi.Acknowledged
import TaxlienGateway.Legacy.Results
import TaxlienGateway.Legacy.WireFormat
import TaxlienGateway.Legacy.Drain
import TaxlienGateway.Legacy.ClockSkew
import TaxlienGateway.Legacy.ServiceClient
import TaxlienGateway.Legacy.TierOrder
import TaxlienGateway.Framework.ExpiringStore
import TaxlienGateway.Framework.TimedPool
import TaxlienGateway.Legacy.Auth
import TaxlienGateway.Legacy.HalfOpen
import TaxlienGateway.Legacy.Await
import TaxlienGateway.Legacy.UsageTracker
import TaxlienGateway.Legacy.DailyQuota
import TaxlienGateway.Framework.Accounting
import TaxlienGateway.Legacy.ApiConduct
import TaxlienGateway.Legacy.UpstreamBound
import TaxlienGateway.Legacy.UsageReport
import TaxlienGateway.Legacy.Refusals
import TaxlienGateway.Legacy.PropertyCache
import TaxlienGateway.Legacy.CacheTransparency
import TaxlienGateway.Framework.Promise
import TaxlienGateway.Service.WorkerRegistry
import TaxlienGateway.SharedRedis.Expiry
import TaxlienGateway.Service.Batching
import TaxlienGateway.Service.InsertedFlag
import TaxlienGateway.Legacy.Completion
import TaxlienGateway.Framework.Timestamp
import TaxlienGateway.Model.Response
import TaxlienGateway.Handler.Work
import TaxlienGateway.Legacy.Responses
import TaxlienGateway.Legacy.Forwarding
import TaxlienGateway.Legacy.GenuineTier
import TaxlienGateway.Framework.Environment
import TaxlienGateway.Legacy.BucketReplies
import TaxlienGateway.Legacy.BatchCounts
import TaxlienGateway.Handler.BatchRun
import TaxlienGateway.Handler.Resubmit
import TaxlienGateway.Handler.Release
import TaxlienGateway.Middleware.WorkerAuth
import TaxlienGateway.Handler.UploadRun
import TaxlienGateway.Legacy.RawFiles
import TaxlienGateway.SharedRedis.Keys
