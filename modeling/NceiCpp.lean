import NceiCpp.Api.QueryParse
import NceiCpp.Api.CdoClient
import NceiCpp.Api.GetDataAll
import NceiCpp.Api.Completeness
import NceiCpp.Api.PagingServer
import NceiCpp.Api.RequestedOrder
import NceiCpp.Core.RateLimit
import NceiCpp.Core.RateLimitCallers
import NceiCpp.Core.Retry
import NceiCpp.Api.CdoRequests
import NceiCpp.Api.CdoAttempts
import NceiCpp.Api.CdoQuota
import NceiCpp.Api.FaultyTransport
import NceiCpp.Core.CsvParser
import NceiCpp.Core.Cache
import NceiCpp.Common.Number
import NceiCpp.Lib.AssocList
import NceiCpp.Models.DataPoint
import NceiCpp.Models.TableFormats
import NceiCpp.Core.RateLimitRuns
import NceiCpp.Core.DateStrings
import NceiCpp.Core.DateArithmetic
import NceiCpp.Common.FromChars
import NceiCpp.Common.Numeral
import NceiCpp.Common.Strtod
import NceiCpp.Models.ClimateIndex
import NceiCpp.Http.Client
import NceiCpp.Http.ResponseBody
import NceiCpp.Http.ResponseHeaders
import NceiCpp.Lib.DotSegments
import NceiCpp.Api.PathIds
import NceiCpp.Http.Urls
import NceiCpp.Api.DataServiceClient
import NceiCpp.Api.RequestUrls
import NceiCpp.Models.Columns
import NceiCpp.Models.ClimateFeeds
import NceiCpp.Models.FeedPeriods
import NceiCpp.Models.FeedLayout
import NceiCpp.Models.Deserializers
import NceiCpp.Models.NumericAttributes
import NceiCpp.Models.NumericCells
import NceiCpp.Core.RetryDelay
import NceiCpp.Core.RateLimitArithmetic
import NceiCpp.Core.RecordScan
import NceiCpp.Api.CdoRate
import NceiCpp.Core.RateLimitLoops
import NceiCpp.Core.CacheHistory
import NceiCpp.Api.Clients
import NceiCpp.Api.PublishedSeries
import NceiCpp.Models.FeedGrowth
import NceiCpp.Core.CoordinateKey
import NceiCpp.Api.ErrorCauses
import NceiCpp.Api.CdoReturns
