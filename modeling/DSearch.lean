import DSearch.Api.Backup
import DSearch.Api.ClientAnswers
import DSearch.Api.GatewayIsolation
import DSearch.Api.KeyRaces
import DSearch.Api.PathSafety
import DSearch.Api.QueryTransport
import DSearch.Api.RateLimits
import DSearch.Api.RecordLookup
import DSearch.Api.RequestBody
import DSearch.Api.SignedPosts
import DSearch.Bootstrap.Discovery
import DSearch.Config.SetCommand
import DSearch.Config.SetRequests
import DSearch.Config.Version
import DSearch.Model.FormatChars
import DSearch.Node.Acks
import DSearch.Node.Connection
import DSearch.Node.Convergence
import DSearch.Node.Panics
import DSearch.Node.PeersFile
import DSearch.Node.RelayAccounting
import DSearch.Node.Replication
import DSearch.Node.SearchScan
import DSearch.Node.Server
import DSearch.Node.StunAnswers
import DSearch.Node.Traffic
import DSearch.Node.Transfer
import DSearch.Node.Trust
import DSearch.Node.ZeroDistance
import DSearch.Proto.IdentityChecks
import DSearch.Scraper.ApiItems
import DSearch.Scraper.Base64
import DSearch.Scraper.FeedRoundTrip
import DSearch.Scraper.Mirror
import DSearch.Scraper.OnChange
import DSearch.Scraper.Sandbox
import DSearch.Scraper.SchedulerLoop
import DSearch.Search.Dates
import DSearch.Search.Narrowing
import DSearch.Search.OrOperand
import DSearch.Search.RoundTrip
import DSearch.Storage.Eviction
import DSearch.Storage.IndexSearch
import DSearch.Storage.Pins
import DSearch.Storage.Schema
import DSearch.Storage.SignatureText
import DSearch.Storage.TagCaps
import DSearch.Trust.Pow
import DSearch.Trust.UrlQuery
import DSearch.Trust.UrlRootPath
import DSearch.Ui.AsyncApi
