import Contentv1.Api.Equiv.Credentials
import Contentv1.Api.Equiv.QueryGroupStore
import Contentv1.Api.Equiv.QueryGroups
import Contentv1.Api.Equiv.Tokens
import Contentv1.Core.Equiv.UrlFreqMapSorted
import Contentv1.Ldb.Equiv.CrawledDbDays
import Contentv1.Ldb.Equiv.HostDbCrash
import Contentv1.Ldb.Equiv.HostDbLimiter
import Contentv1.Ldb.Equiv.HostDbOverloads
import Contentv1.Ldb.Equiv.UrlDbAttribution
import Contentv1.Ldb.Equiv.UrlDbBackoff
import Contentv1.Ldb.Equiv.UrlDbCrash
import Contentv1.Ldb.Equiv.UrlDbWait
import Contentv1.Ldb.Equiv.UrlsDaysDbCrash
import Contentv1.Ldb.Equiv.UrlsDaysDbWait
import Contentv1.Ldb.Equiv.UrlsDaysHistory
import Contentv1.Scheduler.Equiv.DayTarget
import Contentv1.Scheduler.Equiv.RoundOrder
import Contentv1.Scheduler.Equiv.RpcMessages
import Contentv1.Scheduler.Equiv.RpcServer
import Contentv1.Scheduler.Equiv.SearchTopDistinct
import Contentv1.Scheduler.Equiv.SeedWindows
import Contentv1.Scylla.Equiv.PageDbScylla
import Contentv1.System.Equiv.Calls
import Contentv1.System.Equiv.HostRates
import Contentv1.System.Equiv.NewHits
import Contentv1.System.Equiv.Stats
import Contentv1.System.Equiv.Topic
import Contentv1.Worker.Equiv.FetchRounds
import Contentv1.Worker.Equiv.QueryLoopScylla
import Contentv1.Worker.Equiv.QueryMatching
