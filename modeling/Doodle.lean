import Doodle.Lib.Memo
import Doodle.Crab.Cache
import Doodle.Go.Result
import Doodle.Repeater.DbCache
import Doodle.Repeater.Lookup
import Doodle.Lib.Cbc
import Doodle.Util.Aes
import Doodle.Repeater.Permission
import Doodle.Crab.Orm
import Doodle.Go.Strconv
import Doodle.Lib.Prog
import Doodle.Manager.Backend
import Doodle.Util.Decode
import Doodle.Manager.Isolation
import Doodle.Lib.Action
import Doodle.Lib.Table
import Doodle.Rbac.Schema
import Doodle.Rbac.Server
import Doodle.Rbac.Access
import Doodle.Rbac.Frame
import Doodle.Rbac.Read
import Doodle.Rbac.ReadIsolation
import Doodle.Service.Keepalive
import Doodle.Lib.EventLog
import Doodle.Repeater.Backend
import Doodle.Go.Url
import Doodle.Repeater.Gateway
import Doodle.Repeater.Reachable
import Doodle.Manager.Register
import Doodle.Repeater.LoadWatch
import Doodle.Distributor.Watcher
import Doodle.Repeater.Stream
import Doodle.Lib.Retry
import Doodle.Repeater.Retry
import Doodle.Repeater.Statements
import Doodle.Go.Json
import Doodle.Meta.Document
import Doodle.Distributor.Report
import Doodle.Lib.Interleave
import Doodle.Manager.Concurrent
import Doodle.Lib.Failure
import Doodle.Manager.Failing
import Doodle.Go.Query
import Doodle.Rbac.Client
import Doodle.Rbac.Answers
import Doodle.Lib.Runs
import Doodle.Rbac.Consistency
import Doodle.Manager.Relations
import Doodle.Manager.Published
import Doodle.Distributor.Task
import Doodle.Lib.Subst
import Doodle.Repeater.Validate
import Doodle.Distributor.ProjectName
import Doodle.Repeater.Staleness
import Doodle.Service.Document
import Doodle.Service.Register
import Doodle.Service.Merge
import Doodle.Service.Described
import Doodle.Lib.Plan
import Doodle.Manager.ServicePost
import Doodle.Rbac.UserResources
import Doodle.Insert
import Doodle.Lib.Page
import Doodle.Manager.Resources
import Doodle.Manager.Guarded
import Doodle.Distributor.Versions
import Doodle.Manager.Session
import Doodle.Manager.Filters
import Doodle.Rbac.Validate
import Doodle.Repeater.Forward
import Doodle.Repeater.Body
import Doodle.Go.Append
import Doodle.Go.Parse
import Doodle.Repeater.Target
import Doodle.Repeater.Sent
import Doodle.Util.Varint
import Doodle.Manager.AppToken
import Doodle.Distributor.ServiceKey
import Doodle.Manager.DocumentTree
import Doodle.Lib.Descent
import Doodle.Service.Recursion
import Doodle.Service.Flatten
import Doodle.Service.Promotion
import Doodle.Lib.RangeDelete
import Doodle.Repeater.Stats
import Doodle.Repeater.ErrorStats
import Doodle.Manager.Nodes
import Doodle.Manager.AppListing
import Doodle.Service.InstanceKeys
import Doodle.Go.Header
import Doodle.Go.Spliced
import Doodle.Manager.TestRun
import Doodle.Manager.TestDelivery
import Doodle.Lib.Threads
import Doodle.Repeater.Serve
import Doodle.Repeater.Mediation
import Doodle.Repeater.Accounting
import Doodle.Manager.UserDB
import Doodle.Manager.Users
import Doodle.Distributor.Deploy
import Doodle.Distributor.Logs
import Doodle.Distributor.Workspace
import Doodle.Util.Uuid
import Doodle.Crab.Http
