import FalconLink.Foundation.Run
import FalconLink.Foundation.Program
import FalconLink.Foundation.Search
import FalconLink.Foundation.Framing
import FalconLink.Foundation.Splitting
import FalconLink.Foundation.Paths
import FalconLink.Foundation.Chain
import FalconLink.Foundation.Recency
import FalconLink.Foundation.Descriptors
import FalconLink.Foundation.Waiting
import FalconLink.Foundation.WorkQueue
import FalconLink.Foundation.Counting
import FalconLink.Foundation.Readiness
import FalconLink.Foundation.Messages
import FalconLink.Foundation.Linearization
import FalconLink.Model.Bytes
import FalconLink.Model.FilePaths
import FalconLink.Model.Cache
import FalconLink.Model.SharedCache
import FalconLink.Model.Buffer
import FalconLink.Model.Connection
import FalconLink.Model.EventLoop
import FalconLink.Model.Echo
import FalconLink.Model.Reactors
import FalconLink.Model.Socket
import FalconLink.Model.Logger
import FalconLink.Model.ThreadPool
import FalconLink.Model.Server
import FalconLink.Model.Http.Utils
import FalconLink.Model.Http.UrlCoding
import FalconLink.Model.Http.Request
import FalconLink.Model.Http.Handler
import FalconLink.Model.Http.Cgi
import FalconLink.Model.Http.Processes
import FalconLink.Model.Http.Indexing
import FalconLink.Model.Http.Response
import FalconLink.Model.Http.HttpServer
import FalconLink.Model.Http.Workers
import FalconLink.Model.Http.History
import FalconLink.Model.Http.Reactor
import FalconLink.Verification.Cache.Representation
import FalconLink.Verification.Cache.Lookup
import FalconLink.Verification.Cache.Eviction
import FalconLink.Verification.Cache.Insertion
import FalconLink.Verification.Cache.Lru
import FalconLink.Verification.Cache.Invariant
import FalconLink.Verification.Cache.Shared
import FalconLink.Verification.Cache.Linearization
import FalconLink.Verification.FilePaths
import FalconLink.Verification.Buffer
import FalconLink.Verification.Connection
import FalconLink.Verification.Socket
import FalconLink.Verification.Logger
import FalconLink.Verification.Wakeups
import FalconLink.Verification.ThreadPool
import FalconLink.Verification.Tasks
import FalconLink.Verification.Shutdown
import FalconLink.Verification.Scheduling
import FalconLink.Verification.Server
import FalconLink.Verification.EventLoop.Invariant
import FalconLink.Verification.EventLoop.Draining
import FalconLink.Verification.Echo.Server
import FalconLink.Verification.Echo.Conversation
import FalconLink.Verification.Reactors.Invariant
import FalconLink.Verification.Reactors.Adding
import FalconLink.Verification.Reactors.Erasing
import FalconLink.Verification.Reactors.Pointers
import FalconLink.Verification.Http.Headers
import FalconLink.Verification.Http.Requests
import FalconLink.Verification.Http.UrlCoding
import FalconLink.Verification.Http.Closing
import FalconLink.Verification.Http.Cgi
import FalconLink.Verification.Http.Processes
import FalconLink.Verification.Http.Handler
import FalconLink.Verification.Http.Containment
import FalconLink.Verification.Http.Heads
import FalconLink.Verification.Http.Transparency
import FalconLink.Verification.Http.Session
import FalconLink.Verification.Http.Delivery
import FalconLink.Verification.Http.Announcements
import FalconLink.Verification.Http.Wire
import FalconLink.Verification.Http.Client
import FalconLink.Verification.Http.Retrieval
import FalconLink.Verification.Http.Answers
import FalconLink.Verification.Http.Segmentation
import FalconLink.Verification.Http.Reactor
import FalconLink.Verification.Http.Exceptions
import FalconLink.Verification.Http.Workers
import FalconLink.Verification.Http.History
