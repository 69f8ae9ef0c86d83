import UvHttp.RequestAssembly
import UvHttp.ResponseFrames
import UvHttp.ResponseIsolation
import UvHttp.EndOfResponse
import UvHttp.ServerRead
import UvHttp.NonInterference
import UvHttp.ClientRequest
import UvHttp.FatalInput
import UvHttp.Ownership
import UvHttp.GlobalRoots
import UvHttp.Collection
import UvHttp.RootDiscipline
import UvHttp.HeadInjection
import UvHttp.HeadRoundTrip
import UvHttp.Calendar
import UvHttp.DateHeader
import UvHttp.OneMessage
import UvHttp.ExampleStatic
import UvHttp.Paths
import UvHttp.StaticPaths
import UvHttp.Records
import UvHttp.StaticFiles
import UvHttp.Clients
import UvHttp.ClientView
import UvHttp.ExamplePages
import UvHttp.StaticSessions
import UvHttp.OwnedSessions
import UvHttp.Draining
import UvHttp.ParserStubs
import UvHttp.NativeParsers
import UvHttp.OpenHandles
import UvHttp.Outage
import UvHttp.Cuts
import UvHttp.ExampleClient
import UvHttp.ReadCallbacks
