import OgWebserver.Text.Scan
import OgWebserver.Transition.Run
import OgWebserver.Socket.SendData
import OgWebserver.Config.Servers
import OgWebserver.Config.Check
import OgWebserver.Request.Passes
import OgWebserver.Request.Soundness
import OgWebserver.Request.Responses
import OgWebserver.Request.Segments
import OgWebserver.Request.DefaultServer
import OgWebserver.Request.CrossTalk
import OgWebserver.Request.DocRoot
import OgWebserver.Request.Pattern
import OgWebserver.Request.Head
import OgWebserver.Request.Delivery
import OgWebserver.Startup.Processes
import OgWebserver.Startup.Forks
import OgWebserver.Config.Inheritance
import OgWebserver.Config.Expansion
import OgWebserver.Mime.Format
import OgWebserver.Worker.TlsServer
import OgWebserver.Worker.Serving
import OgWebserver.Config.Nodes
import OgWebserver.Request.Listings
import OgWebserver.Request.Descriptors
import OgWebserver.Request.Records
import OgWebserver.Request.Agreement
import OgWebserver.Request.RoundRobin
import OgWebserver.Startup.LogFiles
import OgWebserver.Config.ServerNames
import OgWebserver.Config.Nesting
import OgWebserver.Mime.InPlace
import OgWebserver.Config.Parameters
import OgWebserver.Config.Meaning
import OgWebserver.Request.SharedCursor
import OgWebserver.Worker.Context
import OgWebserver.Request.Shares
import OgWebserver.Startup.Lifecycle
import OgWebserver.Startup.NoDefault
import OgWebserver.Request.Confinement
import OgWebserver.Request.Reading
