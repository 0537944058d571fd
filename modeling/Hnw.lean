import Hnw.Theory.Consumer
import Hnw.Theory.Transition
import Hnw.Theory.Readings
import Hnw.Theory.Tiling
import Hnw.Theory.Framing
import Hnw.Theory.Pieces
import Hnw.Theory.SortedMap
import Hnw.Theory.Cuts
import Hnw.Theory.LastWrite
import Hnw.Theory.Regroup
import Hnw.Util.Bytes
import Hnw.Util.Text
import Hnw.Util.Multimap
import Hnw.Util.Codec
import Hnw.Util.Url
import Hnw.Base.AsioSend
import Hnw.Base.Channel
import Hnw.Http.Range
import Hnw.Http.Head
import Hnw.Http.Cookie
import Hnw.Http.Line
import Hnw.Http.Auth
import Hnw.Http.Body
import Hnw.Http.RawWords
import Hnw.Http.Message
import Hnw.Service.RecvFile
import Hnw.Service.Redirecting
import Hnw.Service.Respond
import Hnw.Parser.Parser
import Hnw.Session.Send
import Hnw.Session.Threads
import Hnw.Service.Download
import Hnw.Service.DownloadCb
import Hnw.Service.Destination
import Hnw.Service.Connections
import Hnw.Service.Closers
import Hnw.Service.Answer
import Hnw.Verif.AsioSend
import Hnw.Verif.Channel
import Hnw.Verif.Download
import Hnw.Verif.DownloadCb
import Hnw.Verif.Text
import Hnw.Verif.Split
import Hnw.Verif.Join
import Hnw.Verif.Head
import Hnw.Verif.Target
import Hnw.Verif.Normalised
import Hnw.Verif.ResponseText
import Hnw.Verif.HeaderCase
import Hnw.Verif.SetCookie
import Hnw.Verif.Cookies
import Hnw.Verif.Merge
import Hnw.Verif.PreSend
import Hnw.Verif.Body
import Hnw.Verif.RawQueue
import Hnw.Verif.SectionWrites
import Hnw.Verif.Parser
import Hnw.Verif.Termination
import Hnw.Verif.PartialFile
import Hnw.Verif.RecvFile
import Hnw.Verif.BodyLimit
import Hnw.Verif.Residue
import Hnw.Verif.Reading
import Hnw.Verif.HeaderLine
import Hnw.Verif.Requests
import Hnw.Verif.Sending
import Hnw.Verif.Saving
import Hnw.Verif.SendServer
import Hnw.Verif.NullBodies
import Hnw.Verif.SendClient
import Hnw.Verif.Chains
import Hnw.Verif.SendOrder
import Hnw.Verif.Prepared
import Hnw.Verif.ServedRange
import Hnw.Verif.RangeHeader
import Hnw.Verif.RejectedRange
import Hnw.Verif.ByteRange
import Hnw.Verif.Responses
import Hnw.Verif.StatusLine
import Hnw.Verif.Connections
import Hnw.Verif.Closers
import Hnw.Verif.Answers
import Hnw.Verif.Base64
import Hnw.Verif.Percent
import Hnw.Verif.UrlParts
import Hnw.Verif.Targets
import Hnw.Verif.Redirect
import Hnw.Verif.Redirecting
import Hnw.Verif.BasicAuth
import Hnw.Verif.SplitKy
import Hnw.Verif.KeyValues
import Hnw.Verif.Digest
import Hnw.Theory.Link
import Hnw.Session.Conversation
import Hnw.Verif.Deliverable
import Hnw.Verif.Sendable
import Hnw.Verif.Conversation
import Hnw.Verif.Balance
import Hnw.Verif.Closing
import Hnw.Verif.Lifecycle
import Hnw.Verif.Leaks
import Hnw.Example.FileService
import Hnw.Verif.FileService
import Hnw.Verif.FileClient
import Hnw.Theory.Loop
import Hnw.Base.Receive
import Hnw.Verif.Receive
import Hnw.Verif.Arriving
import Hnw.Service.Fetch
import Hnw.Verif.Fetch
import Hnw.Base.Accept
import Hnw.Verif.Accept
import Hnw.Service.Post
import Hnw.Verif.Smuggling
import Hnw.Example.FilesDownloader
import Hnw.Verif.FilesDownloader
import Hnw.Verif.Once
