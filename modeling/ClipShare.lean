import ClipShare.Interaction.Contract
import ClipShare.Server.Versions
import ClipShare.Server.Listener
import ClipShare.Verify.Descriptors
import ClipShare.Verify.Text
import ClipShare.Verify.Negotiation
import ClipShare.Verify.Reply
import ClipShare.Verify.Containment
import ClipShare.Verify.Concurrent
import ClipShare.Verify.SingleFile
import ClipShare.Verify.Sessions
import ClipShare.Verify.Clients
import ClipShare.Verify.Targets
import ClipShare.Verify.Assignments
import ClipShare.Verify.LongLines
import ClipShare.Verify.Web
import ClipShare.Verify.GetAny
import ClipShare.Verify.CopiedPaths
import ClipShare.Verify.RoundTrip
import ClipShare.Verify.Numbers
import ClipShare.Verify.TargetList
import ClipShare.Verify.CutFiles
import ClipShare.Verify.Sending
import ClipShare.Verify.CopiedFiles
import ClipShare.Verify.Transport
import ClipShare.Verify.LineEndings
import ClipShare.Verify.Windows
import ClipShare.Verify.CopiedType
import ClipShare.Verify.UrlInPlace
import ClipShare.Verify.Names
import ClipShare.Verify.ListUtils
import ClipShare.Verify.Trim
import ClipShare.Verify.MacUtils
import ClipShare.Verify.Interfaces
import ClipShare.Verify.Screenshot
import ClipShare.Verify.Mkdirs
import ClipShare.Verify.NameBuffers
import ClipShare.Verify.XServers
import ClipShare.Verify.Rights
import ClipShare.Verify.Headless
import ClipShare.Verify.Quota
import ClipShare.Verify.WebAnswers
import ClipShare.Verify.WebPost
import ClipShare.Verify.PngRows
