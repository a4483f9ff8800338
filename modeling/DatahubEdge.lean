import DatahubEdge.Lib.Fold
import DatahubEdge.Lib.KeyedList
import DatahubEdge.Lib.Latest
import DatahubEdge.CString
import DatahubEdge.Lib.Parsing
import DatahubEdge.Lib.Separated
import DatahubEdge.Lib.While
import DatahubEdge.Lib.Filled
import DatahubEdge.Lib.Sextets
import DatahubEdge.Lib.Buffer
import DatahubEdge.Lib.Forest
import DatahubEdge.CJson.Tree
import DatahubEdge.CJson.Print
import DatahubEdge.CJson.Leaves
import DatahubEdge.CJson.Build
import DatahubEdge.CJson.Truncate
import DatahubEdge.CJson.Parse
import DatahubEdge.CJson.Grammar
import DatahubEdge.CJson.Format
import DatahubEdge.CJson.RoundTrip
import DatahubEdge.CJson.ParseString
import DatahubEdge.CJson.PrintBuffer
import DatahubEdge.CJson.PrintedText
import DatahubEdge.CJson.Nodes
import DatahubEdge.CJson.Ownership
import DatahubEdge.CJson.Objects
import DatahubEdge.CJson.ParseNodes
import DatahubEdge.EdgeData
import DatahubEdge.EdgeConfig
import DatahubEdge.Config.Spans
import DatahubEdge.Config.Convert
import DatahubEdge.Config.ReadBack
import DatahubEdge.Config.SameItems
import DatahubEdge.Config.Upload
import DatahubEdge.Config.InForce
import DatahubEdge.Timestamp
import DatahubEdge.Timestamp.Calendar
import DatahubEdge.Timestamp.Text
import DatahubEdge.Sqlite
import DatahubEdge.Recover.Thread
import DatahubEdge.Recover.AtMostOnce
import DatahubEdge.Recover.Delivery
import DatahubEdge.Recover.Drain
import DatahubEdge.Recover.InOrder
import DatahubEdge.Recover.Passes
import DatahubEdge.Message.SendDataMessage
import DatahubEdge.Message.AnalogLoop
import DatahubEdge.Message.Reports
import DatahubEdge.Message.Locality
import DatahubEdge.Message.Run
import DatahubEdge.Message.Tracking
import DatahubEdge.Message.Deadband
import DatahubEdge.Message.LastReported
import DatahubEdge.Message.Lookups
import DatahubEdge.Message.Batch
import DatahubEdge.Message.Strings
import DatahubEdge.Message.PayloadLeaves
import DatahubEdge.Message.CarriesOnce
import DatahubEdge.Message.Frame
import DatahubEdge.Message.Order
import DatahubEdge.Message.Stamp
import DatahubEdge.Message.Notices
import DatahubEdge.Publish.Offline
import DatahubEdge.Publish.Retry
import DatahubEdge.Publish.Session
import DatahubEdge.Publish.Carries
import DatahubEdge.Connect.Credentials
import DatahubEdge.Connect.Threads
import DatahubEdge.Connect.Newest
import DatahubEdge.Event.Receive
import DatahubEdge.Base64.Codec
import DatahubEdge.Base64.Encode
import DatahubEdge.Base64.Decode
import DatahubEdge.Base64.RoundTrip
import DatahubEdge.Base64.Safety
