import RplListener.Lib.Bytes
import RplListener.Lib.Numerals
import RplListener.Lib.Refine
import RplListener.Lib.Heap
import RplListener.Lib.Owned
import RplListener.Lib.Requests
import RplListener.Lib.Transducer
import RplListener.Lib.Interleave
import RplListener.Lib.TwoRuns
import RplListener.Rows.Types
import RplListener.Rows.Value
import RplListener.Rows.Decode
import RplListener.Rows.Image
import RplListener.Rows.Texts
import RplListener.Rows.Scan
import RplListener.Rows.FlatCells
import RplListener.Rows.ValueFollows
import RplListener.Rows.RowsFollows
import RplListener.Rows.GetRows
import RplListener.Rows.Ownership
import RplListener.Rows.Spans
import RplListener.Rows.Requests
import RplListener.Rows.ImageScan
import RplListener.Rows.RoundTrip
import RplListener.Rows.Inside
import RplListener.Rows.WalkComplete
import RplListener.Rows.TypeCode
import RplListener.Rows.Bounds
import RplListener.Rows.Verbatim
import RplListener.Rows.Lengths
import RplListener.Rows.Indices
import RplListener.Rows.Readback
import RplListener.Rows.Diffs
import RplListener.Rows.Cells
import RplListener.Rows.CellStates
import RplListener.Rows.Display
import RplListener.Rows.Hidden
import RplListener.Listener.Types
import RplListener.Listener.Deliver
import RplListener.Listener.Process
import RplListener.Listener.LifeCycle
import RplListener.Listener.Prepare
import RplListener.Listener.Prepared
import RplListener.Listener.PrepareRefines
import RplListener.Listener.Compression
import RplListener.Listener.HandOver
import RplListener.Listener.Steps
import RplListener.Listener.Watched
import RplListener.Listener.Visits
import RplListener.Listener.Position
import RplListener.Listener.Reports
import RplListener.Listener.Failures
import RplListener.Listener.Log
import RplListener.Listener.Callbacks
import RplListener.Listener.Heartbeats
import RplListener.Listener.Decodes
import RplListener.Listener.Alternation
import RplListener.Listener.Stream
import RplListener.Listener.ColumnCache
import RplListener.Listener.FillFollows
import RplListener.Listener.Capacity
import RplListener.Listener.Released
import RplListener.Listener.Columns
import RplListener.Listener.Integers
import RplListener.Listener.Leaks
import RplListener.Listener.History
import RplListener.Listener.Delivered
import RplListener.Listener.Resume
import RplListener.Listener.Transactions
import RplListener.Listener.Interleaved
import RplListener.Listener.Outline
import RplListener.Listener.ClientSteps
import RplListener.Listener.ThreadSteps
import RplListener.Listener.OneWay
import RplListener.Listener.Session
import RplListener.Listener.SessionThread
import RplListener.Listener.SessionSetup
import RplListener.Listener.Serial
import RplListener.Listener.Joining
import RplListener.Lib.Beside
import RplListener.Listener.Destroyed
