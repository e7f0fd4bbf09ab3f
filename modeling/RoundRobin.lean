import RoundRobin.Config.Archive
import RoundRobin.Config.Consolidation
import RoundRobin.Config.Definition
import RoundRobin.Config.Error
import RoundRobin.Config.Header
import RoundRobin.Config.Reading
import RoundRobin.Export.Tree
import RoundRobin.Json.Decode
import RoundRobin.Json.Error
import RoundRobin.Json.Reader
import RoundRobin.Json.Scan
import RoundRobin.Json.Value
import RoundRobin.Logging.Options
import RoundRobin.Number.Arithmetic
import RoundRobin.Number.Binary64
import RoundRobin.Number.Decimal
import RoundRobin.Number.Nearest
import RoundRobin.Number.Notation
import RoundRobin.Number.Reading
import RoundRobin.Number.Rounding
import RoundRobin.Number.Shortest
import RoundRobin.Number.Signed
import RoundRobin.Number.Significant
import RoundRobin.Number.Text
import RoundRobin.Pending.Error
import RoundRobin.Pending.Point
import RoundRobin.Pending.Row
import RoundRobin.Series.Basic
import RoundRobin.Series.Method
import RoundRobin.Series.Query
import RoundRobin.Session.Apply
import RoundRobin.Session.Basic
import RoundRobin.Source.Name
import RoundRobin.Store.Allocator
import RoundRobin.Store.Bytes
import RoundRobin.Store.Cell
import RoundRobin.Store.Error
import RoundRobin.Store.Run
import RoundRobin.Text.Blank
import RoundRobin.Text.Escaped
import RoundRobin.Text.Invisible
import RoundRobin.Text.Upper
import RoundRobin.Time.Civil
import RoundRobin.Time.Lattice
import RoundRobin.Proofs.Config.Validation
import RoundRobin.Proofs.Time.Phase
import RoundRobin.Proofs.Time.Nesting
import RoundRobin.Proofs.Time.Calendar
import RoundRobin.Proofs.Series.Landing
import RoundRobin.Proofs.Series.Cursor
import RoundRobin.Proofs.Series.Reference
import RoundRobin.Proofs.Series.Construction
import RoundRobin.Proofs.Store.Frame
import RoundRobin.Proofs.Store.Readback
import RoundRobin.Proofs.Store.Calls
import RoundRobin.Proofs.Store.Backings
import RoundRobin.Proofs.Pending.Layout
import RoundRobin.Proofs.Pending.Seeding
import RoundRobin.Proofs.Pending.Accessors
import RoundRobin.Proofs.Pending.Creation
import RoundRobin.Proofs.Pending.Restart
import RoundRobin.Proofs.Pending.Export
import RoundRobin.Proofs.Session.Allocation
import RoundRobin.Proofs.Session.Isolation
import RoundRobin.Proofs.Number.Value
import RoundRobin.Proofs.Number.Nearest
import RoundRobin.Proofs.Number.Digits
import RoundRobin.Proofs.Number.Reading
import RoundRobin.Proofs.Number.Shortest
import RoundRobin.Proofs.Number.Layout
import RoundRobin.Proofs.Number.Diagnostic
import RoundRobin.Proofs.Number.Export
import RoundRobin.Proofs.Config.Checks
import RoundRobin.Proofs.Json.Reading
import RoundRobin.Proofs.Json.Numbers
import RoundRobin.Proofs.Json.Pretty
import RoundRobin.Proofs.Source.Names
import RoundRobin.Proofs.Export.Unambiguous
import RoundRobin.Proofs.Config.RoundTrip
