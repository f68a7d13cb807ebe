import FoamDict.Main
import FoamDict.Highlight.Listing
import FoamDict.Keyword.File
import FoamDict.Proofs.Document.Locality
import FoamDict.Proofs.Document.Resolution
import FoamDict.Proofs.Server.LineEnd
import FoamDict.Proofs.Server.Publication
import FoamDict.Highlight.Offsets
import FoamDict.Proofs.Highlight.Offsets
import FoamDict.Proofs.Highlight.Source
import FoamDict.Proofs.Highlight.Layout
import FoamDict.Proofs.Highlight.Delta
import FoamDict.Proofs.Server.Tokens
import FoamDict.Proofs.Document.Extent
import FoamDict.Proofs.Server.Isolation
import FoamDict.Proofs.Text.Word
import FoamDict.Proofs.Keyword.Agreement
import FoamDict.Proofs.Settings.Merge
import FoamDict.Proofs.Settings.Alike
import FoamDict.Proofs.Settings.Read
import FoamDict.Proofs.Settings.Loading
import FoamDict.Proofs.Settings.Layering
import FoamDict.Proofs.Settings.Filter
import FoamDict.Proofs.Settings.Order
import FoamDict.Proofs.Settings.Given
import FoamDict.Proofs.Settings.Override
import FoamDict.Proofs.Brace.Level
import FoamDict.Proofs.Brace.Repair
import FoamDict.Proofs.Text.Leftmost
import FoamDict.Proofs.Text.Pattern
import FoamDict.Proofs.Highlight.Line
import FoamDict.Proofs.Highlight.Region
import FoamDict.Proofs.Highlight.Numeral
import FoamDict.Proofs.Highlight.Edge
import FoamDict.Proofs.Highlight.Quotation
import FoamDict.Proofs.Text.Stretch
import FoamDict.Proofs.Highlight.Nesting
import FoamDict.Proofs.Highlight.Exponent
import FoamDict.Proofs.Document.Splice
import FoamDict.Proofs.Document.Undo
import FoamDict.Keyword.Offsets
import FoamDict.Proofs.Text.Name
import FoamDict.Proofs.Keyword.Hover
import FoamDict.Keyword.Register
import FoamDict.Proofs.Keyword.Register
import FoamDict.Proofs.Keyword.Fault
import FoamDict.Proofs.Text.Offset
import FoamDict.Proofs.Text.Unlines
