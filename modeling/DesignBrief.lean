import DesignBrief.Brief.Node
import DesignBrief.Brief.Walk
import DesignBrief.Command.Arguments
import DesignBrief.Command.Files
import DesignBrief.Command.Run
import DesignBrief.Decimal.Format
import DesignBrief.Decimal.Rounding
import DesignBrief.Decimal.Shortest
import DesignBrief.Failure
import DesignBrief.Geometry
import DesignBrief.Json.Fault
import DesignBrief.Json.Generic
import DesignBrief.Json.Numeral
import DesignBrief.Json.Outline
import DesignBrief.Json.Printer
import DesignBrief.Json.Quoted
import DesignBrief.Json.Reader
import DesignBrief.Json.Scanner
import DesignBrief.Json.Value
import DesignBrief.Main
import DesignBrief.Scene.Keyword
import DesignBrief.Scene.Node
import DesignBrief.Scene.Printer
import DesignBrief.Scene.Probe
import DesignBrief.Scene.Reader
import DesignBrief.Style.Css
import DesignBrief.Style.Effects
import DesignBrief.Style.Fill
import DesignBrief.Style.Layout
import DesignBrief.Style.Stroke
import DesignBrief.Style.TextStyle
import DesignBrief.Style.Value
import DesignBrief.Table.Basic
import DesignBrief.Table.Store
import DesignBrief.Text.Invisible
import DesignBrief.Text.Quotation
import DesignBrief.Proofs.Calls
import DesignBrief.Proofs.LinearStore
import DesignBrief.Proofs.Dedup
import DesignBrief.Proofs.Forest
import DesignBrief.Proofs.InPlace
import DesignBrief.Proofs.Preorder
import DesignBrief.Proofs.Survivors
import DesignBrief.Proofs.Visits
import DesignBrief.Proofs.FirstUse
import DesignBrief.Proofs.Matched
import DesignBrief.Proofs.Told
import DesignBrief.Proofs.Hidden
import DesignBrief.Proofs.Unrecognized
import DesignBrief.Proofs.Doubles.Range
import DesignBrief.Proofs.Doubles.Division
import DesignBrief.Proofs.Reading
import DesignBrief.Proofs.Numbers
import DesignBrief.Proofs.Notation
import DesignBrief.Proofs.Regular
import DesignBrief.Proofs.InRange
import DesignBrief.Proofs.Finite
import DesignBrief.Proofs.Truncation
import DesignBrief.Proofs.WellFormed
import DesignBrief.Proofs.Doubles.Canonical
import DesignBrief.Proofs.Doubles.Decimals
import DesignBrief.Proofs.Numerals
import DesignBrief.Proofs.NumberTexts
import DesignBrief.Proofs.AsWritten
import DesignBrief.Proofs.Distinct
import DesignBrief.Proofs.SignedZeros
import DesignBrief.Proofs.MoreRoots
import DesignBrief.Proofs.Defaults
import DesignBrief.Proofs.EmptyMembers
import DesignBrief.Proofs.Undoing
import DesignBrief.Proofs.RoundTrip
import DesignBrief.Proofs.Agreement
import DesignBrief.Proofs.Spelling
import DesignBrief.Proofs.Grammar
import DesignBrief.Proofs.NewerSchema
import DesignBrief.Proofs.Jobs
import DesignBrief.Proofs.Workers
import DesignBrief.Proofs.Folders
import DesignBrief.Proofs.OutputFiles
import DesignBrief.Proofs.Placement
import DesignBrief.Proofs.Alignment
import DesignBrief.Proofs.EffectTexts
import DesignBrief.Proofs.HiddenFills
import DesignBrief.Proofs.Consistency
import DesignBrief.Proofs.Lengths
