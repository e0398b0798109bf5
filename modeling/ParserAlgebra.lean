import ParserAlgebra.Trace
import ParserAlgebra.Description.Rules
import ParserAlgebra.Cursor.Walk
import ParserAlgebra.ErrorScript
import ParserAlgebra.Main
import ParserAlgebra.Proofs.Shape
import ParserAlgebra.Proofs.Suffix
import ParserAlgebra.Proofs.Consumption
import ParserAlgebra.Proofs.Plan
import ParserAlgebra.Proofs.Anchoring
import ParserAlgebra.Proofs.Severity
import ParserAlgebra.Proofs.Correspondence
import ParserAlgebra.Proofs.Parametric
import ParserAlgebra.Proofs.Representation
import ParserAlgebra.Proofs.ChoiceNesting
import ParserAlgebra.Proofs.SequenceNesting
import ParserAlgebra.Proofs.CallBounds
import ParserAlgebra.Proofs.Confinement
import ParserAlgebra.Proofs.Scheme
import ParserAlgebra.Proofs.ErrorIndependence
import ParserAlgebra.Proofs.Labelling
import ParserAlgebra.Proofs.Raising
import ParserAlgebra.Proofs.Provenance
import ParserAlgebra.Proofs.Places
import ParserAlgebra.Proofs.SpanCuts
import ParserAlgebra.Proofs.Unrolling
import ParserAlgebra.Proofs.Guards
import ParserAlgebra.Proofs.ColourNotation
import ParserAlgebra.Proofs.FurthestError
import ParserAlgebra.Proofs.Tiling
import ParserAlgebra.Proofs.SymbolRuns
import ParserAlgebra.Proofs.DecimalText
import ParserAlgebra.Proofs.Literals
import ParserAlgebra.Proofs.IntegerLiterals
import ParserAlgebra.Proofs.NumberLiterals
import ParserAlgebra.Proofs.FirstMatch
import ParserAlgebra.Proofs.BoundedRuns
import ParserAlgebra.Proofs.Tokens
import ParserAlgebra.Proofs.SpanShortcuts
import ParserAlgebra.Proofs.Counting
import ParserAlgebra.Proofs.SequenceLaws
import ParserAlgebra.Proofs.LeftFactoring
import ParserAlgebra.Proofs.SpanEnds
import ParserAlgebra.Proofs.CursorLaws
