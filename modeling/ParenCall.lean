import ParenCall.Text.Ranges
import ParenCall.Text.Blank
import ParenCall.Text.Digit
import ParenCall.Text.Printable
import ParenCall.Text.Quoted
import ParenCall.Text.Line
import ParenCall.Text.Numeral
import ParenCall.Double
import ParenCall.Token
import ParenCall.Lexeme
import ParenCall.Literal
import ParenCall.Source
import ParenCall.Source.Cursor
import ParenCall.Source.Parser
import ParenCall.Diagnostic.Template
import ParenCall.Diagnostic
import ParenCall.Diagnostic.Suggestion
import ParenCall.Issue
import ParenCall.Failure
import ParenCall.Target
import ParenCall.Tree
import ParenCall.Walk
import ParenCall.Lowering
import ParenCall.Rendering
import ParenCall.Options
import ParenCall.Pipeline
import ParenCall.Comparison
import ParenCall.Value
import ParenCall.Shape.Checked
import ParenCall.Shape.Node
import ParenCall.Shape.Dump
import ParenCall.Shape.Model
import ParenCall.Session
import ParenCall.Proofs.Induction
import ParenCall.Proofs.Reading
import ParenCall.Proofs.Driving
import ParenCall.Proofs.Grammar
import ParenCall.Proofs.Report
import ParenCall.Proofs.Prefixes
import ParenCall.Proofs.Traversal
import ParenCall.Proofs.Recording
import ParenCall.Proofs.Lowering
import ParenCall.Proofs.Rendering
import ParenCall.Proofs.Compilation
import ParenCall.Proofs.Decoding
import ParenCall.Proofs.Partition
import ParenCall.Proofs.Stops
import ParenCall.Proofs.Concatenation
import ParenCall.Proofs.Layout
import ParenCall.Proofs.Printing
import ParenCall.Proofs.Callees
import ParenCall.Proofs.Lines
import ParenCall.Proofs.Context
import ParenCall.Proofs.Location
import ParenCall.Proofs.Parentheses
import ParenCall.Proofs.Strings
import ParenCall.Proofs.Nodes
import ParenCall.Proofs.Accounting
import ParenCall.Proofs.Log
import ParenCall.Proofs.Correspondence
import ParenCall.Proofs.Unchecked.Lowering
import ParenCall.Proofs.Unchecked.Rendering
import ParenCall.Proofs.Agreement
import ParenCall.Proofs.Tours
import ParenCall.Proofs.Events
import ParenCall.Proofs.Dumping
import ParenCall.Proofs.Hints
import ParenCall.Proofs.Moves
