import JsonSpan.Scan.Children
import JsonSpan.Number.Shortest
import JsonSpan.Text.Characters
import JsonSpan.Text.Utf8
import JsonSpan.Unicode.Folding
import JsonSpan.Unicode.Property
import JsonSpan.Unicode.Script
import JsonSpan.Regex.Meaning
import JsonSpan.Path.Syntax
import JsonSpan.Path.Printer
import JsonSpan.Path.Delimiters
import JsonSpan.Text.StringToken
import JsonSpan.Query.Scalar
import JsonSpan.Query.Slice
import JsonSpan.Query.Descent
import JsonSpan.Query.Answer
import JsonSpan.Output.Result
import JsonSpan.Session
import JsonSpan.Document
import JsonSpan.Manual
import JsonSpan.CommandLine.Arguments
import JsonSpan.CommandLine.Folder
import JsonSpan.CommandLine.Outcome
import JsonSpan.Main
import JsonSpan.Proofs.Query.Bounds
import JsonSpan.Proofs.Tree.Agreement
import JsonSpan.Proofs.Grammar.Reading
import JsonSpan.Proofs.Grammar.Spelling
import JsonSpan.Proofs.Grammar.Tokens
import JsonSpan.Proofs.Grammar.Acceptance
import JsonSpan.Proofs.Printing.Reparsing
import JsonSpan.Proofs.Printing.RoundTrip
import JsonSpan.Proofs.Query.Composition
import JsonSpan.Proofs.Query.Faults
import JsonSpan.Proofs.Query.Truncation
import JsonSpan.Proofs.Scan.Dialect
import JsonSpan.Proofs.Scan.Items
import JsonSpan.Proofs.Query.Validation
import JsonSpan.Proofs.Query.Rendering
import JsonSpan.Proofs.Grammar.Nesting
import JsonSpan.Proofs.Grammar.Cuts
import JsonSpan.Proofs.Grammar.Meanings
import JsonSpan.Proofs.Grammar.Unclosed
import JsonSpan.Proofs.Query.Order
import JsonSpan.Proofs.Query.Distinct
import JsonSpan.Proofs.CommandLine.Folders
import JsonSpan.Proofs.Delimiters.Reported
import JsonSpan.Proofs.Strings.Escapes
import JsonSpan.Proofs.Strings.Equality
import JsonSpan.Proofs.Printing.Slashes
import JsonSpan.Proofs.Slice.Fixed
import JsonSpan.Proofs.Query.Elements
import JsonSpan.Proofs.Query.Preorder
import JsonSpan.Proofs.Query.Members
import JsonSpan.Proofs.Query.Comparisons
import JsonSpan.Proofs.Output.Copying
import JsonSpan.Proofs.Output.Coloring
import JsonSpan.Proofs.Scan.Calls
import JsonSpan.Proofs.Scan.Requests
import JsonSpan.Proofs.Output.Limited
import JsonSpan.Proofs.Conversion.Messages
import JsonSpan.Proofs.Manual.Pages
