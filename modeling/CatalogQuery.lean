import CatalogQuery.Binary.Basic
import CatalogQuery.Binary.Printer
import CatalogQuery.Binary.Reader
import CatalogQuery.Binary.Shortest
import CatalogQuery.Calendar.Day
import CatalogQuery.Calendar.Moment
import CatalogQuery.Calendar.Printer
import CatalogQuery.Calendar.Reader
import CatalogQuery.Config
import CatalogQuery.Constraint.Accessors
import CatalogQuery.Constraint.Basic
import CatalogQuery.Constraint.Construction
import CatalogQuery.Constraint.Json
import CatalogQuery.Constraint.Kind
import CatalogQuery.Constraint.Mode
import CatalogQuery.Constraint.Shape
import CatalogQuery.Decimal.Basic
import CatalogQuery.Decimal.Printer
import CatalogQuery.Decimal.Reader
import CatalogQuery.Fragment.Basic
import CatalogQuery.Fragment.Recipe
import CatalogQuery.Grammar.Error
import CatalogQuery.Grammar.Parse
import CatalogQuery.Grammar.Raw
import CatalogQuery.Grammar.Resolve
import CatalogQuery.Grammar.Token
import CatalogQuery.Json.Basic
import CatalogQuery.Json.Decode
import CatalogQuery.Json.Printer
import CatalogQuery.Literal.Basic
import CatalogQuery.Literal.Error
import CatalogQuery.Literal.Json
import CatalogQuery.Literal.Kind
import CatalogQuery.Literal.Printer
import CatalogQuery.Literal.Range
import CatalogQuery.Literal.Reader
import CatalogQuery.Literal.Token
import CatalogQuery.Literal.Value
import CatalogQuery.Purify
import CatalogQuery.Query.Basic
import CatalogQuery.Query.Digest
import CatalogQuery.Query.Json
import CatalogQuery.Render
import CatalogQuery.Search
import CatalogQuery.Text.Blank
import CatalogQuery.Text.Digits
import CatalogQuery.Text.Position
import CatalogQuery.Text.Quoted
import CatalogQuery.Transform
import CatalogQuery.Proofs.Binary.Forms
import CatalogQuery.Proofs.Binary.Halfway
import CatalogQuery.Proofs.Binary.Shortest
import CatalogQuery.Proofs.Calendar.Fields
import CatalogQuery.Proofs.Calendar.Shift
import CatalogQuery.Proofs.Calendar.Stored
import CatalogQuery.Proofs.Calendar.Zoned
import CatalogQuery.Proofs.Constraint.Acceptance
import CatalogQuery.Proofs.Constraint.Applicable
import CatalogQuery.Proofs.Constraint.Discipline
import CatalogQuery.Proofs.Constraint.Equality
import CatalogQuery.Proofs.Constraint.Fewer
import CatalogQuery.Proofs.Constraint.Normal
import CatalogQuery.Proofs.Constraint.Stored
import CatalogQuery.Proofs.Decimal.Order
import CatalogQuery.Proofs.Decimal.Readings
import CatalogQuery.Proofs.Decimal.RoundTrip
import CatalogQuery.Proofs.Fragment.Exact
import CatalogQuery.Proofs.Fragment.Signature
import CatalogQuery.Proofs.Grammar.Braces
import CatalogQuery.Proofs.Grammar.Calls
import CatalogQuery.Proofs.Grammar.Complete
import CatalogQuery.Proofs.Grammar.Cuts
import CatalogQuery.Proofs.Grammar.Depth
import CatalogQuery.Proofs.Grammar.Exact
import CatalogQuery.Proofs.Grammar.Faults
import CatalogQuery.Proofs.Grammar.Lists
import CatalogQuery.Proofs.Grammar.Literals
import CatalogQuery.Proofs.Grammar.Lookahead
import CatalogQuery.Proofs.Grammar.Meaning
import CatalogQuery.Proofs.Grammar.Nodes
import CatalogQuery.Proofs.Grammar.Punctuation
import CatalogQuery.Proofs.Grammar.Roots
import CatalogQuery.Proofs.Grammar.Scalar
import CatalogQuery.Proofs.Grammar.Spacing
import CatalogQuery.Proofs.Grammar.Spelled
import CatalogQuery.Proofs.Grammar.Strings
import CatalogQuery.Proofs.Grammar.Tokens
import CatalogQuery.Proofs.Literal.Doubles
import CatalogQuery.Proofs.Literal.Equality
import CatalogQuery.Proofs.Literal.Normal
import CatalogQuery.Proofs.Literal.Plain
import CatalogQuery.Proofs.Literal.Ranges
import CatalogQuery.Proofs.Literal.RoundTrip
import CatalogQuery.Proofs.Literal.Stored
import CatalogQuery.Proofs.Outcome
import CatalogQuery.Proofs.Parse.Canonical
import CatalogQuery.Proofs.Parse.Entries
import CatalogQuery.Proofs.Parse.Errors
import CatalogQuery.Proofs.Parse.Hierarchy
import CatalogQuery.Proofs.Parse.Indented
import CatalogQuery.Proofs.Parse.Matching
import CatalogQuery.Proofs.Parse.Origins
import CatalogQuery.Proofs.Parse.Parts
import CatalogQuery.Proofs.Parse.RoundTrip
import CatalogQuery.Proofs.Parse.Soundness
import CatalogQuery.Proofs.Parse.Trees
import CatalogQuery.Proofs.Parse.Unreadable
import CatalogQuery.Proofs.Purify.Equality
import CatalogQuery.Proofs.Purify.Idempotence
import CatalogQuery.Proofs.Purify.Meaning
import CatalogQuery.Proofs.Purify.Roots
import CatalogQuery.Proofs.Purify.Shapes
import CatalogQuery.Proofs.Purify.Steps
import CatalogQuery.Proofs.Purify.Survivors
import CatalogQuery.Proofs.Query.Equality
import CatalogQuery.Proofs.Query.Meaning
import CatalogQuery.Proofs.Query.Normal
import CatalogQuery.Proofs.Query.Origins
import CatalogQuery.Proofs.Query.Ranges
import CatalogQuery.Proofs.Query.ReadBack
import CatalogQuery.Proofs.Query.Roles
import CatalogQuery.Proofs.Query.Stored
import CatalogQuery.Proofs.Render.Indented
import CatalogQuery.Proofs.Render.Passages
import CatalogQuery.Proofs.Render.Pieces
import CatalogQuery.Proofs.Search.Preorder
import CatalogQuery.Proofs.Text.Digits
import CatalogQuery.Proofs.Text.Positions
import CatalogQuery.Proofs.Text.Quoted
import CatalogQuery.Proofs.Text.Scan
