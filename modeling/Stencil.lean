import Stencil.Arithmetic
import Stencil.Cache
import Stencil.Decimal.Binary
import Stencil.Decimal.Notation
import Stencil.Decimal.Shortest
import Stencil.Engine
import Stencil.Entries
import Stencil.Error
import Stencil.Eval
import Stencil.Expr.Basic
import Stencil.Expr.Lexer
import Stencil.Expr.Operator
import Stencil.Expr.Parser
import Stencil.Expr.Token
import Stencil.Files
import Stencil.Filter
import Stencil.Host
import Stencil.Json.Basic
import Stencil.Json.Reader
import Stencil.Operation
import Stencil.Proofs.Arithmetic.Ints
import Stencil.Proofs.Arithmetic.Order
import Stencil.Proofs.Arithmetic.Power
import Stencil.Proofs.Decimal.Comparison
import Stencil.Proofs.Decimal.Nearest
import Stencil.Proofs.Decimal.Rounding
import Stencil.Proofs.Engine.Agreement
import Stencil.Proofs.Engine.Session
import Stencil.Proofs.Entries
import Stencil.Proofs.Expr.Cutting
import Stencil.Proofs.Expr.Filtering
import Stencil.Proofs.Expr.Grammar
import Stencil.Proofs.Expr.Lexing
import Stencil.Proofs.Expr.Names
import Stencil.Proofs.Expr.Neighbours
import Stencil.Proofs.Expr.Outcomes
import Stencil.Proofs.Expr.Padding
import Stencil.Proofs.Expr.Parts
import Stencil.Proofs.Expr.Paths
import Stencil.Proofs.Expr.Positions
import Stencil.Proofs.Expr.Products
import Stencil.Proofs.Expr.Reading
import Stencil.Proofs.Expr.Rescue
import Stencil.Proofs.Expr.Spelling
import Stencil.Proofs.Expr.Undefined
import Stencil.Proofs.Expr.Writing
import Stencil.Proofs.Json.Overlay
import Stencil.Proofs.Scope.Maps
import Stencil.Proofs.Scope.Sharing
import Stencil.Proofs.Settings.Loading
import Stencil.Proofs.Template.Appending
import Stencil.Proofs.Template.Bounds
import Stencil.Proofs.Template.Branches
import Stencil.Proofs.Template.Characters
import Stencil.Proofs.Template.Clauses
import Stencil.Proofs.Template.Coupling
import Stencil.Proofs.Template.Depth
import Stencil.Proofs.Template.Escaping
import Stencil.Proofs.Template.Extents
import Stencil.Proofs.Template.Failures
import Stencil.Proofs.Template.Interior
import Stencil.Proofs.Template.Interpolation
import Stencil.Proofs.Template.Locality
import Stencil.Proofs.Template.LoopNames
import Stencil.Proofs.Template.Names
import Stencil.Proofs.Template.Nesting
import Stencil.Proofs.Template.Quoting
import Stencil.Proofs.Template.Rendering
import Stencil.Proofs.Template.Resolution
import Stencil.Proofs.Template.Respelling
import Stencil.Proofs.Template.Source
import Stencil.Proofs.Template.Strictness
import Stencil.Proofs.Template.Tagging
import Stencil.Proofs.Template.Tiling
import Stencil.Proofs.Template.Tree
import Stencil.Proofs.Template.TreeRendering
import Stencil.Proofs.Text.Entities
import Stencil.Proofs.Text.Occurrences
import Stencil.Proofs.Text.Trimming
import Stencil.Proofs.Value.Equality
import Stencil.Proofs.Value.Maps
import Stencil.Proofs.Value.Repetition
import Stencil.Proofs.Value.Repr
import Stencil.Proofs.Value.Sequences
import Stencil.Proofs.Value.Splitting
import Stencil.Routine
import Stencil.Scope
import Stencil.Scope.Contexts
import Stencil.Settings.Basic
import Stencil.Settings.Loading
import Stencil.Template.Block
import Stencil.Template.MapOrder
import Stencil.Template.Node
import Stencil.Template.Render
import Stencil.Template.Tag
import Stencil.Text.Blank
import Stencil.Text.Case
import Stencil.Text.CaseTable
import Stencil.Text.Letter
import Stencil.Text.Markup
import Stencil.Text.Search
import Stencil.Toml.Reader
import Stencil.Toml.Table
import Stencil.Value.Basic
import Stencil.Value.Coercion
import Stencil.Value.Equality
import Stencil.Value.Text
