import SqlFragment.Document.Level
import SqlFragment.Expr.Equality
import SqlFragment.Expr.Parts
import SqlFragment.Lookup.Threads
import SqlFragment.Proofs.Binary64.Printed
import SqlFragment.Proofs.Binary64.Rounding
import SqlFragment.Proofs.Build.Obtainable
import SqlFragment.Proofs.Build.Rules
import SqlFragment.Proofs.Calendar.Form
import SqlFragment.Proofs.Calendar.Order
import SqlFragment.Proofs.Calendar.Printed
import SqlFragment.Proofs.Column.Declared
import SqlFragment.Proofs.Dialect.Bare
import SqlFragment.Proofs.Dialect.Names
import SqlFragment.Proofs.Dialect.Numbers
import SqlFragment.Proofs.Dialect.Spelling
import SqlFragment.Proofs.Document.Grammar
import SqlFragment.Proofs.Document.Json
import SqlFragment.Proofs.Document.Presentations
import SqlFragment.Proofs.Document.Reading
import SqlFragment.Proofs.Document.Refusal
import SqlFragment.Proofs.Document.RoundTrip
import SqlFragment.Proofs.Document.Shape
import SqlFragment.Proofs.Expr.Equality
import SqlFragment.Proofs.Lexical.Safety
import SqlFragment.Proofs.Lexical.Scanner
import SqlFragment.Proofs.Lexical.Tokens
import SqlFragment.Proofs.Lookup.Calls
import SqlFragment.Proofs.Lookup.Dependence
import SqlFragment.Proofs.Lookup.Events
import SqlFragment.Proofs.Lookup.Failure
import SqlFragment.Proofs.Lookup.Footprint
import SqlFragment.Proofs.Lookup.Metadata
import SqlFragment.Proofs.Lookup.Session
import SqlFragment.Proofs.Lookup.Sharing
import SqlFragment.Proofs.Lookup.Threads
import SqlFragment.Proofs.Lookup.Transparency
import SqlFragment.Proofs.Numeral.Form
import SqlFragment.Proofs.Render.Dialects
import SqlFragment.Proofs.Render.Grouping
import SqlFragment.Proofs.Render.Refinement
import SqlFragment.Proofs.Render.Schemaless
import SqlFragment.Proofs.Render.Substitution
import SqlFragment.Schema
