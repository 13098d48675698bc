import NestedQuery.Main
import NestedQuery.Request.Message
import NestedQuery.Store.Script
import NestedQuery.Proofs.Keyed
import NestedQuery.Proofs.Select.Lexeme
import NestedQuery.Proofs.Select.Text
import NestedQuery.Proofs.Select.Argument
import NestedQuery.Proofs.Document.Line
import NestedQuery.Proofs.Document.Marks
import NestedQuery.Proofs.Document.Unmarked
import NestedQuery.Proofs.Document.Substitution
import NestedQuery.Proofs.Document.Header
import NestedQuery.Proofs.Document.LooseHeader
import NestedQuery.Proofs.Document.Selection
import NestedQuery.Proofs.Document.Grammar
import NestedQuery.Proofs.Document.Layout
import NestedQuery.Proofs.Request.Resolved
import NestedQuery.Proofs.Request.Meaning
import NestedQuery.Proofs.Request.Pruning
import NestedQuery.Proofs.Request.Spelling
import NestedQuery.Proofs.Request.Visits
import NestedQuery.Proofs.Request.Refusal
import NestedQuery.Proofs.Request.NestedData
import NestedQuery.Proofs.Request.Endings
import NestedQuery.Proofs.Request.Identifiers
import NestedQuery.Proofs.Number.Digits
import NestedQuery.Proofs.Value.Keys
import NestedQuery.Proofs.Request.Stitching
import NestedQuery.Proofs.Document.Neighbours
import NestedQuery.Proofs.Request.Documents
import NestedQuery.Proofs.Service.Outcome
import NestedQuery.Proofs.Service.Counts
import NestedQuery.Proofs.Service.Neighbours
import NestedQuery.Proofs.Document.Parameters
import NestedQuery.Proofs.Request.Consistent
import NestedQuery.Proofs.Service.Parameters
import NestedQuery.Proofs.Store.Schema
import NestedQuery.Proofs.Store.Names
import NestedQuery.Proofs.Catalog.File
import NestedQuery.Proofs.Store.Acceptance
import NestedQuery.Proofs.Store.Reading
import NestedQuery.Proofs.Store.NestedRows
import NestedQuery.Proofs.Toml.Lines
import NestedQuery.Proofs.Toml.Tables
import NestedQuery.Proofs.Catalog.Text
import NestedQuery.Proofs.Document.Canonical
import NestedQuery.Proofs.Document.Slices
import NestedQuery.Proofs.Request.Columns
import NestedQuery.Proofs.Request.Pages
import NestedQuery.Proofs.Document.Counters
import NestedQuery.Proofs.Request.Safety
