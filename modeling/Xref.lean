import Xref.Cache.Artifacts
import Xref.Cache.Memo
import Xref.Cache.Plan
import Xref.Cache.Query
import Xref.CommandLine.Json
import Xref.CommandLine.Path
import Xref.CommandLine.Request
import Xref.CommandLine.Run
import Xref.Diagnostics
import Xref.Facts
import Xref.Failure
import Xref.Filter.Bits
import Xref.Filter.Bloom
import Xref.Filter.Index
import Xref.Filter.SipHash
import Xref.Grammar.CSharp
import Xref.Grammar.Cursor
import Xref.Grammar.VisualBasic
import Xref.Identifier.Basic
import Xref.Identifier.Comparison
import Xref.Identifier.Occurrence
import Xref.Kind
import Xref.Language
import Xref.Lexeme.Basic
import Xref.Lexeme.Gap
import Xref.Lexeme.Keyword
import Xref.Lexeme.Sequence
import Xref.Lexeme.Shape
import Xref.Main
import Xref.Manager.Basic
import Xref.Manager.Event
import Xref.Manager.Flight
import Xref.Partition
import Xref.Proofs.Cache.Aliases
import Xref.Proofs.Cache.Answer
import Xref.Proofs.Cache.Balance
import Xref.Proofs.Cache.Facts
import Xref.Proofs.Cache.History
import Xref.Proofs.Cache.Initializers
import Xref.Proofs.Cache.Plans
import Xref.Proofs.Cache.Run
import Xref.Proofs.Cache.Spellings
import Xref.Proofs.Cache.Tokens
import Xref.Proofs.Cache.Transparency
import Xref.Proofs.Filter.Index
import Xref.Proofs.Grammar.Balance
import Xref.Proofs.Grammar.Braces
import Xref.Proofs.Grammar.CSharp
import Xref.Proofs.Grammar.Growth
import Xref.Proofs.Grammar.Imports
import Xref.Proofs.Grammar.Lines
import Xref.Proofs.Grammar.Names
import Xref.Proofs.Grammar.Parameters
import Xref.Proofs.Grammar.VisualBasic
import Xref.Proofs.Identifier.Find
import Xref.Proofs.Identifier.Form
import Xref.Proofs.Identifier.Occurrence
import Xref.Proofs.Lexeme.Attachment
import Xref.Proofs.Lexeme.Boundary
import Xref.Proofs.Lexeme.Cuts
import Xref.Proofs.Lexeme.Fresh
import Xref.Proofs.Lexeme.Lines
import Xref.Proofs.Lexeme.LogicalLines
import Xref.Proofs.Lexeme.Nameless
import Xref.Proofs.Lexeme.Origin
import Xref.Proofs.Lexeme.Plain
import Xref.Proofs.Lexeme.Spelling
import Xref.Proofs.Lexeme.Spot
import Xref.Proofs.Manager.Alike
import Xref.Proofs.Manager.Answer
import Xref.Proofs.Manager.Company
import Xref.Proofs.Manager.Counts
import Xref.Proofs.Manager.Entries
import Xref.Proofs.Manager.Fewer
import Xref.Proofs.Manager.Handed
import Xref.Proofs.Manager.Kept
import Xref.Proofs.Manager.Move
import Xref.Proofs.Manager.Pins
import Xref.Proofs.Manager.Release
import Xref.Proofs.Manager.Single
import Xref.Proofs.Manager.Starter
import Xref.Proofs.Manager.Waiters
import Xref.Proofs.References.Agree
import Xref.Proofs.References.Cursor
import Xref.Proofs.References.Exact
import Xref.Proofs.References.Order
import Xref.Proofs.Search.Asked
import Xref.Proofs.Search.Exact
import Xref.Proofs.Search.Outcome
import Xref.Proofs.Search.Scan
import Xref.Proofs.Search.Walk
import Xref.Proofs.Session.Runs
import Xref.Proofs.Symbols.Aliases
import Xref.Proofs.Symbols.Arity
import Xref.Proofs.Symbols.Declared
import Xref.Proofs.Symbols.Initializers
import Xref.Proofs.Symbols.Named
import Xref.Proofs.Symbols.Numbers
import Xref.Proofs.Symbols.Resolved
import Xref.Proofs.Symbols.Scope
import Xref.Proofs.Text.Bytes
import Xref.Proofs.Text.Position
import Xref.Proofs.Tree.Arena
import Xref.Proofs.Tree.Braces
import Xref.Proofs.Tree.Children
import Xref.Proofs.Tree.Classified
import Xref.Proofs.Tree.Directives
import Xref.Proofs.Tree.Formed
import Xref.Proofs.Tree.Heads
import Xref.Proofs.Tree.Imports
import Xref.Proofs.Tree.Layout
import Xref.Proofs.Tree.Lines
import Xref.Proofs.Tree.Lookup
import Xref.Proofs.Tree.Lossless
import Xref.Proofs.Tree.Names
import Xref.Proofs.Tree.Outline
import Xref.Proofs.Tree.Parameters
import Xref.Proofs.Tree.Parse
import Xref.Proofs.Tree.Tables
import Xref.Proofs.Tree.Tiling
import Xref.Proofs.Unicode.Classes
import Xref.References.Find
import Xref.References.Location
import Xref.Search.Scan
import Xref.Search.Strategy
import Xref.Search.Walk
import Xref.Session.Basic
import Xref.Session.Document
import Xref.Session.Steps
import Xref.Symbols.Declaration
import Xref.Symbols.Model
import Xref.Symbols.Symbol
import Xref.Text.Basic
import Xref.Text.Order
import Xref.Text.Quoted
import Xref.Text.Source
import Xref.Text.Span
import Xref.Tree.Basic
import Xref.Tree.Event
import Xref.Tree.Forest
import Xref.Tree.Parse
import Xref.Tree.Token
import Xref.Unicode.Alphabetic
import Xref.Unicode.Character
import Xref.Unicode.GraphemeExtend
import Xref.Unicode.Lowercase
import Xref.Unicode.Numeric
import Xref.Unicode.Ranges
import Xref.Unicode.Unprintable
