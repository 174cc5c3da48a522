import Concordance.Chars.Basic
import Concordance.Chars.Case
import Concordance.Chars.Letter
import Concordance.Chars.Numeral
import Concordance.Chars.Printable
import Concordance.Chars.Quoted
import Concordance.Chars.Ranges
import Concordance.Chars.Utf8
import Concordance.Chars.Word
import Concordance.Digest
import Concordance.Disk.Basic
import Concordance.Disk.Change
import Concordance.Disk.Resolve
import Concordance.Document.Basic
import Concordance.Document.Element
import Concordance.Document.Markup
import Concordance.Document.Place
import Concordance.Document.Region
import Concordance.Document.Setup
import Concordance.Extract.Basic
import Concordance.Extract.Comment
import Concordance.Extract.Context
import Concordance.Extract.Declaration.Basic
import Concordance.Extract.Declaration.C
import Concordance.Extract.Declaration.CSharp
import Concordance.Extract.Declaration.Ecmascript
import Concordance.Extract.Declaration.Generic
import Concordance.Extract.Declaration.Go
import Concordance.Extract.Declaration.Jvm
import Concordance.Extract.Declaration.Php
import Concordance.Extract.Declaration.Python
import Concordance.Extract.Declaration.Ruby
import Concordance.Extract.Declaration.Rust
import Concordance.Extract.Export
import Concordance.Extract.Header
import Concordance.Extract.Import
import Concordance.Extract.ImportText
import Concordance.Extract.Member
import Concordance.Extract.Name
import Concordance.Extract.Parameter
import Concordance.Extract.Reference
import Concordance.Extract.Visibility
import Concordance.Glob
import Concordance.Grammar
import Concordance.Graph.Call
import Concordance.Graph.Dependency
import Concordance.Graph.Directed
import Concordance.Graph.Resolve
import Concordance.Graph.Writer
import Concordance.Json.Basic
import Concordance.Json.Reader
import Concordance.Json.Token
import Concordance.Json.Writer
import Concordance.Language.Basic
import Concordance.Language.Extension
import Concordance.Lock
import Concordance.Number
import Concordance.Parse.Basic
import Concordance.Parse.File
import Concordance.Path
import Concordance.Pattern.Basic
import Concordance.Pattern.Matcher
import Concordance.Pattern.Reader
import Concordance.Project.Basic
import Concordance.Project.Query
import Concordance.Project.Run
import Concordance.Project.Update
import Concordance.Proofs.Attempt
import Concordance.Proofs.Chars.Case
import Concordance.Proofs.Chars.Find
import Concordance.Proofs.Chars.Lower
import Concordance.Proofs.Chars.Numeral
import Concordance.Proofs.Chars.Utf8
import Concordance.Proofs.Disk.Change
import Concordance.Proofs.Disk.Changed
import Concordance.Proofs.Disk.Contents
import Concordance.Proofs.Disk.Folders
import Concordance.Proofs.Disk.Follow
import Concordance.Proofs.Disk.Frame
import Concordance.Proofs.Disk.Plain
import Concordance.Proofs.Disk.Ruled
import Concordance.Proofs.Disk.Straight
import Concordance.Proofs.Document.Element
import Concordance.Proofs.Document.Markup
import Concordance.Proofs.Document.Place
import Concordance.Proofs.Document.Relocation
import Concordance.Proofs.Document.Script
import Concordance.Proofs.Document.Setup
import Concordance.Proofs.Extract.Base
import Concordance.Proofs.Extract.Declared
import Concordance.Proofs.Extract.Distinct
import Concordance.Proofs.Extract.Heritage
import Concordance.Proofs.Extract.Member
import Concordance.Proofs.Extract.Name
import Concordance.Proofs.Extract.Owner
import Concordance.Proofs.Extract.Recorded
import Concordance.Proofs.Extract.Span
import Concordance.Proofs.Extract.Uncommented
import Concordance.Proofs.Extract.UsePath
import Concordance.Proofs.Extract.UseTree
import Concordance.Proofs.Extract.Uses
import Concordance.Proofs.Glob
import Concordance.Proofs.Grammar
import Concordance.Proofs.Graph.Call
import Concordance.Proofs.Graph.Counted
import Concordance.Proofs.Graph.Dependency
import Concordance.Proofs.Graph.Directed
import Concordance.Proofs.Graph.Enclosing
import Concordance.Proofs.Graph.Resolve
import Concordance.Proofs.Json.Number
import Concordance.Proofs.Json.Reader
import Concordance.Proofs.Json.Token
import Concordance.Proofs.Lock
import Concordance.Proofs.Number.Rounding
import Concordance.Proofs.Number.Shortest
import Concordance.Proofs.Parse.Stamped
import Concordance.Proofs.Path
import Concordance.Proofs.Path.Plain
import Concordance.Proofs.Project.Account
import Concordance.Proofs.Project.Alias
import Concordance.Proofs.Project.Apart
import Concordance.Proofs.Project.Failed
import Concordance.Proofs.Project.Gathered
import Concordance.Proofs.Project.Housing
import Concordance.Proofs.Project.Incremental
import Concordance.Proofs.Project.Manager
import Concordance.Proofs.Project.Reopen
import Concordance.Proofs.Project.Run
import Concordance.Proofs.Project.Session
import Concordance.Proofs.Project.Settled
import Concordance.Proofs.Project.Single
import Concordance.Proofs.Project.Stamped
import Concordance.Proofs.Project.Steady
import Concordance.Proofs.Project.Tallied
import Concordance.Proofs.Project.Visit
import Concordance.Proofs.Project.Writers
import Concordance.Proofs.Record.RoundTrip
import Concordance.Proofs.Record.Statistics
import Concordance.Proofs.Record.Storable
import Concordance.Proofs.Roster
import Concordance.Proofs.Scan.Found
import Concordance.Proofs.Scan.Ignore
import Concordance.Proofs.Scan.Whole
import Concordance.Proofs.Search.Pointing
import Concordance.Proofs.Search.Ranked
import Concordance.Proofs.Search.Tier
import Concordance.Proofs.Settings.Loaded
import Concordance.Proofs.Settings.Reload
import Concordance.Proofs.Source.Point
import Concordance.Proofs.Source.Row
import Concordance.Proofs.Store
import Concordance.Proofs.Toml.Atom
import Concordance.Proofs.Toml.Document
import Concordance.Proofs.Toml.Value
import Concordance.Proofs.Tree.Ancestor
import Concordance.Proofs.Tree.Ordered
import Concordance.Proofs.Tree.Place
import Concordance.Proofs.Tree.Preorder
import Concordance.Record.FileEntry
import Concordance.Record.Import
import Concordance.Record.Position
import Concordance.Record.ProjectIndex
import Concordance.Record.Reader
import Concordance.Record.Reference
import Concordance.Record.Scope
import Concordance.Record.Statistics
import Concordance.Record.Symbol
import Concordance.Record.Writer
import Concordance.Roster
import Concordance.Scan.Basic
import Concordance.Scan.Ignore
import Concordance.Search.Basic
import Concordance.Search.Score
import Concordance.Settings.Basic
import Concordance.Settings.Document
import Concordance.Source
import Concordance.Store
import Concordance.Toml.Basic
import Concordance.Toml.Document
import Concordance.Toml.Entry
import Concordance.Toml.Moment
import Concordance.Toml.Numeric
import Concordance.Toml.Text
import Concordance.Toml.Value
import Concordance.Tree.Basic
import Concordance.Tree.Node
import Concordance.Tree.Rows
import Concordance.Tree.Walk
import Concordance.Proofs.Extract.Passes
