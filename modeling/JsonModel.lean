import JsonModel.Bytes.Base64
import JsonModel.Bytes.Utf8
import JsonModel.Check.Issue
import JsonModel.Check.Leaf
import JsonModel.Check.Model
import JsonModel.Check.Outcome
import JsonModel.Check.Rule
import JsonModel.Check.Type
import JsonModel.Command.Request
import JsonModel.Command.Run
import JsonModel.Data.Disk
import JsonModel.Data.FileTree
import JsonModel.Data.Places
import JsonModel.Data.Shown
import JsonModel.Data.Value
import JsonModel.Format.Address
import JsonModel.Format.Calendar
import JsonModel.Format.Host
import JsonModel.Format.Identifier
import JsonModel.Format.Link
import JsonModel.Json.Basic
import JsonModel.Json.Members
import JsonModel.Json.Printer
import JsonModel.Json.ReadError
import JsonModel.Json.Reader
import JsonModel.Main
import JsonModel.Number.Basic
import JsonModel.Number.Decimal
import JsonModel.Number.Literal
import JsonModel.Outline.Document
import JsonModel.Outline.Leaf
import JsonModel.Outline.Pattern
import JsonModel.Outline.Settle
import JsonModel.Proofs.Bytes.Base64
import JsonModel.Proofs.Check.Accept
import JsonModel.Proofs.Check.Again
import JsonModel.Proofs.Check.Bounds
import JsonModel.Proofs.Check.Bytes
import JsonModel.Proofs.Check.Checked
import JsonModel.Proofs.Check.Choice
import JsonModel.Proofs.Check.Clean
import JsonModel.Proofs.Check.Extra
import JsonModel.Proofs.Check.Fields
import JsonModel.Proofs.Check.Follow
import JsonModel.Proofs.Check.Join
import JsonModel.Proofs.Check.Leaf
import JsonModel.Proofs.Check.Links
import JsonModel.Proofs.Check.Looser
import JsonModel.Proofs.Check.Make
import JsonModel.Proofs.Check.Nullable
import JsonModel.Proofs.Check.Optional
import JsonModel.Proofs.Check.Order
import JsonModel.Proofs.Check.Output
import JsonModel.Proofs.Check.Overlay
import JsonModel.Proofs.Check.Parts
import JsonModel.Proofs.Check.Place
import JsonModel.Proofs.Check.Rename
import JsonModel.Proofs.Check.Result
import JsonModel.Proofs.Check.Runs
import JsonModel.Proofs.Check.Schemes
import JsonModel.Proofs.Check.Secret
import JsonModel.Proofs.Check.Shuffled
import JsonModel.Proofs.Check.Tighter
import JsonModel.Proofs.Check.Validated
import JsonModel.Proofs.Command.Exit
import JsonModel.Proofs.Compile.Blame
import JsonModel.Proofs.Compile.Define
import JsonModel.Proofs.Compile.Expansion
import JsonModel.Proofs.Compile.Inline
import JsonModel.Proofs.Compile.Inside
import JsonModel.Proofs.Compile.Offence
import JsonModel.Proofs.Compile.Pieces
import JsonModel.Proofs.Compile.Pointer
import JsonModel.Proofs.Compile.Rearrange
import JsonModel.Proofs.Compile.Rename
import JsonModel.Proofs.Compile.Reorder
import JsonModel.Proofs.Compile.Rewrite
import JsonModel.Proofs.Compile.Segments
import JsonModel.Proofs.Compile.Shape
import JsonModel.Proofs.Compile.Single
import JsonModel.Proofs.Compile.Site
import JsonModel.Proofs.Compile.Step
import JsonModel.Proofs.Compile.Taken
import JsonModel.Proofs.Compile.Titles
import JsonModel.Proofs.Compile.Unbundled
import JsonModel.Proofs.Compile.Unnamed
import JsonModel.Proofs.Compile.Unread
import JsonModel.Proofs.Compile.Visit
import JsonModel.Proofs.Compile.WellFormed
import JsonModel.Proofs.Descriptor
import JsonModel.Proofs.Document
import JsonModel.Proofs.Json.Numeral
import JsonModel.Proofs.Json.Print
import JsonModel.Proofs.Json.Quoted
import JsonModel.Proofs.Json.Read
import JsonModel.Proofs.Json.Reread
import JsonModel.Proofs.Json.Told
import JsonModel.Proofs.KeyOrder
import JsonModel.Proofs.Members
import JsonModel.Proofs.Number.Decimal
import JsonModel.Proofs.Number.Order
import JsonModel.Proofs.Outline.Fields
import JsonModel.Proofs.Outline.Leaf
import JsonModel.Proofs.Outline.Limits
import JsonModel.Proofs.Outline.Names
import JsonModel.Proofs.Outline.Recompile
import JsonModel.Proofs.Outline.Roundtrip
import JsonModel.Proofs.Record
import JsonModel.Proofs.Settings.Lines
import JsonModel.Proofs.Settings.Search
import JsonModel.Proofs.Settings.Written
import JsonModel.Proofs.Split
import JsonModel.Proofs.Text.TitleCase
import JsonModel.Proofs.Tool.Printed
import JsonModel.Proofs.Tool.Surfaces
import JsonModel.Proofs.Tool.Verdict
import JsonModel.Proofs.Traversal
import JsonModel.Schema.Compile
import JsonModel.Schema.CompileError
import JsonModel.Schema.Descriptor
import JsonModel.Schema.Format
import JsonModel.Schema.Kind
import JsonModel.Schema.Pointer
import JsonModel.Schema.Record
import JsonModel.Settings.Basic
import JsonModel.Settings.Text
import JsonModel.Text.Blank
import JsonModel.Text.Digits
import JsonModel.Text.Letter
import JsonModel.Text.LetterCase
import JsonModel.Text.Quoted
import JsonModel.Text.Split
import JsonModel.Text.TitleCase
import JsonModel.Text.Units
import JsonModel.Tool.Answer
import JsonModel.Tool.Basic
