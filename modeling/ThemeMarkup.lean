import ThemeMarkup.Attribute
import ThemeMarkup.Cache
import ThemeMarkup.CommandLine.Arguments
import ThemeMarkup.CommandLine.Run
import ThemeMarkup.CommandLine.Stamp
import ThemeMarkup.Compiler.Basic
import ThemeMarkup.Compiler.Form
import ThemeMarkup.Compiler.Standard
import ThemeMarkup.Config.Basic
import ThemeMarkup.Config.Check
import ThemeMarkup.Config.Engine
import ThemeMarkup.Config.File
import ThemeMarkup.Data
import ThemeMarkup.Discovery
import ThemeMarkup.Display
import ThemeMarkup.Double
import ThemeMarkup.Engine
import ThemeMarkup.Error
import ThemeMarkup.Label.Markup
import ThemeMarkup.Label.Outline
import ThemeMarkup.Main
import ThemeMarkup.Marker
import ThemeMarkup.Node.Basic
import ThemeMarkup.Node.Grove
import ThemeMarkup.Node.Insert
import ThemeMarkup.Pairing
import ThemeMarkup.Path
import ThemeMarkup.Proofs.Argument
import ThemeMarkup.Proofs.Attribute
import ThemeMarkup.Proofs.Attribute.Bare
import ThemeMarkup.Proofs.Attribute.Printed
import ThemeMarkup.Proofs.Attribute.Reading
import ThemeMarkup.Proofs.Body
import ThemeMarkup.Proofs.Cache
import ThemeMarkup.Proofs.Coherence
import ThemeMarkup.Proofs.Coordinates
import ThemeMarkup.Proofs.Directory
import ThemeMarkup.Proofs.Discovery
import ThemeMarkup.Proofs.Display
import ThemeMarkup.Proofs.Edits
import ThemeMarkup.Proofs.Except
import ThemeMarkup.Proofs.Expression.Inclusion
import ThemeMarkup.Proofs.Expression.Literal
import ThemeMarkup.Proofs.Expression.Quotation
import ThemeMarkup.Proofs.Expression.Rewriting
import ThemeMarkup.Proofs.FlatPass
import ThemeMarkup.Proofs.Inclusion
import ThemeMarkup.Proofs.Label.Attribute
import ThemeMarkup.Proofs.Label.Quotation
import ThemeMarkup.Proofs.Label.Render
import ThemeMarkup.Proofs.Label.Token
import ThemeMarkup.Proofs.Location
import ThemeMarkup.Proofs.Marked.Attribute
import ThemeMarkup.Proofs.Marked.Basic
import ThemeMarkup.Proofs.Marked.Compile
import ThemeMarkup.Proofs.Marked.Expression
import ThemeMarkup.Proofs.Marked.Node
import ThemeMarkup.Proofs.Marked.Pass
import ThemeMarkup.Proofs.Marked.Place
import ThemeMarkup.Proofs.Marked.Routine
import ThemeMarkup.Proofs.Marked.Show
import ThemeMarkup.Proofs.Marked.Tag
import ThemeMarkup.Proofs.Marker
import ThemeMarkup.Proofs.Missing
import ThemeMarkup.Proofs.Node.Arrangement
import ThemeMarkup.Proofs.Node.Crossing
import ThemeMarkup.Proofs.Node.Grove
import ThemeMarkup.Proofs.Node.Insert
import ThemeMarkup.Proofs.Node.Preorder
import ThemeMarkup.Proofs.Operation
import ThemeMarkup.Proofs.Origin
import ThemeMarkup.Proofs.Pairing.Forest
import ThemeMarkup.Proofs.Pairing.Grammar
import ThemeMarkup.Proofs.Pairing.Laminar
import ThemeMarkup.Proofs.Pairing.Shape
import ThemeMarkup.Proofs.Pairing.Single
import ThemeMarkup.Proofs.Pairing.Strict
import ThemeMarkup.Proofs.Pairing.Substitution
import ThemeMarkup.Proofs.Pairing.Tree
import ThemeMarkup.Proofs.Pairing.Usual
import ThemeMarkup.Proofs.Path
import ThemeMarkup.Proofs.Relocation
import ThemeMarkup.Proofs.Required
import ThemeMarkup.Proofs.Splice
import ThemeMarkup.Proofs.StandardPass
import ThemeMarkup.Proofs.Store
import ThemeMarkup.Proofs.Table
import ThemeMarkup.Proofs.Tag.Code
import ThemeMarkup.Proofs.Tag.Entry
import ThemeMarkup.Proofs.Tag.Grammar
import ThemeMarkup.Proofs.Tag.Interior
import ThemeMarkup.Proofs.Tag.Literal
import ThemeMarkup.Proofs.Tag.Longest
import ThemeMarkup.Proofs.Tag.Node
import ThemeMarkup.Proofs.Tag.Row
import ThemeMarkup.Proofs.Tag.Scan
import ThemeMarkup.Proofs.TagFree
import ThemeMarkup.Proofs.Template.Basic
import ThemeMarkup.Proofs.Template.Compile
import ThemeMarkup.Proofs.Template.Expression
import ThemeMarkup.Proofs.Template.Interleaved
import ThemeMarkup.Proofs.Template.Nesting
import ThemeMarkup.Proofs.Template.Passes
import ThemeMarkup.Proofs.Template.Routines
import ThemeMarkup.Proofs.Template.Source
import ThemeMarkup.Proofs.Template.Stages
import ThemeMarkup.Proofs.Template.Unmarked
import ThemeMarkup.Proofs.Text.Base64
import ThemeMarkup.Proofs.Text.Blank
import ThemeMarkup.Proofs.Text.Ink
import ThemeMarkup.Proofs.Text.Line
import ThemeMarkup.Proofs.Text.Lowercase
import ThemeMarkup.Proofs.Text.Occurrence
import ThemeMarkup.Proofs.Text.Quoted
import ThemeMarkup.Proofs.Text.Search
import ThemeMarkup.Proofs.Text.Utf8
import ThemeMarkup.Proofs.Twin.Attribute
import ThemeMarkup.Proofs.Twin.Basic
import ThemeMarkup.Proofs.Twin.Compile
import ThemeMarkup.Proofs.Twin.Expression
import ThemeMarkup.Proofs.Twin.Inclusion
import ThemeMarkup.Proofs.Twin.Node
import ThemeMarkup.Proofs.Twin.Pass
import ThemeMarkup.Proofs.Twin.Routine
import ThemeMarkup.Proofs.Twin.Scan
import ThemeMarkup.Proofs.Twin.Tag
import ThemeMarkup.Registry
import ThemeMarkup.Span.Basic
import ThemeMarkup.Span.Location
import ThemeMarkup.Store
import ThemeMarkup.Table
import ThemeMarkup.Tag.Code
import ThemeMarkup.Tag.Literal
import ThemeMarkup.Tag.Node
import ThemeMarkup.Tag.Scan
import ThemeMarkup.Target
import ThemeMarkup.Text.Base64
import ThemeMarkup.Text.Basic
import ThemeMarkup.Text.Blank
import ThemeMarkup.Text.CharRanges
import ThemeMarkup.Text.Digest
import ThemeMarkup.Text.Glob
import ThemeMarkup.Text.Lowercase
import ThemeMarkup.Text.Printable
import ThemeMarkup.Text.Quoted
import ThemeMarkup.Text.Utf8
import ThemeMarkup.Text.Word
import ThemeMarkup.View
import ThemeMarkup.Yaml.Cursor
import ThemeMarkup.Yaml.Document
import ThemeMarkup.Yaml.Fault
import ThemeMarkup.Yaml.Moment
import ThemeMarkup.Yaml.Node
import ThemeMarkup.Yaml.Property
import ThemeMarkup.Yaml.Scalar
import ThemeMarkup.Yaml.Token
import ThemeMarkup.Yaml.Word
