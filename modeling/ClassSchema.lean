import ClassSchema.Text.Basic
import ClassSchema.Text.Blank
import ClassSchema.Text.Casing
import ClassSchema.Lists
import ClassSchema.Name
import ClassSchema.Type.Basic
import ClassSchema.Type.Brackets
import ClassSchema.Type.Reader
import ClassSchema.Model
import ClassSchema.Tag.Token
import ClassSchema.Tag.Scan
import ClassSchema.Source.Fault
import ClassSchema.Source.Line
import ClassSchema.Source.Document
import ClassSchema.Layout.Tidy
import ClassSchema.Report
import ClassSchema.Json.Value
import ClassSchema.Json.Form
import ClassSchema.Target.Language
import ClassSchema.Target.Go
import ClassSchema.Target.TypeScript.Conversion
import ClassSchema.Target.TypeScript.Class
import ClassSchema.Target.Generate
import ClassSchema.File.Path
import ClassSchema.File.System
import ClassSchema.File.Pattern
import ClassSchema.File.Search
import ClassSchema.Toml.Value
import ClassSchema.Toml.Scalar
import ClassSchema.Toml.Moment
import ClassSchema.Toml.Document
import ClassSchema.Text.Quoted
import ClassSchema.Command.Log
import ClassSchema.Command.LogFilter
import ClassSchema.Command.Failure
import ClassSchema.Command.Basic
import ClassSchema.Command.Arguments
import ClassSchema.Command.Session
import ClassSchema.Command.Settings
import ClassSchema.Command.Discovery
import ClassSchema.Command.Generate
import ClassSchema.Command.Tidy
import ClassSchema.Command.Check
import ClassSchema.Command.Presentation
import ClassSchema.Command.Console
import ClassSchema.Command.Run
import ClassSchema.Main
import ClassSchema.Proofs.Text
import ClassSchema.Proofs.Brackets
import ClassSchema.Proofs.TypeTree
import ClassSchema.Proofs.TypeNotation
import ClassSchema.Proofs.LineWise
import ClassSchema.Proofs.TagRegion
import ClassSchema.Proofs.FieldLine
import ClassSchema.Proofs.WellFormed
import ClassSchema.Proofs.SortedTags
import ClassSchema.Proofs.Printing
import ClassSchema.Proofs.Tidying
import ClassSchema.Proofs.Spans
import ClassSchema.Proofs.TokenTiling
import ClassSchema.Proofs.LineFaults
import ClassSchema.Proofs.FaultSpans
import ClassSchema.Proofs.Rendering
import ClassSchema.Proofs.Annotations
import ClassSchema.Proofs.SkippedFields
import ClassSchema.Proofs.TrailingText
import ClassSchema.Proofs.TidiedCode
import ClassSchema.Proofs.FileShape
import ClassSchema.Proofs.Sessions
import ClassSchema.Proofs.PrintedRuns
import ClassSchema.Proofs.TidyRuns
import ClassSchema.Proofs.FileNames
import ClassSchema.Proofs.GeneratedFiles
import ClassSchema.Proofs.JsonForms
import ClassSchema.Proofs.ClassLines
import ClassSchema.Proofs.ClassMembers
import ClassSchema.Proofs.CheckRuns
import ClassSchema.Proofs.JsonText
import ClassSchema.Proofs.Options
import ClassSchema.Proofs.CommandLines
import ClassSchema.Proofs.Presentations
import ClassSchema.Proofs.Collisions
import ClassSchema.Proofs.ShiftedScan
import ClassSchema.Proofs.Separators
import ClassSchema.Proofs.Conversions
import ClassSchema.Proofs.ConversionLines
import ClassSchema.Proofs.FileLayout
import ClassSchema.Proofs.TypeExclusions
import ClassSchema.Proofs.Alignment
import ClassSchema.Proofs.StructTypes
import ClassSchema.Proofs.ClassTypes
import ClassSchema.Proofs.StructLines
import ClassSchema.Proofs.Literals
import ClassSchema.Proofs.DiscoveredFiles
import ClassSchema.Proofs.TagDecomposition
import ClassSchema.Proofs.PlainPatterns
import ClassSchema.Proofs.DirectorySearch
import ClassSchema.Proofs.DirectoryFiles
import ClassSchema.Proofs.CheckReports
import ClassSchema.Proofs.TypeFaults
import ClassSchema.Proofs.FieldTokens
import ClassSchema.Proofs.Violations
import ClassSchema.Proofs.GenerateRuns
import ClassSchema.Proofs.BracketCounters
import ClassSchema.Proofs.LongestMatch
