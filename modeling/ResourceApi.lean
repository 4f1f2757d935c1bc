import ResourceApi.Api.Cleaning
import ResourceApi.Api.Components
import ResourceApi.Api.Document
import ResourceApi.Api.Operation
import ResourceApi.Api.Parameter
import ResourceApi.Api.Reading
import ResourceApi.Api.Routes
import ResourceApi.CommandLine.Command
import ResourceApi.CommandLine.Request
import ResourceApi.CommandLine.Run
import ResourceApi.CommandLine.Words
import ResourceApi.Compilation.Directory
import ResourceApi.Compilation.Files
import ResourceApi.Disk.Basic
import ResourceApi.Disk.Path
import ResourceApi.Json.Basic
import ResourceApi.Json.Fields
import ResourceApi.Json.Likeness
import ResourceApi.Json.Reader
import ResourceApi.Json.Shown
import ResourceApi.Json.Writer
import ResourceApi.Main
import ResourceApi.Notice
import ResourceApi.Number.Binary64
import ResourceApi.Number.Numeral
import ResourceApi.Number.Shortest
import ResourceApi.OpenApi.Check
import ResourceApi.OpenApi.Records
import ResourceApi.OpenApi.Shape
import ResourceApi.Options.Basic
import ResourceApi.Options.File
import ResourceApi.Options.Setting
import ResourceApi.Outcome
import ResourceApi.Resource.Config
import ResourceApi.Resource.File
import ResourceApi.Resource.Method
import ResourceApi.Resource.Normal
import ResourceApi.Resource.Problem
import ResourceApi.Resource.Required
import ResourceApi.Text.Base64
import ResourceApi.Text.DecimalDigit
import ResourceApi.Text.Lines
import ResourceApi.Text.LowerCase
import ResourceApi.Text.Pattern
import ResourceApi.Text.Printable
import ResourceApi.Text.Quoted
import ResourceApi.Text.Similarity
import ResourceApi.Text.UpperCase
import ResourceApi.Text.Utf8
import ResourceApi.Validation.Fault
import ResourceApi.Validation.Scalar
import ResourceApi.Yaml.Cursor
import ResourceApi.Yaml.Lexeme
import ResourceApi.Yaml.Lexer
import ResourceApi.Yaml.Node
import ResourceApi.Yaml.Resolve
import ResourceApi.Yaml.ScalarLexer
import ResourceApi.Yaml.ScalarText
import ResourceApi.Yaml.Token
import ResourceApi.Yaml.Value
import ResourceApi.Yaml.Writer
import ResourceApi.Proofs.Json.FieldLaws
import ResourceApi.Proofs.Json.Throughout
import ResourceApi.Proofs.Results
import ResourceApi.Proofs.Resource.Flattening
import ResourceApi.Proofs.Resource.RequiredLists
import ResourceApi.Proofs.Resource.NormalForm
import ResourceApi.Proofs.Resource.Positions
import ResourceApi.Proofs.Resource.LostNames
import ResourceApi.Proofs.Resource.SwitchedOff
import ResourceApi.Proofs.Resource.UpwardDemands
import ResourceApi.Proofs.Resource.Untouched
import ResourceApi.Proofs.Api.Cleaned
import ResourceApi.Proofs.Api.Fragment
import ResourceApi.Proofs.Api.Phases
import ResourceApi.Proofs.Compilation.Runs
import ResourceApi.Proofs.Api.References
import ResourceApi.Proofs.Number.ReadBack
import ResourceApi.Proofs.Json.StringRoundTrip
import ResourceApi.Proofs.Json.NumberRoundTrip
import ResourceApi.Proofs.Json.RoundTrip
import ResourceApi.Proofs.Json.LineEnds
import ResourceApi.Proofs.Json.ReadStorable
import ResourceApi.Proofs.Resource.StoredFile
import ResourceApi.Proofs.Disk.Growth
import ResourceApi.Proofs.Resource.NormalFile
import ResourceApi.Proofs.Compilation.LastWrite
import ResourceApi.Proofs.Compilation.Sources
import ResourceApi.Proofs.Compilation.Scanning
import ResourceApi.Proofs.Compilation.SecondRun
import ResourceApi.Proofs.Api.RequiredInBodies
import ResourceApi.Proofs.Api.ComponentNames
import ResourceApi.Proofs.Api.PublishedLists
import ResourceApi.Proofs.Api.Acceptance
import ResourceApi.Proofs.Api.Apart
import ResourceApi.Proofs.Disk.PathText
import ResourceApi.Proofs.Compilation.Orders
import ResourceApi.Proofs.Disk.Beside
import ResourceApi.Proofs.OpenApi.Entries
import ResourceApi.Proofs.Compilation.OneMore
import ResourceApi.Proofs.Compilation.OwnEntries
import ResourceApi.Proofs.Compilation.Identifiers
import ResourceApi.Proofs.Compilation.Referents
import ResourceApi.Proofs.Text.PatternLanguage
import ResourceApi.Proofs.Yaml.Cursors
import ResourceApi.Proofs.Yaml.QuotedScalars
import ResourceApi.Proofs.Yaml.PrintedTexts
import ResourceApi.Proofs.Yaml.QuotedTexts
import ResourceApi.Proofs.Yaml.PlainScalars
import ResourceApi.Proofs.Yaml.LexerSteps
import ResourceApi.Proofs.Yaml.ScalarTokens
import ResourceApi.Proofs.Yaml.KeyTokens
import ResourceApi.Proofs.Yaml.PlainWords
import ResourceApi.Proofs.Yaml.NumberScalars
import ResourceApi.Proofs.Yaml.ValueTokens
import ResourceApi.Proofs.Yaml.DocumentTokens
import ResourceApi.Proofs.Yaml.TokenNodes
import ResourceApi.Proofs.Yaml.NodeNumbers
import ResourceApi.Proofs.Yaml.HeldValues
import ResourceApi.Proofs.Yaml.BuiltValues
import ResourceApi.Proofs.Yaml.WrittenDocuments
import ResourceApi.Proofs.Compilation.RoutePrefix
import ResourceApi.Proofs.Resource.WrittenFile
import ResourceApi.Proofs.Compilation.RewrittenFiles
import ResourceApi.Proofs.Compilation.Verdicts
import ResourceApi.Proofs.OpenApi.Fitting
import ResourceApi.Proofs.OpenApi.Skeleton
import ResourceApi.Proofs.Compilation.Validity
import ResourceApi.Proofs.Json.LikenessLaws
import ResourceApi.Proofs.Resource.VisibleChanges
import ResourceApi.Proofs.CommandLine.NormalizeRuns
import ResourceApi.Proofs.CommandLine.Checking
import ResourceApi.Proofs.Resource.ShapeFaults
import ResourceApi.Proofs.Api.CleanedTwice
import ResourceApi.Proofs.Api.Variants
import ResourceApi.Proofs.Api.Listing
import ResourceApi.Proofs.Api.QueryParameters
import ResourceApi.Proofs.Api.MethodPlaces
import ResourceApi.Proofs.Api.PatchedListing
import ResourceApi.Proofs.Json.Entrywise
import ResourceApi.Proofs.Api.MethodSets
import ResourceApi.Proofs.Compilation.TwoRuns
import ResourceApi.Proofs.Compilation.IdentifierOption
import ResourceApi.Proofs.Api.Patching
import ResourceApi.Proofs.Api.CleanedAlike
import ResourceApi.Proofs.Options.Precedence
