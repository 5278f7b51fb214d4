import FontHosting.Asset
import FontHosting.Config.Basic
import FontHosting.Config.Load
import FontHosting.Config.Setting
import FontHosting.Config.Variable
import FontHosting.Css.Families
import FontHosting.Css.Item
import FontHosting.Css.Minify
import FontHosting.Css.Places
import FontHosting.Css.Token
import FontHosting.Css.Value
import FontHosting.Css.Write
import FontHosting.Decimal.Binary
import FontHosting.Decimal.Reading
import FontHosting.Decimal.Shortest
import FontHosting.Digest.Sha256
import FontHosting.FontCall.Analysis
import FontHosting.FontCall.Edit
import FontHosting.FontCall.Fault
import FontHosting.FontCall.Literal
import FontHosting.FontCall.Settings
import FontHosting.FontCall.Transform
import FontHosting.Google.Axes
import FontHosting.Google.Catalog
import FontHosting.Google.Loader
import FontHosting.Google.Options
import FontHosting.Google.Stylesheet
import FontHosting.Http.Request
import FontHosting.Http.Response
import FontHosting.Json.Access
import FontHosting.Json.Reader
import FontHosting.Json.Value
import FontHosting.Json.Writer
import FontHosting.Loader.Cache
import FontHosting.Loader.Call
import FontHosting.Loader.Error
import FontHosting.Loader.Metrics
import FontHosting.Loader.Options
import FontHosting.Loader.Recorded
import FontHosting.Loader.Scripted
import FontHosting.Loader.Unconnected
import FontHosting.LoaderKind
import FontHosting.LocalFont.Loader
import FontHosting.LocalFont.Options
import FontHosting.LogLevel
import FontHosting.Manifest
import FontHosting.Manifest.Script
import FontHosting.Proofs.Asset
import FontHosting.Proofs.Config.Environment
import FontHosting.Proofs.Config.Layer
import FontHosting.Proofs.Config.Merging
import FontHosting.Proofs.Config.Priority
import FontHosting.Proofs.Css.Families
import FontHosting.Proofs.Css.Places
import FontHosting.Proofs.Css.Renaming
import FontHosting.Proofs.Css.Rescanning
import FontHosting.Proofs.FontCall.Application
import FontHosting.Proofs.FontCall.Arguments
import FontHosting.Proofs.FontCall.Bound
import FontHosting.Proofs.FontCall.Collecting
import FontHosting.Proofs.FontCall.Deletion
import FontHosting.Proofs.FontCall.Finding
import FontHosting.Proofs.FontCall.Generated
import FontHosting.Proofs.FontCall.Layout
import FontHosting.Proofs.FontCall.Literal
import FontHosting.Proofs.FontCall.Names
import FontHosting.Proofs.FontCall.Plan
import FontHosting.Proofs.FontCall.Replacing
import FontHosting.Proofs.FontCall.Rereading
import FontHosting.Proofs.FontCall.Specifier
import FontHosting.Proofs.FontCall.Usage
import FontHosting.Proofs.FontCall.Wording
import FontHosting.Proofs.Google.Comparison
import FontHosting.Proofs.Google.Files
import FontHosting.Proofs.Google.Options
import FontHosting.Proofs.Google.Reordering
import FontHosting.Proofs.Google.Rewriting
import FontHosting.Proofs.Google.Sorting
import FontHosting.Proofs.Google.Variants
import FontHosting.Proofs.Json.Document
import FontHosting.Proofs.Json.Token
import FontHosting.Proofs.Loader.Cache
import FontHosting.Proofs.Loader.Composition
import FontHosting.Proofs.Loader.Determined
import FontHosting.Proofs.Loader.Effects
import FontHosting.Proofs.Loader.Emission
import FontHosting.Proofs.Loader.Extension
import FontHosting.Proofs.Loader.Hosting
import FontHosting.Proofs.Manifest
import FontHosting.Proofs.Script.Composition
import FontHosting.Proofs.Script.Extent
import FontHosting.Proofs.Script.Grammar.Expressions
import FontHosting.Proofs.Script.Grammar.Order
import FontHosting.Proofs.Script.Grammar.Statements
import FontHosting.Proofs.Script.Grammar.Types
import FontHosting.Proofs.Script.Name
import FontHosting.Proofs.Script.Occurrence
import FontHosting.Proofs.Script.Order
import FontHosting.Proofs.Script.Pieces
import FontHosting.Proofs.Script.Place
import FontHosting.Proofs.Script.Run
import FontHosting.Proofs.Script.Spelling
import FontHosting.Proofs.Script.Start
import FontHosting.Proofs.Script.Wording
import FontHosting.Proofs.Server
import FontHosting.Proofs.Session.Booking
import FontHosting.Proofs.Session.Caching
import FontHosting.Proofs.Session.Completion
import FontHosting.Proofs.Session.Discarding
import FontHosting.Proofs.Session.Exactness
import FontHosting.Proofs.Session.Failure
import FontHosting.Proofs.Session.Filing
import FontHosting.Proofs.Session.Freshness
import FontHosting.Proofs.Session.Gathering
import FontHosting.Proofs.Session.Imports
import FontHosting.Proofs.Session.Interleaving
import FontHosting.Proofs.Session.Isolation
import FontHosting.Proofs.Session.Landing
import FontHosting.Proofs.Session.Naming
import FontHosting.Proofs.Session.Opening
import FontHosting.Proofs.Session.Operation
import FontHosting.Proofs.Session.Order
import FontHosting.Proofs.Session.Preloading
import FontHosting.Proofs.Session.Reference
import FontHosting.Proofs.Session.Repetition
import FontHosting.Proofs.Session.Retraction
import FontHosting.Proofs.Session.Serving
import FontHosting.Proofs.Session.Traces
import FontHosting.Proofs.Stylesheet.Collection
import FontHosting.Proofs.Stylesheet.Determined
import FontHosting.Proofs.Stylesheet.Key
import FontHosting.Proofs.Stylesheet.Name
import FontHosting.Proofs.Stylesheet.Scope
import FontHosting.Proofs.Stylesheet.Sharing
import FontHosting.Proofs.Stylesheet.Spelling
import FontHosting.Proofs.Table
import FontHosting.Proofs.Text.Percent
import FontHosting.Proofs.Text.Utf8
import FontHosting.Proofs.Url
import FontHosting.Proofs.Watch.Ignored
import FontHosting.Script.Characters
import FontHosting.Script.Grammar.Expressions
import FontHosting.Script.Grammar.Functions
import FontHosting.Script.Grammar.Markup
import FontHosting.Script.Grammar.Modules
import FontHosting.Script.Grammar.Statements
import FontHosting.Script.Grammar.Targets
import FontHosting.Script.Grammar.Types
import FontHosting.Script.Language
import FontHosting.Script.Lexer
import FontHosting.Script.Node
import FontHosting.Script.Parser
import FontHosting.Script.Rules
import FontHosting.Script.Token
import FontHosting.Server
import FontHosting.Session.Basic
import FontHosting.Session.Chunk
import FontHosting.Session.Importing
import FontHosting.Session.Invalidation
import FontHosting.Session.Loading
import FontHosting.Session.Retraction
import FontHosting.Stylesheet.Collection
import FontHosting.Stylesheet.Id
import FontHosting.Stylesheet.Module
import FontHosting.Table
import FontHosting.Text.Blank
import FontHosting.Text.Escaped
import FontHosting.Text.Hex
import FontHosting.Text.LowerCase
import FontHosting.Text.Path
import FontHosting.Text.Percent
import FontHosting.Text.Search
import FontHosting.Text.Utf8
import FontHosting.Toml.Quoted
import FontHosting.Toml.Reader
import FontHosting.Toml.Tree
import FontHosting.Toml.Value
import FontHosting.Url
import FontHosting.Watch.Change
import FontHosting.Watch.Ignored
