import PluginForge.Archive.Basic
import PluginForge.Archive.Checksum
import PluginForge.Archive.Zip
import PluginForge.Build.Assembly
import PluginForge.Build.Deferred
import PluginForge.Build.Layout
import PluginForge.Build.Program
import PluginForge.Build.SupportLibrary
import PluginForge.Build.Tool
import PluginForge.Build.Toolchain
import PluginForge.Build.Workshop
import PluginForge.Callback.Fault
import PluginForge.Callback.Handler
import PluginForge.Callback.Literal
import PluginForge.Callback.Parameters
import PluginForge.Callback.Statement
import PluginForge.Callback.TypeTag
import PluginForge.CommandLine.Reach
import PluginForge.CommandLine.Request
import PluginForge.CommandLine.Session
import PluginForge.Config.Basic
import PluginForge.Config.Lookup
import PluginForge.Config.Reader
import PluginForge.Config.Writer
import PluginForge.Decimal.Shortest
import PluginForge.Failure
import PluginForge.Files.Access
import PluginForge.Files.Action
import PluginForge.Files.Change
import PluginForge.Files.Error
import PluginForge.Files.Path
import PluginForge.Files.Tree
import PluginForge.Guard.Injection
import PluginForge.Guard.Local
import PluginForge.Guard.Occurrence
import PluginForge.Guard.Registry
import PluginForge.Java.Identifier
import PluginForge.Java.Source
import PluginForge.Java.StringLiteral
import PluginForge.Java.Types
import PluginForge.Json.Cursor
import PluginForge.Json.Fault
import PluginForge.Json.Number.Basic
import PluginForge.Json.Number.Reader
import PluginForge.Json.Quoted
import PluginForge.Json.Reader
import PluginForge.Json.Record
import PluginForge.Json.Skip
import PluginForge.Json.Value
import PluginForge.KeyOrder
import PluginForge.Main
import PluginForge.Plugin.Basic
import PluginForge.Plugin.BuildManifest
import PluginForge.Plugin.Command
import PluginForge.Plugin.CommandClass
import PluginForge.Plugin.Descriptor
import PluginForge.Plugin.EntryPoint
import PluginForge.Plugin.Manifest
import PluginForge.Plugin.Project
import PluginForge.Report
import PluginForge.Table
import PluginForge.Text.Basic
import PluginForge.Text.Pictured
import PluginForge.Text.Quoted
import PluginForge.Text.Utf8
import PluginForge.Yaml.Mapping
import PluginForge.Yaml.Resolution
import PluginForge.Yaml.Scalar
import PluginForge.Proofs.Action
import PluginForge.Proofs.Archive.Names
import PluginForge.Proofs.Archive.Zip
import PluginForge.Proofs.Build.Obstacles
import PluginForge.Proofs.Build.Registered
import PluginForge.Proofs.Build.System
import PluginForge.Proofs.Build.Sources
import PluginForge.Proofs.Callback.Body
import PluginForge.Proofs.Callback.Breaks
import PluginForge.Proofs.Callback.Lines
import PluginForge.Proofs.Files.Below
import PluginForge.Proofs.Files.Frame
import PluginForge.Proofs.Files.Path
import PluginForge.Proofs.Files.Writes
import PluginForge.Proofs.Guard.Freshness
import PluginForge.Proofs.Guard.Injection
import PluginForge.Proofs.Guard.Renaming
import PluginForge.Proofs.Guard.Stacking
import PluginForge.Proofs.Guard.Words
import PluginForge.Proofs.Plugin.Command
import PluginForge.Proofs.Plugin.EntryPoint
import PluginForge.Proofs.Plugin.Places
import PluginForge.Proofs.Plugin.Registration
import PluginForge.Proofs.Text.Basic
import PluginForge.Proofs.Plugin.Failure
import PluginForge.Proofs.Plugin.GuardLocal
import PluginForge.Proofs.Yaml.Margins
import PluginForge.Proofs.Manifest.Entry
import PluginForge.Proofs.Manifest.File
import PluginForge.Proofs.Manifest.History
import PluginForge.Proofs.Files.Changes
import PluginForge.Proofs.Build.Library
import PluginForge.Proofs.Build.Stages
import PluginForge.Proofs.Build.Result
import PluginForge.Proofs.Table
import PluginForge.Proofs.Json.Spelling
import PluginForge.Proofs.Json.Reading
import PluginForge.Proofs.Json.Records
import PluginForge.Proofs.Documents
import PluginForge.Proofs.Build.Keeps
import PluginForge.Proofs.Build.Flag
import PluginForge.Proofs.Build.Deferred
import PluginForge.Proofs.Files.Kept
import PluginForge.Proofs.Build.Cache
import PluginForge.Proofs.Plugin.Registrations
import PluginForge.Proofs.Build.TwoRuns
import PluginForge.Proofs.Build.Leftovers
import PluginForge.Proofs.Build.SourcePaths
import PluginForge.Proofs.Java.Lines
import PluginForge.Proofs.CommandLine.Preview
import PluginForge.Proofs.Build.Collision
import PluginForge.Proofs.Build.Overlap
import PluginForge.Proofs.Text.Trimming
import PluginForge.Proofs.Json.Quotes
import PluginForge.Proofs.Callback.Declaration
import PluginForge.Proofs.Build.Unfinished
import PluginForge.Proofs.Plugin.CommandSteps
import PluginForge.Proofs.Plugin.CommandNames
import PluginForge.Proofs.Text.Units
import PluginForge.Proofs.Json.Strings
import PluginForge.Proofs.Java.Constants
import PluginForge.Proofs.Java.JsonStrings
import PluginForge.Proofs.Json.Integers
import PluginForge.Proofs.Json.Parts
import PluginForge.Proofs.Java.Integers
import PluginForge.Proofs.Callback.Literals
import PluginForge.Proofs.Callback.Initializer
import PluginForge.Proofs.Callback.IntegerDeclaration
import PluginForge.Proofs.Callback.ArrayLine
import PluginForge.Proofs.Callback.StringArrays
import PluginForge.Proofs.Callback.ListType
import PluginForge.Proofs.Callback.FaultLines
import PluginForge.Proofs.Java.StringLiterals
import PluginForge.Proofs.Guard.Literals
import PluginForge.Proofs.Text.Replacing
import PluginForge.Proofs.Text.Lines
import PluginForge.Proofs.Callback.Tags
import PluginForge.Proofs.Json.Numerals
import PluginForge.Proofs.Callback.LineEnds
import PluginForge.Proofs.Callback.BehindValue
import PluginForge.Proofs.Callback.Terminators
import PluginForge.Proofs.Callback.DeclaredValues
import PluginForge.Proofs.Callback.Rereading
import PluginForge.Proofs.Callback.Signature
import PluginForge.Proofs.Plugin.Imports
import PluginForge.Proofs.Config.Lookup
import PluginForge.Proofs.Json.Grammar
import PluginForge.Proofs.Json.Forms
import PluginForge.Proofs.Json.AnyOrder
import PluginForge.Proofs.Config.Overlay
import PluginForge.Proofs.Archive.Unpacking
import PluginForge.Proofs.Files.Extensions
import PluginForge.Proofs.Build.Supply
import PluginForge.Proofs.Text.Slices
import PluginForge.Proofs.Guard.Tokens
import PluginForge.Proofs.Guard.Search
import PluginForge.Proofs.Text.Scanning
import PluginForge.Proofs.Plugin.GuardTypes
