import Relock.Cli.Arguments
import Relock.Cli.Command
import Relock.Config
import Relock.Convert.Aloud
import Relock.Convert.Conversion
import Relock.Convert.Error
import Relock.Digest
import Relock.Fault
import Relock.Files.Basic
import Relock.Files.Generated
import Relock.Files.Path
import Relock.Git.Provider
import Relock.Git.Refs
import Relock.Git.Repository
import Relock.Import
import Relock.Inputs
import Relock.Json.Fields
import Relock.Json.Reader
import Relock.Json.Token
import Relock.Json.Value
import Relock.Lock
import Relock.LockFile
import Relock.Main
import Relock.Manifest
import Relock.ManifestFile
import Relock.Metadata.Glide
import Relock.Metadata.Godep
import Relock.Metadata.Tool
import Relock.Metadata.Vndr
import Relock.Proofs.Config
import Relock.Proofs.Convert.Accounting
import Relock.Proofs.Convert.Books
import Relock.Proofs.Convert.Error
import Relock.Proofs.Convert.Ignoring
import Relock.Proofs.Convert.Isolation
import Relock.Proofs.Convert.Items
import Relock.Proofs.Convert.Journal
import Relock.Proofs.Convert.LeftOut
import Relock.Proofs.Convert.Listings
import Relock.Proofs.Convert.Order
import Relock.Proofs.Convert.Refusal
import Relock.Proofs.Convert.Reload
import Relock.Proofs.Convert.Verbosity
import Relock.Proofs.Entries
import Relock.Proofs.Files
import Relock.Proofs.Files.Generated
import Relock.Proofs.FirstSeen
import Relock.Proofs.Git.Provider
import Relock.Proofs.Git.Refs
import Relock.Proofs.Import
import Relock.Proofs.Import.Preservation
import Relock.Proofs.Import.Reload
import Relock.Proofs.Inputs
import Relock.Proofs.Json
import Relock.Proofs.Lock
import Relock.Proofs.LockFile
import Relock.Proofs.LockFile.Normal
import Relock.Proofs.LockFile.Rules
import Relock.Proofs.Manifest
import Relock.Proofs.ManifestFile
import Relock.Proofs.ManifestFile.Rules
import Relock.Proofs.Metadata.Glide
import Relock.Proofs.Metadata.Vndr
import Relock.Proofs.Record
import Relock.Proofs.Resolve.Abbreviation
import Relock.Proofs.Resolve.Choice
import Relock.Proofs.Resolve.Described
import Relock.Proofs.Resolve.Listing
import Relock.Proofs.Resolve.Selection
import Relock.Proofs.Root.Coherence
import Relock.Proofs.Root.Containment
import Relock.Proofs.Root.Convention
import Relock.Proofs.Root.Deduction
import Relock.Proofs.Root.Memory
import Relock.Proofs.Root.Nesting
import Relock.Proofs.Root.Packages
import Relock.Proofs.Root.Probing
import Relock.Proofs.Root.Segments
import Relock.Proofs.SortedMap
import Relock.Proofs.Source.Agreement
import Relock.Proofs.Source.Steady
import Relock.Proofs.Text.Blank
import Relock.Proofs.Text.Bytes
import Relock.Proofs.Text.Words
import Relock.Proofs.Toml.Document
import Relock.Proofs.Toml.Layout
import Relock.Proofs.Toml.Quoted
import Relock.Proofs.Version.Label
import Relock.Proofs.Version.Order
import Relock.Proofs.Version.Range
import Relock.Proofs.Version.Semver
import Relock.Proofs.Version.Sorted
import Relock.Record
import Relock.Report.Console
import Relock.Report.Diagnostic
import Relock.Report.Notice
import Relock.Report.Screen
import Relock.Report.Shell
import Relock.Resolve.Choice
import Relock.Resolve.Error
import Relock.Root.Basic
import Relock.Root.Convention
import Relock.Root.Deduction
import Relock.SortedMap
import Relock.Source.Provider
import Relock.Text.Blank
import Relock.Text.Digit
import Relock.Toml.Document
import Relock.Toml.Layout
import Relock.Toml.Number
import Relock.Toml.Quoted
import Relock.Toml.Statement
import Relock.Toml.Value
import Relock.Url.Address
import Relock.Url.Basic
import Relock.Url.Domain
import Relock.Url.Percent
import Relock.Url.Punycode
import Relock.Version.Basic
import Relock.Version.Label
import Relock.Version.Order
import Relock.Version.Range
import Relock.Version.Semver
import Relock.Workspace
import Relock.Yaml.Cursor
import Relock.Yaml.Fields
import Relock.Yaml.Node
import Relock.Yaml.Scalar
import Relock.Yaml.Scan
import Relock.Yaml.Token
