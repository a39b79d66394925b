import StackSynth.App
import StackSynth.Artifact
import StackSynth.Asset
import StackSynth.AssetType
import StackSynth.Aws
import StackSynth.Bytes
import StackSynth.Bytes.Utf8
import StackSynth.CommandLine
import StackSynth.CommandLine.Arguments
import StackSynth.Configuration
import StackSynth.ConstructId
import StackSynth.ContentHash
import StackSynth.Decimal.Binary64
import StackSynth.Decimal.Shortest
import StackSynth.Deflate.Bits
import StackSynth.Deflate.Code
import StackSynth.Deflate.Lengths
import StackSynth.Deflate.Parse
import StackSynth.Deflate.Reader
import StackSynth.Deflate.Stored
import StackSynth.Deflate.Token
import StackSynth.Deflate.Writer
import StackSynth.Dictionary
import StackSynth.Digest
import StackSynth.Disk
import StackSynth.EditDistance
import StackSynth.Event
import StackSynth.Expression
import StackSynth.Failure
import StackSynth.FileSystem
import StackSynth.FileSystem.Change
import StackSynth.FileSystem.Fault
import StackSynth.FileSystem.Query
import StackSynth.FileSystem.Resolve
import StackSynth.Glob
import StackSynth.Glob.Lookup
import StackSynth.Glob.Parser
import StackSynth.Glob.Regular
import StackSynth.Gzip
import StackSynth.Handle
import StackSynth.IgnoreFile
import StackSynth.Json
import StackSynth.Json.Outline
import StackSynth.Json.Parser
import StackSynth.Json.Printer
import StackSynth.Listing
import StackSynth.LogFilter
import StackSynth.LogFilter.Pattern
import StackSynth.Main
import StackSynth.Manifest
import StackSynth.Member
import StackSynth.Mismatch
import StackSynth.ModuleCall
import StackSynth.Name
import StackSynth.Nesting
import StackSynth.Output
import StackSynth.Packaging
import StackSynth.Path
import StackSynth.Placeholder
import StackSynth.Plan
import StackSynth.Proofs.Action
import StackSynth.Proofs.Addressing
import StackSynth.Proofs.Advance
import StackSynth.Proofs.Ancestors
import StackSynth.Proofs.Artifact
import StackSynth.Proofs.Building
import StackSynth.Proofs.Change
import StackSynth.Proofs.Configuring
import StackSynth.Proofs.Construction
import StackSynth.Proofs.Consuming
import StackSynth.Proofs.Copying
import StackSynth.Proofs.CreateAll
import StackSynth.Proofs.Declaring
import StackSynth.Proofs.Deployment
import StackSynth.Proofs.Dictionary
import StackSynth.Proofs.Digesting
import StackSynth.Proofs.Display
import StackSynth.Proofs.EditDistance
import StackSynth.Proofs.Encoding
import StackSynth.Proofs.Exactness
import StackSynth.Proofs.Faithful
import StackSynth.Proofs.FileSystem
import StackSynth.Proofs.Filing
import StackSynth.Proofs.Footing
import StackSynth.Proofs.Frame
import StackSynth.Proofs.Gzip
import StackSynth.Proofs.Hashing
import StackSynth.Proofs.Identity
import StackSynth.Proofs.Ignoring
import StackSynth.Proofs.Leading
import StackSynth.Proofs.Limits
import StackSynth.Proofs.Listing
import StackSynth.Proofs.Locating
import StackSynth.Proofs.Looking
import StackSynth.Proofs.Members
import StackSynth.Proofs.Moving
import StackSynth.Proofs.Noting
import StackSynth.Proofs.Obstacles
import StackSynth.Proofs.Outlining
import StackSynth.Proofs.Parsing
import StackSynth.Proofs.Path
import StackSynth.Proofs.Payload
import StackSynth.Proofs.Places
import StackSynth.Proofs.Placing
import StackSynth.Proofs.Planning
import StackSynth.Proofs.Pointing
import StackSynth.Proofs.Pruning
import StackSynth.Proofs.ReadBack
import StackSynth.Proofs.Reading
import StackSynth.Proofs.Recording
import StackSynth.Proofs.Referring
import StackSynth.Proofs.Refiling
import StackSynth.Proofs.Registering
import StackSynth.Proofs.Relisting
import StackSynth.Proofs.Rendering
import StackSynth.Proofs.Repackaging
import StackSynth.Proofs.Replacing
import StackSynth.Proofs.Requiring
import StackSynth.Proofs.Resolve
import StackSynth.Proofs.Resynthesis
import StackSynth.Proofs.Session
import StackSynth.Proofs.Setting
import StackSynth.Proofs.Settling
import StackSynth.Proofs.SharedStaging
import StackSynth.Proofs.Showing
import StackSynth.Proofs.Sources
import StackSynth.Proofs.Sparing
import StackSynth.Proofs.Staging
import StackSynth.Proofs.Straight
import StackSynth.Proofs.Streaming
import StackSynth.Proofs.Substituting
import StackSynth.Proofs.Superseding
import StackSynth.Proofs.Tar
import StackSynth.Proofs.Telling
import StackSynth.Proofs.Untouched
import StackSynth.Proofs.Unwinding
import StackSynth.Proofs.Utf8
import StackSynth.Proofs.Verifying
import StackSynth.Proofs.Viewing
import StackSynth.Proofs.VisibleTree
import StackSynth.Proofs.Warning
import StackSynth.Proofs.Writing
import StackSynth.Provider
import StackSynth.Record
import StackSynth.Resource
import StackSynth.Sha256
import StackSynth.Stack
import StackSynth.StackFile
import StackSynth.Synthesis
import StackSynth.Tar
import StackSynth.Text
import StackSynth.Text.Alphanumeric
import StackSynth.Text.Hidden
import StackSynth.Text.Ranges
import StackSynth.Toml
import StackSynth.Toml.DateTime
import StackSynth.Toml.Document
import StackSynth.Toml.Number
import StackSynth.Toml.Parser
import StackSynth.Toml.Value
import StackSynth.Warning
