import CiWorkflow.Advice
import CiWorkflow.Cli.Arguments
import CiWorkflow.Cli.Invocation
import CiWorkflow.Cli.JsonValue
import CiWorkflow.Cli.Listing
import CiWorkflow.Cli.Session
import CiWorkflow.Cli.Style
import CiWorkflow.Cli.Usage
import CiWorkflow.Config.Expansion
import CiWorkflow.Config.Loading
import CiWorkflow.Config.Settings
import CiWorkflow.Digest.Sha256
import CiWorkflow.Failure
import CiWorkflow.Files.Host
import CiWorkflow.Files.Path
import CiWorkflow.Files.Project
import CiWorkflow.Files.Tree
import CiWorkflow.Interface
import CiWorkflow.Main
import CiWorkflow.NamedCache
import CiWorkflow.Outline.Arguments
import CiWorkflow.Outline.Basic
import CiWorkflow.Outline.Summary
import CiWorkflow.Proofs.Reference.Key
import CiWorkflow.Proofs.Resolution.Backing
import CiWorkflow.Proofs.Resolution.Effect
import CiWorkflow.Proofs.Resolution.Finding
import CiWorkflow.Proofs.Resolution.Handles
import CiWorkflow.Proofs.Resolution.InFlight
import CiWorkflow.Proofs.Resolution.Invariant
import CiWorkflow.Proofs.Resolution.Program
import CiWorkflow.Proofs.Resolution.Run
import CiWorkflow.Reference.Basic
import CiWorkflow.Reference.Key
import CiWorkflow.Reference.Location
import CiWorkflow.Resolution.Cache
import CiWorkflow.Resolution.ContentStore
import CiWorkflow.Resolution.Entry
import CiWorkflow.Resolution.Resolve
import CiWorkflow.Text.Alphanumeric
import CiWorkflow.Text.Ascii
import CiWorkflow.Text.Blank
import CiWorkflow.Text.BlockScalar
import CiWorkflow.Text.Lines
import CiWorkflow.Text.Quotes
import CiWorkflow.Text.Slice
import CiWorkflow.Text.Sorted
import CiWorkflow.Text.Span
import CiWorkflow.Time.Calendar
import CiWorkflow.Time.Instant
import CiWorkflow.Time.Timestamp
import CiWorkflow.Toml.Document
import CiWorkflow.Toml.Quoted
import CiWorkflow.Toml.Range
import CiWorkflow.Toml.Scalar
import CiWorkflow.Toml.Tree
import CiWorkflow.Toml.Value
import CiWorkflow.Tree.Document
import CiWorkflow.Tree.Element
import CiWorkflow.Tree.Fields
import CiWorkflow.Tree.Navigation
import CiWorkflow.Tree.OfConcrete
import CiWorkflow.Tree.Reading
import CiWorkflow.Tree.Workflow
import CiWorkflow.Yaml.Block
import CiWorkflow.Yaml.ConcreteTree
import CiWorkflow.Yaml.Cursor
import CiWorkflow.Yaml.Flow
import CiWorkflow.Yaml.Graph
import CiWorkflow.Yaml.Lexeme
import CiWorkflow.Yaml.Stream
import CiWorkflow.Yaml.Token.Basic
import CiWorkflow.Yaml.Token.Mark
import CiWorkflow.Yaml.Token.Queue
import CiWorkflow.Yaml.Token.Scalar
import CiWorkflow.Yaml.Value
import CiWorkflow.Proofs.Resolution.Separation
import CiWorkflow.Proofs.Resolution.Gate
import CiWorkflow.Proofs.Resolution.Identity
import CiWorkflow.Proofs.Resolution.Retries
import CiWorkflow.Proofs.Resolution.Damage
import CiWorkflow.Proofs.Resolution.Mirror
import CiWorkflow.Proofs.Resolution.Batch
import CiWorkflow.Proofs.Resolution.Transparency
import CiWorkflow.Proofs.Tree.Arena
import CiWorkflow.Proofs.Tree.Preorder
import CiWorkflow.Proofs.Reference.Grammar
import CiWorkflow.Proofs.Resolution.Interleaving
import CiWorkflow.Proofs.Resolution.Order
import CiWorkflow.Proofs.Resolution.Provenance
import CiWorkflow.Proofs.Resolution.Staleness
import CiWorkflow.Proofs.Resolution.Lifecycle
import CiWorkflow.Proofs.Tree.Sequences
import CiWorkflow.Proofs.Resolution.Asking
import CiWorkflow.Proofs.Resolution.Deletion
import CiWorkflow.Proofs.Resolution.Attempt
import CiWorkflow.Proofs.Outline.Parameters
import CiWorkflow.Proofs.Outline.Entries
import CiWorkflow.Proofs.Outline.Arguments
import CiWorkflow.Proofs.Tree.Depth
import CiWorkflow.Proofs.Tree.Innermost
import CiWorkflow.Proofs.Files.Fetching
import CiWorkflow.Proofs.Cli.Directory
import CiWorkflow.Proofs.Reference.Version
import CiWorkflow.Proofs.Resolution.Freshness
import CiWorkflow.Proofs.Text.Folding
import CiWorkflow.Proofs.Text.Keeping
import CiWorkflow.Proofs.Config.Saving
