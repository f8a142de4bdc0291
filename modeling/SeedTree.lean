import SeedTree.Bytes
import SeedTree.Bytes.Dump
import SeedTree.Bytes.Utf8
import SeedTree.Bytes.Words
import SeedTree.Children
import SeedTree.Command
import SeedTree.Command.Help
import SeedTree.Command.Output
import SeedTree.Command.Reading
import SeedTree.Command.Running
import SeedTree.Command.Usage
import SeedTree.Config
import SeedTree.Config.Layers
import SeedTree.Config.Loading
import SeedTree.Config.Reading
import SeedTree.Content
import SeedTree.Digest.Basic
import SeedTree.Digest.Blake3
import SeedTree.Digest.Sha256
import SeedTree.Digest.Words16
import SeedTree.Disk
import SeedTree.Document
import SeedTree.Document.Ini
import SeedTree.Document.Json
import SeedTree.Document.Json.Pretty
import SeedTree.Document.Json5
import SeedTree.Document.Ron
import SeedTree.Document.Toml
import SeedTree.Document.Value
import SeedTree.Document.Yaml
import SeedTree.Engine
import SeedTree.Engine.Materializer
import SeedTree.Engine.Program
import SeedTree.Engine.Run
import SeedTree.Environment
import SeedTree.Failure
import SeedTree.Launch
import SeedTree.Lock
import SeedTree.Log.Event
import SeedTree.Log.Filter
import SeedTree.Log.Line
import SeedTree.Log.Logger
import SeedTree.Log.Settings
import SeedTree.Main
import SeedTree.Moment
import SeedTree.Node
import SeedTree.Node.Record
import SeedTree.Number.Binary64
import SeedTree.Number.Decimal
import SeedTree.Number.Power
import SeedTree.Number.Shortest
import SeedTree.Parameters
import SeedTree.Path
import SeedTree.Proofs.Agreement
import SeedTree.Proofs.Aiming
import SeedTree.Proofs.Blueprint
import SeedTree.Proofs.Branches
import SeedTree.Proofs.Browsing
import SeedTree.Proofs.Bytes.Dump
import SeedTree.Proofs.Bytes.Hex
import SeedTree.Proofs.Bytes.Utf8
import SeedTree.Proofs.Bytes.Words
import SeedTree.Proofs.Checksums
import SeedTree.Proofs.Children
import SeedTree.Proofs.Children.Ending
import SeedTree.Proofs.Children.Listing
import SeedTree.Proofs.Children.Names
import SeedTree.Proofs.Children.Room
import SeedTree.Proofs.Coherence
import SeedTree.Proofs.Comparison
import SeedTree.Proofs.Config.Integers
import SeedTree.Proofs.Config.Layers
import SeedTree.Proofs.Config.Loading
import SeedTree.Proofs.Config.Overriding
import SeedTree.Proofs.Config.Restoring
import SeedTree.Proofs.Coupling
import SeedTree.Proofs.Creation
import SeedTree.Proofs.Crowd
import SeedTree.Proofs.Deletion
import SeedTree.Proofs.Emptiness
import SeedTree.Proofs.Engine.Aging
import SeedTree.Proofs.Engine.Alone
import SeedTree.Proofs.Engine.Answering
import SeedTree.Proofs.Engine.Attested
import SeedTree.Proofs.Engine.Barred
import SeedTree.Proofs.Engine.Blame
import SeedTree.Proofs.Engine.Chain
import SeedTree.Proofs.Engine.Chronicle
import SeedTree.Proofs.Engine.Contest
import SeedTree.Proofs.Engine.Ends
import SeedTree.Proofs.Engine.Entering
import SeedTree.Proofs.Engine.Footprint
import SeedTree.Proofs.Engine.Footsteps
import SeedTree.Proofs.Engine.Foresight
import SeedTree.Proofs.Engine.Foretold
import SeedTree.Proofs.Engine.Growth
import SeedTree.Proofs.Engine.Handmade
import SeedTree.Proofs.Engine.Looking
import SeedTree.Proofs.Engine.LookingOperations
import SeedTree.Proofs.Engine.Making
import SeedTree.Proofs.Engine.Move
import SeedTree.Proofs.Engine.Offspring
import SeedTree.Proofs.Engine.Operation
import SeedTree.Proofs.Engine.PairedWalks
import SeedTree.Proofs.Engine.Pairs
import SeedTree.Proofs.Engine.Picture
import SeedTree.Proofs.Engine.Reading
import SeedTree.Proofs.Engine.Relisting
import SeedTree.Proofs.Engine.Rule
import SeedTree.Proofs.Engine.Settling
import SeedTree.Proofs.Engine.SharedOperations
import SeedTree.Proofs.Engine.Sharing
import SeedTree.Proofs.Engine.Starting
import SeedTree.Proofs.Engine.View
import SeedTree.Proofs.Engine.Vying
import SeedTree.Proofs.Engine.VyingOperations
import SeedTree.Proofs.Engine.Walks
import SeedTree.Proofs.Excerpt
import SeedTree.Proofs.FolderChain
import SeedTree.Proofs.Frame
import SeedTree.Proofs.Hiding
import SeedTree.Proofs.LateWorld
import SeedTree.Proofs.Laziness
import SeedTree.Proofs.Lifetime
import SeedTree.Proofs.Lock.Sections
import SeedTree.Proofs.Log.Governing
import SeedTree.Proofs.Log.Spelling
import SeedTree.Proofs.Maps
import SeedTree.Proofs.Moment
import SeedTree.Proofs.Node.Codec
import SeedTree.Proofs.Node.Record
import SeedTree.Proofs.Node.Shape
import SeedTree.Proofs.Openings
import SeedTree.Proofs.Outline
import SeedTree.Proofs.Path
import SeedTree.Proofs.Path.DepthFirst
import SeedTree.Proofs.Path.Normalizing
import SeedTree.Proofs.Progress
import SeedTree.Proofs.Provenance
import SeedTree.Proofs.Race
import SeedTree.Proofs.Roster
import SeedTree.Proofs.Scene
import SeedTree.Proofs.SeedSettings
import SeedTree.Proofs.Serving
import SeedTree.Proofs.Session
import SeedTree.Proofs.Sketching
import SeedTree.Proofs.Store.Atlas
import SeedTree.Proofs.Store.Calls
import SeedTree.Proofs.Store.Lawful
import SeedTree.Proofs.Store.Pruning
import SeedTree.Proofs.Store.Replay
import SeedTree.Proofs.Store.Traffic
import SeedTree.Proofs.Store.View
import SeedTree.Proofs.Store.WellFormed
import SeedTree.Proofs.Stream.Messages
import SeedTree.Proofs.Stream.Rejection
import SeedTree.Proofs.Stream.Uniform
import SeedTree.Proofs.Text.Letters
import SeedTree.Proofs.Text.Lowercase
import SeedTree.Proofs.Transparency
import SeedTree.Proofs.Undoing
import SeedTree.Proofs.Unfolding
import SeedTree.Proofs.Usable
import SeedTree.Proofs.WorldNames
import SeedTree.Store
import SeedTree.Store.Fault
import SeedTree.Store.Image
import SeedTree.Stream.ChaCha
import SeedTree.Stream.Derivation
import SeedTree.Stream.Draw
import SeedTree.Text
import SeedTree.Text.Blank
import SeedTree.Text.Lowercase
import SeedTree.Text.Lowercase.Ranges
import SeedTree.Text.Quoted
import SeedTree.Text.Quoted.Escaped
import SeedTree.Text.Ranges
import SeedTree.Text.Table
import SeedTree.Text.Width
import SeedTree.Text.Width.Ranges
import SeedTree.World
