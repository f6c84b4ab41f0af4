import AttrChain.Calendar
import AttrChain.Chain.Basic
import AttrChain.Chain.Context
import AttrChain.Chain.Host
import AttrChain.Chain.Run
import AttrChain.Cli.Arguments
import AttrChain.Cli.Response
import AttrChain.Complaint
import AttrChain.Decimal.Nearest
import AttrChain.Decimal.Reader
import AttrChain.Decimal.Shortest
import AttrChain.Decimal.Style
import AttrChain.Descriptor.Basic
import AttrChain.Descriptor.Reader
import AttrChain.Descriptor.Refine
import AttrChain.Dict
import AttrChain.Document.Node
import AttrChain.Document.Tree
import AttrChain.Error
import AttrChain.Filter.Basic
import AttrChain.Filter.Eval
import AttrChain.Filter.Reader
import AttrChain.Instruction.Basic
import AttrChain.Instruction.Table
import AttrChain.Json.Basic
import AttrChain.Json.Fields
import AttrChain.Json.Number
import AttrChain.Json.Printer
import AttrChain.Json.Reader
import AttrChain.Kit.Basic
import AttrChain.Kit.Change
import AttrChain.Kit.Compute
import AttrChain.Kit.Control
import AttrChain.Kit.Host
import AttrChain.Literal.Basic
import AttrChain.Literal.Reader
import AttrChain.Log
import AttrChain.Main
import AttrChain.NodeId
import AttrChain.Rejection
import AttrChain.Scene.Basic
import AttrChain.Scene.File
import AttrChain.Scene.Json
import AttrChain.Scene.Report
import AttrChain.Scene.Session
import AttrChain.Scene.Validity
import AttrChain.Selector.Basic
import AttrChain.Selector.Printer
import AttrChain.Selector.Reader
import AttrChain.Settings
import AttrChain.Split
import AttrChain.Stack
import AttrChain.Stage.Basic
import AttrChain.Stage.Build
import AttrChain.Stage.Dispatch
import AttrChain.Stage.Fire
import AttrChain.Text.Blank
import AttrChain.Text.Cut
import AttrChain.Text.Digit
import AttrChain.Text.Hidden
import AttrChain.Text.Letter
import AttrChain.Text.Mark
import AttrChain.Text.Numeral
import AttrChain.Text.Quoted
import AttrChain.Text.Ranges
import AttrChain.Text.Recent
import AttrChain.Text.Word
import AttrChain.Toml.Blank
import AttrChain.Toml.DateTime
import AttrChain.Toml.Document
import AttrChain.Toml.Number
import AttrChain.Toml.Text
import AttrChain.Toml.Tree
import AttrChain.Toml.Value
import AttrChain.Value.Basic
import AttrChain.Value.Json
import AttrChain.Value.Text
import AttrChain.Value.View
import AttrChain.Proofs.Results
import AttrChain.Proofs.Links
import AttrChain.Proofs.Backstage
import AttrChain.Proofs.Cuts
import AttrChain.Proofs.Course
import AttrChain.Proofs.Order
import AttrChain.Proofs.Pruning
import AttrChain.Proofs.Independence
import AttrChain.Proofs.Unlinking
import AttrChain.Proofs.Instants
import AttrChain.Proofs.Deferral
import AttrChain.Proofs.Transparency
import AttrChain.Proofs.LateUpdate
import AttrChain.Proofs.Characters
import AttrChain.Proofs.Numerals
import AttrChain.Proofs.Segments
import AttrChain.Proofs.Spans
import AttrChain.Filter.Printer
import AttrChain.Proofs.Precedence
import AttrChain.Proofs.Tokens
import AttrChain.Literal.Printer
import AttrChain.Proofs.Literals
import AttrChain.Descriptor.Printer
import AttrChain.Proofs.Items
import AttrChain.Proofs.Slots
import AttrChain.Proofs.Queries
import AttrChain.Proofs.Targets
import AttrChain.Proofs.Upkeep
import AttrChain.Proofs.Building
import AttrChain.Proofs.Ascent
import AttrChain.Proofs.Delivery
import AttrChain.Proofs.Standing
import AttrChain.Proofs.Outstanding
import AttrChain.Proofs.Overlap
import AttrChain.Proofs.Records
import AttrChain.Proofs.Skeleton
import AttrChain.Proofs.ValidScenes
import AttrChain.Proofs.Stored
import AttrChain.Proofs.SceneRuns
import AttrChain.Proofs.Descent
import AttrChain.Proofs.Lookup
import AttrChain.Proofs.Conservation
import AttrChain.Proofs.Binding
import AttrChain.Proofs.Rebinding
import AttrChain.Proofs.Listing
import AttrChain.Proofs.Merging
import AttrChain.Proofs.Paths
import AttrChain.Proofs.Registration
import AttrChain.Proofs.Arities
import AttrChain.Proofs.Bounds
import AttrChain.Proofs.Endings
import AttrChain.Proofs.Windows
import AttrChain.Proofs.Conditions
import AttrChain.Proofs.Quotients
import AttrChain.Proofs.Escapes
import AttrChain.Proofs.Outlines
import AttrChain.Proofs.Readings
import AttrChain.Proofs.Sentinels
import AttrChain.Proofs.Triggers
import AttrChain.Proofs.Compiling
import AttrChain.Proofs.Traversal
import AttrChain.Proofs.Matching
import AttrChain.Proofs.Layouts
import AttrChain.Proofs.Compounds
import AttrChain.Proofs.Selectors
import AttrChain.Proofs.Conjunction
import AttrChain.Proofs.Attributes
import AttrChain.Proofs.Revisions
import AttrChain.Proofs.Updating
import AttrChain.Proofs.Classes
import AttrChain.Proofs.SceneIds
import AttrChain.Proofs.Overflow
import AttrChain.Proofs.Positions
import AttrChain.Proofs.Packing
import AttrChain.Proofs.Placeholders
import AttrChain.Proofs.Encodings
import AttrChain.Proofs.Recoding
