import ServiceCatalog.Capability.Basic
import ServiceCatalog.Capability.Check
import ServiceCatalog.Capability.Rows
import ServiceCatalog.Catalog.Basic
import ServiceCatalog.Catalog.Effect
import ServiceCatalog.Catalog.Listing
import ServiceCatalog.Catalog.Mutation
import ServiceCatalog.Change.Description
import ServiceCatalog.Change.FieldPatch
import ServiceCatalog.Change.Log
import ServiceCatalog.CommandLine.Arguments
import ServiceCatalog.CommandLine.Command
import ServiceCatalog.CommandLine.Report
import ServiceCatalog.CommandLine.Run
import ServiceCatalog.Config.Basic
import ServiceCatalog.Config.File
import ServiceCatalog.Config.Text
import ServiceCatalog.Connection.Basic
import ServiceCatalog.Connection.Form
import ServiceCatalog.Decimal.Binary64
import ServiceCatalog.Text.Basic
import ServiceCatalog.Decimal.Shortest
import ServiceCatalog.Entity.Include
import ServiceCatalog.Entity.Name
import ServiceCatalog.Entity.Reference
import ServiceCatalog.Entity.Uuid
import ServiceCatalog.Entity.Version
import ServiceCatalog.Files.Basic
import ServiceCatalog.Files.Path
import ServiceCatalog.Json.Basic
import ServiceCatalog.Json.Dict
import ServiceCatalog.Json.Number
import ServiceCatalog.Json.Printer
import ServiceCatalog.Json.Reader
import ServiceCatalog.Main
import ServiceCatalog.Server.Discovery
import ServiceCatalog.Server.Info
import ServiceCatalog.Server.Program
import ServiceCatalog.Server.Session
import ServiceCatalog.Service.Basic
import ServiceCatalog.Service.Error
import ServiceCatalog.Service.Field
import ServiceCatalog.Service.Import
import ServiceCatalog.Service.Kind
import ServiceCatalog.Service.Patch
import ServiceCatalog.Service.Permission
import ServiceCatalog.Service.Registration
import ServiceCatalog.Service.TestResult
import ServiceCatalog.Service.Update
import ServiceCatalog.Shell.Reader
import ServiceCatalog.Shell.Run
import ServiceCatalog.Shell.Text
import ServiceCatalog.Store.Basic
import ServiceCatalog.Store.Records
import ServiceCatalog.Tag.Label
import ServiceCatalog.Tag.Selection
import ServiceCatalog.Time.Basic
import ServiceCatalog.Toml.Basic
import ServiceCatalog.Toml.Codec
import ServiceCatalog.Toml.Number
import ServiceCatalog.Toml.Quoted
import ServiceCatalog.Toml.Reader
import ServiceCatalog.Url.Address
import ServiceCatalog.Url.Basic
import ServiceCatalog.Url.Domain
import ServiceCatalog.Wire.Basic
import ServiceCatalog.Proofs.Files.Content
import ServiceCatalog.Proofs.Store.Records
import ServiceCatalog.Proofs.Store.Save
import ServiceCatalog.Proofs.Catalog.Effect
import ServiceCatalog.Proofs.Catalog.History
import ServiceCatalog.Proofs.Catalog.Step
import ServiceCatalog.Proofs.Change.Tracked
import ServiceCatalog.Proofs.Change.Account
import ServiceCatalog.Proofs.Catalog.Run
import ServiceCatalog.Proofs.Json.Dict
import ServiceCatalog.Proofs.Catalog.Audit
import ServiceCatalog.Proofs.Decimal.Digits
import ServiceCatalog.Proofs.Json.Literal
import ServiceCatalog.Proofs.Json.Tree
import ServiceCatalog.Proofs.Json.Layout
import ServiceCatalog.Proofs.Json.Ranged
import ServiceCatalog.Proofs.Wire.Lawful
import ServiceCatalog.Proofs.Wire.Text
import ServiceCatalog.Proofs.Wire.Record
import ServiceCatalog.Proofs.Decimal.Rounding
import ServiceCatalog.Proofs.Entity.Uuid
import ServiceCatalog.Proofs.Entity.Version
import ServiceCatalog.Proofs.Wire.Entity
import ServiceCatalog.Proofs.Wire.Value
import ServiceCatalog.Proofs.Wire.Service
import ServiceCatalog.Proofs.Wire.Request
import ServiceCatalog.Proofs.Store.Document
import ServiceCatalog.Proofs.Service.Sound
import ServiceCatalog.Proofs.Catalog.Reopen
import ServiceCatalog.Proofs.Server.Session
import ServiceCatalog.Proofs.Catalog.Sharing
import ServiceCatalog.Proofs.Service.Redaction
import ServiceCatalog.Proofs.Server.Arrival
import ServiceCatalog.Proofs.Server.Matching
import ServiceCatalog.Proofs.Server.Paging
import ServiceCatalog.Proofs.Server.Handout
import ServiceCatalog.Proofs.Service.Check
import ServiceCatalog.Proofs.Catalog.Validity
import ServiceCatalog.Proofs.Service.Stepping
import ServiceCatalog.Proofs.Catalog.Answer
import ServiceCatalog.Proofs.Catalog.Stepping
import ServiceCatalog.Proofs.Catalog.Naming
import ServiceCatalog.Proofs.Store.Names
import ServiceCatalog.Proofs.Catalog.Reading
import ServiceCatalog.Proofs.Catalog.Editing
import ServiceCatalog.Proofs.Service.Patching
import ServiceCatalog.Proofs.Server.Offer
import ServiceCatalog.Proofs.Catalog.Refinement
import ServiceCatalog.Proofs.Catalog.Discovery
import ServiceCatalog.Proofs.Catalog.Paging
import ServiceCatalog.Proofs.Catalog.Freezing
import ServiceCatalog.Proofs.Catalog.Putting
import ServiceCatalog.Proofs.Catalog.Importing
import ServiceCatalog.Proofs.CommandLine.Resolving
import ServiceCatalog.Proofs.Wire.Shape
import ServiceCatalog.Proofs.Catalog.Traffic
import ServiceCatalog.Proofs.Service.Duplicates
import ServiceCatalog.Proofs.Service.Updating
import ServiceCatalog.Proofs.Service.Merging
import ServiceCatalog.Proofs.Catalog.Independence
import ServiceCatalog.Proofs.Tag.Reconciling
import ServiceCatalog.Proofs.Tag.Tiers
import ServiceCatalog.Proofs.Catalog.Tagging
import ServiceCatalog.Proofs.Server.Report
import ServiceCatalog.Proofs.Catalog.Testing
import ServiceCatalog.Proofs.Catalog.Followers
import ServiceCatalog.Proofs.Service.Following
import ServiceCatalog.Proofs.Catalog.Following
import ServiceCatalog.Proofs.Server.Pages
import ServiceCatalog.Proofs.Catalog.LastPage
import ServiceCatalog.Proofs.Store.Writing
import ServiceCatalog.Proofs.Text.Excerpt
import ServiceCatalog.Proofs.Config.Message
import ServiceCatalog.Proofs.Toml.Quoted
import ServiceCatalog.Proofs.Toml.Number
import ServiceCatalog.Proofs.Toml.Reader
import ServiceCatalog.Proofs.Config.Text
import ServiceCatalog.Proofs.Config.File
import ServiceCatalog.Proofs.Decimal.Error
import ServiceCatalog.Proofs.Decimal.Scaling
import ServiceCatalog.Proofs.Decimal.Numeral
import ServiceCatalog.Proofs.Entity.Tolerance
import ServiceCatalog.Proofs.Entity.Reading
import ServiceCatalog.Proofs.Entity.Tenths
