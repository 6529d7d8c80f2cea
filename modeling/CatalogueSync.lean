import CatalogueSync.Cursor
import CatalogueSync.Main
import CatalogueSync.Step
import CatalogueSync.Proofs.Token.Closing
import CatalogueSync.Proofs.Token.Tokenization
import CatalogueSync.Proofs.Token.Joining
import CatalogueSync.Proofs.Catalogue.RoundTrip
import CatalogueSync.Proofs.Catalogue.Normalisation
import CatalogueSync.Proofs.Reconciliation.Outcome
import CatalogueSync.Proofs.Reconciliation.Fixpoint
import CatalogueSync.Proofs.Reconciliation.Specification
import CatalogueSync.Proofs.Reconciliation.History
import CatalogueSync.Proofs.Extraction.Messages
import CatalogueSync.Proofs.Extraction.Inline
import CatalogueSync.Proofs.Extraction.Reference
import CatalogueSync.Proofs.Step.Storage
import CatalogueSync.Proofs.Step.History
import CatalogueSync.Proofs.Workspace.Following
import CatalogueSync.Proofs.Workspace.Writing
import CatalogueSync.Proofs.Workspace.Lookup
import CatalogueSync.Proofs.Project.Opening
import CatalogueSync.Proofs.Project.Plan
import CatalogueSync.Proofs.Command.Success
import CatalogueSync.Proofs.Command.Merge
import CatalogueSync.Proofs.Workspace.Effect
import CatalogueSync.Proofs.Project.Drafts
import CatalogueSync.Proofs.Report.Lines
import CatalogueSync.Proofs.Command.Check
import CatalogueSync.Proofs.Workspace.Room
import CatalogueSync.Proofs.Command.Failure
import CatalogueSync.Proofs.Project.Search
import CatalogueSync.Proofs.Project.Directory
import CatalogueSync.Proofs.Project.Locales
import CatalogueSync.Proofs.Command.UpToDate
import CatalogueSync.Proofs.Workspace.Comparison
import CatalogueSync.Proofs.Project.Contents
import CatalogueSync.Proofs.Command.Independence
import CatalogueSync.Proofs.Config.SourceTag
import CatalogueSync.Proofs.Project.Files
import CatalogueSync.Proofs.Command.Statistics
import CatalogueSync.Proofs.Command.Reference
import CatalogueSync.Proofs.Catalogue.Grammar
import CatalogueSync.Proofs.Catalogue.Concatenation
import CatalogueSync.Proofs.Extraction.Grammar
import CatalogueSync.Proofs.Extraction.Grouping
import CatalogueSync.Proofs.Catalogue.Calls
import CatalogueSync.Proofs.Config.Search
import CatalogueSync.Proofs.Workspace.Change
import CatalogueSync.Proofs.Project.Templates
import CatalogueSync.Proofs.Block.Cursor
import CatalogueSync.Proofs.Extraction.Literal
