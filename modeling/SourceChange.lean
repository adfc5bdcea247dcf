import SourceChange.Main
import SourceChange.Operation.Catalog
import SourceChange.Proofs.PublishedSyntax
import SourceChange.Source.Problem
import SourceChange.Proofs.Process
import SourceChange.Proofs.Stepwise.Engine
import SourceChange.Proofs.Independence
import SourceChange.Proofs.Reordering
import SourceChange.Proofs.Batches
import SourceChange.Proofs.Pool
import SourceChange.Proofs.Sessions
import SourceChange.Proofs.FileRun.Bindings
import SourceChange.Proofs.Accounting
import SourceChange.Proofs.Ownership
import SourceChange.Proofs.Requests
import SourceChange.Proofs.FanOut.Isolation
import SourceChange.Proofs.Recency
import SourceChange.Proofs.Edits.Splicing
import SourceChange.Proofs.Syntax.Trees
import SourceChange.Proofs.Soundness
import SourceChange.Proofs.Disk.RoundTrip
import SourceChange.Proofs.Presentation
import SourceChange.Proofs.Settings.Faults
import SourceChange.Proofs.Import.Repetition
import SourceChange.Proofs.Hook.Names
import SourceChange.Proofs.Extraction.Ways
import SourceChange.Proofs.Extraction.Closure
import SourceChange.Proofs.Hook.Target
import SourceChange.Proofs.MovedCode
import SourceChange.Proofs.Element.Insertion
import SourceChange.Proofs.Element.Classes
import SourceChange.Proofs.Element.Props
import SourceChange.Proofs.Element.PropText
import SourceChange.Proofs.Template.Collisions
import SourceChange.Proofs.Disk.Undoing
import SourceChange.Proofs.SafePaths
import SourceChange.Proofs.TextChanges
import SourceChange.Proofs.Advice.Suggestions
import SourceChange.Proofs.Terminal.Display
import SourceChange.Proofs.Text.Rebasing
import SourceChange.Proofs.Text.Compact
