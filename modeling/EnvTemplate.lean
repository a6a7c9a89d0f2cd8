import EnvTemplate.Main
import EnvTemplate.Proofs.Expansion.Concatenation
import EnvTemplate.Proofs.Expansion.OnePass
import EnvTemplate.Proofs.Expansion.Repetition
import EnvTemplate.Proofs.Expansion.Assignments
import EnvTemplate.Proofs.Expansion.Inertness
import EnvTemplate.Proofs.Expansion.Independence
import EnvTemplate.Proofs.Expansion.Sequence
import EnvTemplate.Proofs.Store.Layers
import EnvTemplate.Proofs.Store.Exports
import EnvTemplate.Proofs.FileTree.Way
import EnvTemplate.Proofs.FileTree.Replacement
import EnvTemplate.Proofs.FileTree.Growth
import EnvTemplate.Proofs.Stage.Publish
import EnvTemplate.Proofs.Stage.Single
import EnvTemplate.Proofs.TemplateTree.FailedRender
import EnvTemplate.Proofs.TemplateTree.PublishedRender
import EnvTemplate.Proofs.Program.ExpandCommand
import EnvTemplate.Proofs.Program.Sources
import EnvTemplate.Proofs.Path.Parent
import EnvTemplate.Proofs.FileTree.Linkless
import EnvTemplate.Proofs.FileTree.Twins
import EnvTemplate.Proofs.Stage.Writing
import EnvTemplate.Proofs.Stage.Opening
import EnvTemplate.Proofs.Stage.Closing
import EnvTemplate.Proofs.Stage.Scripts
import EnvTemplate.Proofs.Stage.Interleaving
import EnvTemplate.Proofs.Segment.Unclosed
import EnvTemplate.Proofs.Expansion.UnsetRules
import EnvTemplate.Proofs.Program.Isolation
import EnvTemplate.Proofs.Toml.Order
import EnvTemplate.Proofs.Stage.Exchange
import EnvTemplate.Proofs.Stage.Survival
import EnvTemplate.Proofs.Stage.OneFile
import EnvTemplate.Proofs.TemplateTree.Reads
import EnvTemplate.Proofs.Expansion.Replay
import EnvTemplate.Proofs.Segment.NameForms
import EnvTemplate.Proofs.Segment.Search
import EnvTemplate.Proofs.Segment.Bytewise
import EnvTemplate.Proofs.Segment.Progress
