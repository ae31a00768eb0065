import Templating.Compiler
import Templating.Config.Reader
import Templating.Markup.Parser
import Templating.TagCache.FileStore
import Templating.Proofs.Source.Arrow
import Templating.Proofs.Source.ProtectedArrows
import Templating.Proofs.Source.Normalizing
import Templating.Proofs.Source.Hiding
import Templating.Proofs.Markup.Canonical
import Templating.Proofs.Markup.RoundTrip
import Templating.Proofs.Markup.Preorder
import Templating.Proofs.Markup.Idempotence
import Templating.Proofs.Markup.Compression
import Templating.Proofs.Markup.Commuting
import Templating.Proofs.Directories.History
import Templating.Proofs.TagCache.Coherence
import Templating.Proofs.TagCache.Fingerprint
import Templating.Proofs.TagCache.Saving
import Templating.Proofs.TagCache.Separation
import Templating.Proofs.Compiler.Session
import Templating.Proofs.Markup.Pass.StableOrder
import Templating.Proofs.Source.OpeningTag
import Templating.Proofs.Source.Document
import Templating.Proofs.Source.Inlining
import Templating.Proofs.Source.Separated
import Templating.Proofs.Source.Settled
import Templating.Proofs.Markup.Pass.HeadingClasses
import Templating.Proofs.Markup.Completion
import Templating.Proofs.Path.NormalForm
import Templating.Proofs.Directories.Addition
import Templating.Proofs.Directories.Defaults
import Templating.Proofs.Markup.Pass.SeparatorBlocks
import Templating.Proofs.Directories.Maximum
import Templating.Proofs.Path.Referring
import Templating.Proofs.TagCache.Misses
import Templating.Proofs.Markup.Refused
import Templating.Proofs.Source.LineLayout
import Templating.Proofs.Extensions
import Templating.Proofs.Markup.AttributeLaws
