import CommentBlocks.Main
import CommentBlocks.Proofs.Argument.Ampersands
import CommentBlocks.Proofs.Argument.Keeping
import CommentBlocks.Proofs.Argument.Nesting
import CommentBlocks.Proofs.Argument.Standing
import CommentBlocks.Proofs.Argument.Unwrapping
import CommentBlocks.Proofs.Block.Lines
import CommentBlocks.Proofs.Block.Matching
import CommentBlocks.Proofs.Block.Spelling
import CommentBlocks.Proofs.Config.Settings
import CommentBlocks.Proofs.Dependency.Stability
import CommentBlocks.Proofs.Discovery.Cycles
import CommentBlocks.Proofs.Discovery.Gathering
import CommentBlocks.Proofs.Project.Missing
import CommentBlocks.Proofs.Project.Outputs
import CommentBlocks.Proofs.Project.Regeneration
import CommentBlocks.Proofs.Project.SourceOrder
import CommentBlocks.Proofs.Project.Strictness
import CommentBlocks.Proofs.Render.Converging
import CommentBlocks.Proofs.Render.Registering
import CommentBlocks.Proofs.Render.Selecting
import CommentBlocks.Proofs.Render.Undoing
import CommentBlocks.Proofs.Value.JsonReading
import CommentBlocks.Proofs.Value.NumeralForm
import CommentBlocks.Proofs.Argument.Skipping
import CommentBlocks.Proofs.Path.Resolving
