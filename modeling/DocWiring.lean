import DocWiring.Main
import DocWiring.Run.Tree
import DocWiring.Proofs.Text.Classes
import DocWiring.Proofs.Text.Occurrences
import DocWiring.Proofs.DocBlock.Spelling
import DocWiring.Proofs.DocBlock.Annotation
import DocWiring.Proofs.DocBlock.Matching
import DocWiring.Proofs.DocBlock.Frame
import DocWiring.Proofs.DocBlock.Location
import DocWiring.Proofs.DocBlock.Editing
import DocWiring.Proofs.Merge.Insertion
import DocWiring.Proofs.Merge.Legibility
import DocWiring.Proofs.Merge.Closing
import DocWiring.Proofs.Merge.Completeness
import DocWiring.Proofs.Patch
import DocWiring.Proofs.Sorting
import DocWiring.Proofs.Patch.InPlace
import DocWiring.Proofs.Merge.Idempotence
import DocWiring.Proofs.Merge.PureInsertion
import DocWiring.Proofs.Merge.InTurn
import DocWiring.Proofs.Php.Scanning
import DocWiring.Proofs.Php.Lexing
import DocWiring.Proofs.DocBlock.Sealed
import DocWiring.Proofs.DocBlock.Relocation
import DocWiring.Proofs.Php.Places
import DocWiring.Proofs.Php.Site
import DocWiring.Proofs.Php.Comment
import DocWiring.Proofs.Php.Refilled
import DocWiring.Proofs.Php.Renewed
import DocWiring.Proofs.Php.Refit
import DocWiring.Proofs.Php.Room
import DocWiring.Proofs.Php.Dressing
import DocWiring.Proofs.Php.Cutting
import DocWiring.Proofs.Php.Parsing
import DocWiring.Proofs.Merge.Placement
import DocWiring.Proofs.Merge.Revision
import DocWiring.Proofs.Run.Outcome
import DocWiring.Proofs.Run.Rewrite
import DocWiring.Proofs.FileTree
import DocWiring.Proofs.Run.Writing
import DocWiring.Proofs.Merge.Again
import DocWiring.Proofs.Run.Again
import DocWiring.Proofs.Run.Repeat
import DocWiring.Proofs.Maps
import DocWiring.Proofs.Run.Total
import DocWiring.Proofs.Run.Truth
import DocWiring.Proofs.Run.Dry
import DocWiring.Proofs.Run.Order
import DocWiring.Proofs.Run.Index
import DocWiring.Proofs.Configuration
import DocWiring.Proofs.Json.Quoted
import DocWiring.Proofs.Json.RoundTrip
import DocWiring.Proofs.Run.Isolation
import DocWiring.Proofs.Run.First
import DocWiring.Proofs.Source.Ambiguous
import DocWiring.Proofs.Merge.Reread
import DocWiring.Proofs.Run.Reread
import DocWiring.Proofs.Configuration.Saved
import DocWiring.Proofs.Configuration.Initial
import DocWiring.Proofs.Merge.Clearing
import DocWiring.Proofs.Merge.Survival
import DocWiring.Proofs.Merge.LineEnds
import DocWiring.Proofs.Wiring
import DocWiring.Proofs.Ancestry
import DocWiring.Proofs.Run.Kinship
import DocWiring.Proofs.Source.Canonical
import DocWiring.Proofs.Patch.Permuted
import DocWiring.Proofs.Text.Pieces
import DocWiring.Proofs.Glob
import DocWiring.Proofs.FileFilter
import DocWiring.Proofs.FileTree.Below
import DocWiring.Proofs.Discovery
import DocWiring.Proofs.Merge.Standing
import DocWiring.Proofs.Php.Quoted
import DocWiring.Proofs.Wiring.Traversal
import DocWiring.Proofs.Run.Registration
import DocWiring.Proofs.Run.Events
