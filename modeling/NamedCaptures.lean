import NamedCaptures.CheckedPattern
import NamedCaptures.Main
import NamedCaptures.Proofs.Brackets.Problems
import NamedCaptures.Proofs.Grammar.Exactness
import NamedCaptures.Proofs.Requiredness.Runs
import NamedCaptures.Proofs.Readers.Order
import NamedCaptures.Proofs.Requiredness.Composition
import NamedCaptures.Proofs.Lookahead.Stability
import NamedCaptures.Proofs.Lookahead.Tokens
import NamedCaptures.Proofs.Problems.Resuming
import NamedCaptures.Proofs.Lookahead.Readers
import NamedCaptures.Proofs.InPlace.Moves
import NamedCaptures.Proofs.InPlace.Procedures
import NamedCaptures.Proofs.InPlace.Loops
import NamedCaptures.Proofs.InPlace.Bytes
import NamedCaptures.Proofs.InPlace.Performing
import NamedCaptures.Proofs.InPlace.Tokens
import NamedCaptures.Proofs.InPlace.Levels
import NamedCaptures.Proofs.InPlace.Readers
import NamedCaptures.Proofs.Problems.Grounds
import NamedCaptures.Proofs.Problems.Justified
import NamedCaptures.Proofs.Grammar.TokenCompletion
import NamedCaptures.Proofs.Grammar.TreeCompletion
import NamedCaptures.Proofs.Brackets.OwnLevel
import NamedCaptures.Proofs.InPlace.Counting
import NamedCaptures.Proofs.InPlace.KeptLevels
import NamedCaptures.Proofs.Nesting.HeldNames
import NamedCaptures.Proofs.Nesting.Isolation
import NamedCaptures.Proofs.Positions.Walks
import NamedCaptures.Proofs.Problems.Count
import NamedCaptures.Proofs.InPlace.Turns
import NamedCaptures.Proofs.Checking.CheckedPatterns
import NamedCaptures.Proofs.Memo.Replies
import NamedCaptures.Proofs.CommandLine.Batches
import NamedCaptures.Proofs.Grammar.GroupNames
import NamedCaptures.Proofs.InPlace.UnicodeEscapes
import NamedCaptures.Proofs.Requiredness.Counts
import NamedCaptures.Proofs.InPlace.CharacterClasses
import NamedCaptures.Proofs.Positions.EitherByte
import NamedCaptures.Proofs.Flags.LetterTexts
import NamedCaptures.Proofs.Problems.Texts
import NamedCaptures.Proofs.InPlace.StoppingPlaces
