import Frontend.Listing
import Frontend.Main
import Frontend.Proofs.Analysis.Completeness
import Frontend.Proofs.Analysis.Defaults
import Frontend.Proofs.Analysis.Termination
import Frontend.Proofs.Analysis.Totality
import Frontend.Proofs.Builtins.Invisible
import Frontend.Proofs.Calls.Counter
import Frontend.Proofs.Calls.Memo
import Frontend.Proofs.Calls.Ranking
import Frontend.Proofs.Dump.Faithful
import Frontend.Proofs.Ids.Copies
import Frontend.Proofs.Layout.Source
import Frontend.Proofs.Parser.Climbing
import Frontend.Proofs.Parser.Lookahead
import Frontend.Proofs.Parser.SourceOrder
import Frontend.Proofs.Printing.Types
import Frontend.Proofs.Registration.Coherence
import Frontend.Proofs.Rendering.Program
import Frontend.Proofs.Returns.Source
import Frontend.Proofs.Scoping.Immutable
import Frontend.Proofs.Scoping.Lexical
import Frontend.Proofs.Shift.Source
import Frontend.Proofs.Source.Caret
import Frontend.Proofs.Token.Literals
import Frontend.Proofs.Token.Munch
import Frontend.Proofs.Token.Numerals
import Frontend.Proofs.Types.Source
import Frontend.Proofs.Typing.Annotation
import Frontend.Proofs.Typing.Soundness
import Frontend.Proofs.Typing.Unpacking
import Frontend.Source.Cursor
