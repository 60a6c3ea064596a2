import Pizzeria.Main
import Pizzeria.Script
import Pizzeria.Source.Excision
import Pizzeria.Proofs.Location
import Pizzeria.Proofs.Outcome
import Pizzeria.Proofs.Scanning
import Pizzeria.Proofs.Boundaries
import Pizzeria.Proofs.Retention
import Pizzeria.Proofs.Searches
import Pizzeria.Proofs.TokenSequence
import Pizzeria.Proofs.Comment
import Pizzeria.Proofs.CommentLines
import Pizzeria.Proofs.Layout
import Pizzeria.Proofs.Extension
import Pizzeria.Proofs.Forms
import Pizzeria.Proofs.Ambiguity
import Pizzeria.Proofs.Segments
import Pizzeria.Proofs.Delimiters
import Pizzeria.Proofs.Diagnostics
import Pizzeria.Proofs.UserFaults
import Pizzeria.Proofs.Numerals
import Pizzeria.Proofs.IntegerLiterals
import Pizzeria.Proofs.Sameness
import Pizzeria.Proofs.Assembly
import Pizzeria.Proofs.ClauseGrammar
import Pizzeria.Proofs.Stamps
import Pizzeria.Proofs.LiteralSpacing
import Pizzeria.Proofs.Literals
import Pizzeria.Proofs.WrittenForm
import Pizzeria.Proofs.Relocation
import Pizzeria.Proofs.Concatenation
import Pizzeria.Proofs.Spacing
import Pizzeria.Proofs.Transition
import Pizzeria.Proofs.Atomicity
import Pizzeria.Proofs.Accounting
import Pizzeria.Proofs.Independence
import Pizzeria.Proofs.Tallies
import Pizzeria.Proofs.Ranking
import Pizzeria.Proofs.Descriptions
import Pizzeria.Proofs.Dietary
import Pizzeria.Proofs.Sequencing
import Pizzeria.Proofs.Draining
import Pizzeria.Proofs.Conversation
import Pizzeria.Proofs.Entries
import Pizzeria.Proofs.Dialog
import Pizzeria.Proofs.Capitals
import Pizzeria.Proofs.LetterCase
import Pizzeria.Proofs.SoundSessions
import Pizzeria.Proofs.Rebuilding
import Pizzeria.Proofs.Listing
