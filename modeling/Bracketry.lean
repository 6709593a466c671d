import Bracketry.Length
import Bracketry.IdSet
import Bracketry.KeyTable
import Bracketry.Content.LineAccess
import Bracketry.Edit.Compose
import Bracketry.Edit.PositionMap
import Bracketry.Token.Stream
import Bracketry.Tree.Outline
import Bracketry.Session
import Bracketry.Lookup
import Bracketry.Settings.File
import Bracketry.Settings.Path
import Bracketry.Command.Run
import Bracketry.Main
import Bracketry.Proofs.Lengths
import Bracketry.Proofs.Forest
import Bracketry.Proofs.Matching
import Bracketry.Proofs.Shape
import Bracketry.Proofs.Units
import Bracketry.Proofs.Concat
import Bracketry.Proofs.Joining
import Bracketry.Proofs.Parsing
import Bracketry.Proofs.Tables
import Bracketry.Proofs.FromScratch
import Bracketry.Proofs.Composition
import Bracketry.Proofs.Mapping
import Bracketry.Proofs.OldPlaces
import Bracketry.Proofs.Contexts
import Bracketry.Proofs.Walking
import Bracketry.Proofs.Outermost
import Bracketry.Proofs.Scripts
import Bracketry.Proofs.ByteReading
import Bracketry.Proofs.Documents
import Bracketry.Proofs.LineEdits
import Bracketry.Proofs.Accounts
import Bracketry.Proofs.ByteTrees
import Bracketry.Proofs.Sessions
import Bracketry.Proofs.WellFormed
import Bracketry.Proofs.Marks
import Bracketry.Proofs.Outlines
import Bracketry.Proofs.Associativity
import Bracketry.Proofs.CharReading
import Bracketry.Proofs.CharTrees
import Bracketry.Proofs.Positions
import Bracketry.Proofs.Splices
import Bracketry.Proofs.Rounds
import Bracketry.Proofs.Revisions
import Bracketry.Proofs.Nesting
import Bracketry.Proofs.Asking
import Bracketry.Proofs.LineMatches
import Bracketry.Proofs.Remembering
import Bracketry.Proofs.Lookups
import Bracketry.Proofs.Notices
import Bracketry.Proofs.Safety
import Bracketry.Proofs.BracketWalks
import Bracketry.Proofs.PairWalks
import Bracketry.Proofs.Listings
import Bracketry.Proofs.Nearest
import Bracketry.Proofs.PairLookups
import Bracketry.Proofs.Peeks
import Bracketry.Proofs.CodeRuns
import Bracketry.Proofs.Insides
import Bracketry.Proofs.Skips
import Bracketry.Proofs.LongestMatches
import Bracketry.Proofs.OffsetLookups
import Bracketry.Proofs.IdHistories
import Bracketry.Proofs.Marking
import Bracketry.Proofs.RoundTrips
import Bracketry.Proofs.SameLines
import Bracketry.Proofs.LineAccesses
import Bracketry.Proofs.MergedLines
import Bracketry.Proofs.Distances
import Bracketry.Proofs.CommandLines
import Bracketry.Proofs.CountedLines
