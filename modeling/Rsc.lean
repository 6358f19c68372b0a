import Rsc.Command.Export
import Rsc.Main
import Rsc.Session
import Rsc.Proofs.Cleaning
import Rsc.Proofs.Traversal
import Rsc.Proofs.Fields
import Rsc.Proofs.Resolution
import Rsc.Proofs.Assembly
import Rsc.Proofs.Outcome
import Rsc.Proofs.Jumps
import Rsc.Proofs.Relocation
import Rsc.Proofs.Sessions
import Rsc.Proofs.Comments
import Rsc.Proofs.CommentText
import Rsc.Proofs.Correspondence
import Rsc.Proofs.TokenStructure
import Rsc.Proofs.Rewriting
import Rsc.Proofs.Desugaring
import Rsc.Proofs.Files
import Rsc.Proofs.Numerals
import Rsc.Proofs.Words
import Rsc.Proofs.Renaming
import Rsc.Proofs.Reemission
import Rsc.Proofs.Packing
import Rsc.Proofs.Placement
import Rsc.Proofs.FileSystems
import Rsc.Proofs.Rendering
import Rsc.Proofs.Commands
import Rsc.Proofs.Spelling
import Rsc.Proofs.Readings
import Rsc.Proofs.Operands
import Rsc.Proofs.SignedOperands
import Rsc.Proofs.Columns
import Rsc.Proofs.Images
import Rsc.Proofs.Listings
import Rsc.Proofs.LayoutFiles
import Rsc.Proofs.LetterCase
import Rsc.Proofs.CleanSource
import Rsc.Proofs.AddressParts
import Rsc.Proofs.BinaryText
