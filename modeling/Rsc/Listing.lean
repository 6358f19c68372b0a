import Rsc.Program

/-!
# Listings

A listing shows each word with its address, in binary and hexadecimal, and the source line it came
from.
-/

namespace Rsc

/-- The two lines above the entries: column titles and a rule. -/
def listingHeader : List Text :=
  ["ADDR  BINARY            HEX   LINE  SOURCE".toList, List.replicate 60 '-']

/-- One row of a listing. -/
def Entry.render (e : Entry) : Text :=
  Numeral.column 4 e.address ++ "  ".toList ++ Bits.binaryDigits e.word wordSize
    ++ "  ".toList ++ Numeral.hex 4 e.word ++ "  ".toList ++ Numeral.column 4 e.source.number
    ++ "  ".toList ++ e.source.text

/-- A listing, with no line end after the last row. -/
def renderListing (listing : List Entry) : Text :=
  Text.join ['\n'] (listingHeader ++ listing.map Entry.render)

end Rsc
