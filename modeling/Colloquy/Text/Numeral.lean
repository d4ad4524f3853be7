import Colloquy.Text.Span

/-! Numerals in any script.  `isNumeral` is the wide class: decimal digits, other digits, fractions,
Roman and ideographic numerals.  `digitValue?` is the narrow one, the decimal digits, whose scripts
each hold ten consecutive code points from their zero on.  Only the narrow class can be read as an
integer. -/

namespace Colloquy.Text

def numeralSpans : List Span :=
  Span.ofRuns 0 [
    48,10,120,2,5,1,2,3,1441,10,134,10,198,10,412,10,118,10,4,6,108,10,118,10,118,10,2,6,110,13,115,
    10,8,7,103,10,104,7,7,19,109,10,96,10,118,10,70,20,268,10,70,10,719,20,881,3,239,10,6,10,22,10,
    300,10,128,11,165,10,6,10,182,10,86,10,134,10,6,10,1046,1,3,6,6,10,198,51,2,5,726,60,78,22,630,
    30,1385,1,777,1,25,9,14,3,343,4,138,10,30,8,1,15,32,10,39,15,325,1,125,1,934,1,802,1,4786,1,2,1,
    3,1,1,1,83,1,46,1,7,1,1,1,40,2,30,1,8,1,36,1,98,1,403,1,65,1,34,1,1,1,1,1,467,1,1,3,6,1,116,4,
    790,1,533,1,7,1,1408,1,131,2,12,3,1,1,1005,1,77,1,1157,1,1843,1,1167,1,743,1,2567,1,933,1,2177,
    1,4,1,124,1,2288,1,36,1,5,1,43,1,125,1,3881,10,188,10,320,6,154,10,38,10,198,10,22,10,86,10,406,
    10,19825,1,7,1,4,1,57,1,30,1,1,1,41,1,1298,10,493,45,12,57,17,2,341,27,36,4,29,1,8,1,134,5,202,
    10,942,8,25,7,39,9,75,5,22,6,160,2,2,16,2,46,64,9,52,2,30,3,75,5,104,8,24,8,41,7,330,6,48,10,
    294,31,158,10,42,4,112,7,134,30,128,10,60,10,144,10,7,20,251,10,342,10,118,10,374,10,102,10,102,
    12,420,19,93,10,758,29,227,10,70,10,534,21,1067,111,17905,10,86,10,134,10,1,7,798,23,25673,20,
    108,25,1109,50,2368,10,422,10,1485,9,128,10,791,59,1,3,1,4,76,45,1,15,962,13,2787,10,1031,1,98,
    1,125,1,62,1,2056,1,88,1,8,1,15,1,333,1,18,1,27,1,6262,1,1543,1,4482,1,10065,1,38434,1]

def zeros : List Nat :=
  [
   0x30, 0x660, 0x6F0, 0x7C0, 0x966, 0x9E6, 0xA66, 0xAE6, 0xB66,
   0xBE6, 0xC66, 0xCE6, 0xD66, 0xDE6, 0xE50, 0xED0, 0xF20, 0x1040,
   0x1090, 0x17E0, 0x1810, 0x1946, 0x19D0, 0x1A80, 0x1A90, 0x1B50, 0x1BB0,
   0x1C40, 0x1C50, 0xA620, 0xA8D0, 0xA900, 0xA9D0, 0xA9F0, 0xAA50, 0xABF0,
   0xFF10, 0x104A0, 0x10D30, 0x11066, 0x110F0, 0x11136, 0x111D0, 0x112F0, 0x11450,
   0x114D0, 0x11650, 0x116C0, 0x11730, 0x118E0, 0x11950, 0x11C50, 0x11D50, 0x11DA0,
   0x16A60, 0x16AC0, 0x16B50, 0x1D7CE, 0x1D7D8, 0x1D7E2, 0x1D7EC, 0x1D7F6, 0x1E140,
   0x1E2F0, 0x1E950, 0x1FBF0
  ]

def isNumeral (c : Char) : Bool :=
  Span.covers numeralSpans c

def digitValue? (c : Char) : Option Nat :=
  (zeros.find? fun start => start ≤ c.toNat && c.toNat < start + 10).map (c.toNat - ·)

def isNumeric (s : String) : Bool :=
  !s.isEmpty && s.toList.all isNumeral

end Colloquy.Text
