import Colloquy.Text.Search

/-! Characters by their names, for the blocks of characters that texts are mostly made of: letters
of Latin, Greek and Cyrillic, punctuation, and common signs and pictures.  Names are those of the
Unicode standard. -/

namespace Colloquy.Text

namespace CharacterName

/-- Characters that follow one another. -/
structure Block where
  first : Nat
  script : String := ""
  /-- Their names, with bars between them.  The name is empty where there is no character; `^` or `_` in
  front of it stands for a capital or a small letter of the script, and `~` for one after the other. -/
  names : List String

def shortWords : List (Char × String) :=
  [('+', " WITH "), ('a', "ARROW"), ('b', "BLACK"), ('c', "CAPITAL"),
   ('d', "DINGBAT NEGATIVE CIRCLED"), ('e', "EQUAL TO"), ('f', "FACE"), ('g', "SIGN"),
   ('h', "LEFT"), ('i', "RIGHT"), ('j', "RIGHTWARDS"), ('k', "GREATER-THAN"), ('l', "LEFTWARDS"),
   ('m', "VERTICAL"), ('n', "SANS-SERIF DIGIT"), ('o', "DOUBLE"), ('p', "POINTING"),
   ('q', "QUOTATION MARK"), ('r', "RIGHTWARDS ARROW"), ('s', "SYMBOL"), ('t', "TRIANGLE"),
   ('u', "SQUARE"), ('v', "HEAVY"), ('w', "WHITE"), ('x', "SMALL"), ('y', "ORNAMENT"),
   ('z', "CIRCLE")]

def basic : Block where
  first := 0x20
  script := "LATIN"
  names := [
    "SPACE|EXCLAMATION MARK|q|NUMBER g|DOLLAR g|PERCENT g|AMPERSAND|APOSTROPHE|h PARENTHESIS",
    "i PARENTHESIS|ASTERISK|PLUS g|COMMA|HYPHEN-MINUS|FULL STOP|SOLIDUS|DIGIT ZERO|DIGIT ONE",
    "DIGIT TWO|DIGIT THREE|DIGIT FOUR|DIGIT FIVE|DIGIT SIX|DIGIT SEVEN|DIGIT EIGHT|DIGIT NINE",
    "COLON|SEMICOLON|LESS-THAN g|EQUALS g|k g|QUESTION MARK|COMMERCIAL AT|^A|^B|^C|^D|^E|^F|^G|^H",
    "^I|^J|^K|^L|^M|^N|^O|^P|^Q|^R|^S|^T|^U|^V|^W|^X|^Y|^Z|h u BRACKET|REVERSE SOLIDUS|i u BRACKET",
    "CIRCUMFLEX ACCENT|LOW LINE|GRAVE ACCENT|_A|_B|_C|_D|_E|_F|_G|_H|_I|_J|_K|_L|_M|_N|_O|_P|_Q|_R",
    "_S|_T|_U|_V|_W|_X|_Y|_Z|h CURLY BRACKET|m LINE|i CURLY BRACKET|TILDE"]

def latin : Block where
  first := 0xA0
  script := "LATIN"
  names := [
    "NO-BREAK SPACE|INVERTED EXCLAMATION MARK|CENT g|POUND g|CURRENCY g|YEN g|BROKEN BAR|SECTION g",
    "DIAERESIS|COPYRIGHT g|FEMININE ORDINAL INDICATOR|h-p o ANGLE q|NOT g|SOFT HYPHEN|REGISTERED g",
    "MACRON|DEGREE g|PLUS-MINUS g|SUPERSCRIPT TWO|SUPERSCRIPT THREE|ACUTE ACCENT|MICRO g|PILCROW g",
    "MIDDLE DOT|CEDILLA|SUPERSCRIPT ONE|MASCULINE ORDINAL INDICATOR|i-p o ANGLE q",
    "VULGAR FRACTION ONE QUARTER|VULGAR FRACTION ONE HALF|VULGAR FRACTION THREE QUARTERS",
    "INVERTED QUESTION MARK|^A+GRAVE|^A+ACUTE|^A+CIRCUMFLEX|^A+TILDE|^A+DIAERESIS|^A+RING ABOVE",
    "^AE|^C+CEDILLA|^E+GRAVE|^E+ACUTE|^E+CIRCUMFLEX|^E+DIAERESIS|^I+GRAVE|^I+ACUTE|^I+CIRCUMFLEX",
    "^I+DIAERESIS|^ETH|^N+TILDE|^O+GRAVE|^O+ACUTE|^O+CIRCUMFLEX|^O+TILDE|^O+DIAERESIS",
    "MULTIPLICATION g|^O+STROKE|^U+GRAVE|^U+ACUTE|^U+CIRCUMFLEX|^U+DIAERESIS|^Y+ACUTE|^THORN",
    "_SHARP S|_A+GRAVE|_A+ACUTE|_A+CIRCUMFLEX|_A+TILDE|_A+DIAERESIS|_A+RING ABOVE|_AE|_C+CEDILLA",
    "_E+GRAVE|_E+ACUTE|_E+CIRCUMFLEX|_E+DIAERESIS|_I+GRAVE|_I+ACUTE|_I+CIRCUMFLEX|_I+DIAERESIS",
    "_ETH|_N+TILDE|_O+GRAVE|_O+ACUTE|_O+CIRCUMFLEX|_O+TILDE|_O+DIAERESIS|DIVISION g|_O+STROKE",
    "_U+GRAVE|_U+ACUTE|_U+CIRCUMFLEX|_U+DIAERESIS|_Y+ACUTE|_THORN|_Y+DIAERESIS|~A+MACRON|~A+BREVE",
    "~A+OGONEK|~C+ACUTE|~C+CIRCUMFLEX|~C+DOT ABOVE|~C+CARON|~D+CARON|~D+STROKE|~E+MACRON|~E+BREVE",
    "~E+DOT ABOVE|~E+OGONEK|~E+CARON|~G+CIRCUMFLEX|~G+BREVE|~G+DOT ABOVE|~G+CEDILLA|~H+CIRCUMFLEX",
    "~H+STROKE|~I+TILDE|~I+MACRON|~I+BREVE|~I+OGONEK|^I+DOT ABOVE|_DOTLESS I|LATIN c LIGATURE IJ",
    "LATIN x LIGATURE IJ|~J+CIRCUMFLEX|~K+CEDILLA|_KRA|~L+ACUTE|~L+CEDILLA|~L+CARON|~L+MIDDLE DOT",
    "~L+STROKE|~N+ACUTE|~N+CEDILLA|~N+CARON|_N PRECEDED BY APOSTROPHE|~ENG|~O+MACRON|~O+BREVE",
    "~O+o ACUTE|LATIN c LIGATURE OE|LATIN x LIGATURE OE|~R+ACUTE|~R+CEDILLA|~R+CARON|~S+ACUTE",
    "~S+CIRCUMFLEX|~S+CEDILLA|~S+CARON|~T+CEDILLA|~T+CARON|~T+STROKE|~U+TILDE|~U+MACRON|~U+BREVE",
    "~U+RING ABOVE|~U+o ACUTE|~U+OGONEK|~W+CIRCUMFLEX|~Y+CIRCUMFLEX|^Y+DIAERESIS|~Z+ACUTE",
    "~Z+DOT ABOVE|~Z+CARON|_LONG S"]

def greek : Block where
  first := 0x370
  script := "GREEK"
  names := [
    "~HETA|~ARCHAIC SAMPI|GREEK NUMERAL g|GREEK LOWER NUMERAL g|~PAMPHYLIAN DIGAMMA||",
    "GREEK YPOGEGRAMMENI|GREEK x REVERSED LUNATE SIGMA s|GREEK x DOTTED LUNATE SIGMA s",
    "GREEK x REVERSED DOTTED LUNATE SIGMA s|GREEK QUESTION MARK|^YOT|||||GREEK TONOS",
    "GREEK DIALYTIKA TONOS|^ALPHA+TONOS|GREEK ANO TELEIA|^EPSILON+TONOS|^ETA+TONOS|^IOTA+TONOS|",
    "^OMICRON+TONOS||^UPSILON+TONOS|^OMEGA+TONOS|_IOTA+DIALYTIKA AND TONOS|^ALPHA|^BETA|^GAMMA",
    "^DELTA|^EPSILON|^ZETA|^ETA|^THETA|^IOTA|^KAPPA|^LAMDA|^MU|^NU|^XI|^OMICRON|^PI|^RHO||^SIGMA",
    "^TAU|^UPSILON|^PHI|^CHI|^PSI|^OMEGA|^IOTA+DIALYTIKA|^UPSILON+DIALYTIKA|_ALPHA+TONOS",
    "_EPSILON+TONOS|_ETA+TONOS|_IOTA+TONOS|_UPSILON+DIALYTIKA AND TONOS|_ALPHA|_BETA|_GAMMA|_DELTA",
    "_EPSILON|_ZETA|_ETA|_THETA|_IOTA|_KAPPA|_LAMDA|_MU|_NU|_XI|_OMICRON|_PI|_RHO|_FINAL SIGMA",
    "_SIGMA|_TAU|_UPSILON|_PHI|_CHI|_PSI|_OMEGA|_IOTA+DIALYTIKA|_UPSILON+DIALYTIKA|_OMICRON+TONOS",
    "_UPSILON+TONOS|_OMEGA+TONOS|GREEK c KAI s|GREEK BETA s|GREEK THETA s|GREEK UPSILON+HOOK s",
    "GREEK UPSILON+ACUTE AND HOOK s|GREEK UPSILON+DIAERESIS AND HOOK s|GREEK PHI s|GREEK PI s",
    "GREEK KAI s|GREEK LETTER ARCHAIC KOPPA|_ARCHAIC KOPPA|GREEK LETTER STIGMA|_STIGMA",
    "GREEK LETTER DIGAMMA|_DIGAMMA|GREEK LETTER KOPPA|_KOPPA|GREEK LETTER SAMPI|_SAMPI",
    "COPTIC c LETTER SHEI|COPTIC x LETTER SHEI|COPTIC c LETTER FEI|COPTIC x LETTER FEI",
    "COPTIC c LETTER KHEI|COPTIC x LETTER KHEI|COPTIC c LETTER HORI|COPTIC x LETTER HORI",
    "COPTIC c LETTER GANGIA|COPTIC x LETTER GANGIA|COPTIC c LETTER SHIMA|COPTIC x LETTER SHIMA",
    "COPTIC c LETTER DEI|COPTIC x LETTER DEI|GREEK KAPPA s|GREEK RHO s|GREEK LUNATE SIGMA s",
    "GREEK LETTER YOT|GREEK c THETA s|GREEK LUNATE EPSILON s|GREEK REVERSED LUNATE EPSILON s|~SHO",
    "GREEK c LUNATE SIGMA s|~SAN|GREEK RHO+STROKE s|GREEK c REVERSED LUNATE SIGMA s",
    "GREEK c DOTTED LUNATE SIGMA s|GREEK c REVERSED DOTTED LUNATE SIGMA s"]

def cyrillic : Block where
  first := 0x400
  script := "CYRILLIC"
  names := [
    "^IE+GRAVE|^IO|^DJE|^GJE|^UKRAINIAN IE|^DZE|^BYELORUSSIAN-UKRAINIAN I|^YI|^JE|^LJE|^NJE|^TSHE",
    "^KJE|^I+GRAVE|^SHORT U|^DZHE|^A|^BE|^VE|^GHE|^DE|^IE|^ZHE|^ZE|^I|^SHORT I|^KA|^EL|^EM|^EN|^O",
    "^PE|^ER|^ES|^TE|^U|^EF|^HA|^TSE|^CHE|^SHA|^SHCHA|^HARD g|^YERU|^SOFT g|^E|^YU|^YA|_A|_BE|_VE",
    "_GHE|_DE|_IE|_ZHE|_ZE|_I|_SHORT I|_KA|_EL|_EM|_EN|_O|_PE|_ER|_ES|_TE|_U|_EF|_HA|_TSE|_CHE",
    "_SHA|_SHCHA|_HARD g|_YERU|_SOFT g|_E|_YU|_YA|_IE+GRAVE|_IO|_DJE|_GJE|_UKRAINIAN IE|_DZE",
    "_BYELORUSSIAN-UKRAINIAN I|_YI|_JE|_LJE|_NJE|_TSHE|_KJE|_I+GRAVE|_SHORT U|_DZHE"]

def punctuation : Block where
  first := 0x2000
  names := [
    "EN QUAD|EM QUAD|EN SPACE|EM SPACE|THREE-PER-EM SPACE|FOUR-PER-EM SPACE|SIX-PER-EM SPACE",
    "FIGURE SPACE|PUNCTUATION SPACE|THIN SPACE|HAIR SPACE|ZERO WIDTH SPACE|ZERO WIDTH NON-JOINER",
    "ZERO WIDTH JOINER|h-TO-i MARK|i-TO-h MARK|HYPHEN|NON-BREAKING HYPHEN|FIGURE DASH|EN DASH",
    "EM DASH|HORIZONTAL BAR|o m LINE|o LOW LINE|h SINGLE q|i SINGLE q|SINGLE LOW-9 q",
    "SINGLE HIGH-REVERSED-9 q|h o q|i o q|o LOW-9 q|o HIGH-REVERSED-9 q|DAGGER|o DAGGER|BULLET",
    "TRIANGULAR BULLET|ONE DOT LEADER|TWO DOT LEADER|HORIZONTAL ELLIPSIS|HYPHENATION POINT",
    "LINE SEPARATOR|PARAGRAPH SEPARATOR|h-TO-i EMBEDDING|i-TO-h EMBEDDING",
    "POP DIRECTIONAL FORMATTING|h-TO-i OVERRIDE|i-TO-h OVERRIDE|NARROW NO-BREAK SPACE|PER MILLE g",
    "PER TEN THOUSAND g|PRIME|o PRIME|TRIPLE PRIME|REVERSED PRIME|REVERSED o PRIME",
    "REVERSED TRIPLE PRIME|CARET|SINGLE h-p ANGLE q|SINGLE i-p ANGLE q|REFERENCE MARK",
    "o EXCLAMATION MARK|INTERROBANG|OVERLINE|UNDERTIE|CHARACTER TIE|CARET INSERTION POINT|ASTERISM",
    "HYPHEN BULLET|FRACTION SLASH|h u BRACKET+QUILL|i u BRACKET+QUILL|o QUESTION MARK",
    "QUESTION EXCLAMATION MARK|EXCLAMATION QUESTION MARK|TIRONIAN g ET|REVERSED PILCROW g",
    "b l BULLET|b j BULLET|LOW ASTERISK|REVERSED SEMICOLON|CLOSE UP",
    "TWO ASTERISKS ALIGNED VERTICALLY|COMMERCIAL MINUS g|SWUNG DASH|INVERTED UNDERTIE",
    "FLOWER PUNCTUATION MARK|THREE DOT PUNCTUATION|QUADRUPLE PRIME|FOUR DOT PUNCTUATION",
    "FIVE DOT PUNCTUATION|TWO DOT PUNCTUATION|FOUR DOT MARK|DOTTED CROSS|TRICOLON|m FOUR DOTS",
    "MEDIUM MATHEMATICAL SPACE|WORD JOINER|FUNCTION APPLICATION|INVISIBLE TIMES",
    "INVISIBLE SEPARATOR|INVISIBLE PLUS||h-TO-i ISOLATE|i-TO-h ISOLATE|FIRST STRONG ISOLATE",
    "POP DIRECTIONAL ISOLATE|INHIBIT SYMMETRIC SWAPPING|ACTIVATE SYMMETRIC SWAPPING",
    "INHIBIT ARABIC FORM SHAPING|ACTIVATE ARABIC FORM SHAPING|NATIONAL DIGIT SHAPES",
    "NOMINAL DIGIT SHAPES"]

def currency : Block where
  first := 0x20A0
  names := [
    "EURO-CURRENCY g|COLON g|CRUZEIRO g|FRENCH FRANC g|LIRA g|MILL g|NAIRA g|PESETA g|RUPEE g",
    "WON g|NEW SHEQEL g|DONG g|EURO g|KIP g|TUGRIK g|DRACHMA g|GERMAN PENNY g|PESO g|GUARANI g",
    "AUSTRAL g|HRYVNIA g|CEDI g|LIVRE TOURNOIS g|SPESMILO g|TENGE g|INDIAN RUPEE g|TURKISH LIRA g",
    "NORDIC MARK g|MANAT g|RUBLE g|LARI g|BITCOIN g|SOM g"]

def letterlike : Block where
  first := 0x2100
  names := [
    "ACCOUNT OF|ADDRESSED TO THE SUBJECT|o-STRUCK c C|DEGREE CELSIUS|CENTRE LINE s|CARE OF",
    "CADA UNA|EULER CONSTANT|SCRUPLE|DEGREE FAHRENHEIT|SCRIPT x G|SCRIPT c H|b-LETTER c H",
    "o-STRUCK c H|PLANCK CONSTANT|PLANCK CONSTANT OVER TWO PI|SCRIPT c I|b-LETTER c I|SCRIPT c L",
    "SCRIPT x L|L B BAR s|o-STRUCK c N|NUMERO g|SOUND RECORDING COPYRIGHT|SCRIPT c P|o-STRUCK c P",
    "o-STRUCK c Q|SCRIPT c R|b-LETTER c R|o-STRUCK c R|PRESCRIPTION TAKE|RESPONSE|SERVICE MARK",
    "TELEPHONE g|TRADE MARK g|VERSICLE|o-STRUCK c Z|OUNCE g|OHM g|INVERTED OHM g|b-LETTER c Z",
    "TURNED GREEK x LETTER IOTA|KELVIN g|ANGSTROM g|SCRIPT c B|b-LETTER c C|ESTIMATED s|SCRIPT x E",
    "SCRIPT c E|SCRIPT c F|TURNED c F|SCRIPT c M|SCRIPT x O|ALEF s|BET s|GIMEL s|DALET s",
    "INFORMATION SOURCE|ROTATED c Q|FACSIMILE g|o-STRUCK x PI|o-STRUCK x GAMMA|o-STRUCK c GAMMA",
    "o-STRUCK c PI|o-STRUCK N-ARY SUMMATION|TURNED SANS-SERIF c G|TURNED SANS-SERIF c L",
    "REVERSED SANS-SERIF c L|TURNED SANS-SERIF c Y|o-STRUCK ITALIC c D|o-STRUCK ITALIC x D",
    "o-STRUCK ITALIC x E|o-STRUCK ITALIC x I|o-STRUCK ITALIC x J|PROPERTY LINE|TURNED AMPERSAND",
    "PER g|AKTIESELSKAB|TURNED x F|s FOR SAMARITAN SOURCE"]

def arrows : Block where
  first := 0x2190
  names := [
    "l a|UPWARDS a|r|DOWNWARDS a|h i a|UP DOWN a|NORTH WEST a|NORTH EAST a|SOUTH EAST a",
    "SOUTH WEST a|l a+STROKE|r+STROKE|l WAVE a|j WAVE a|l TWO HEADED a|UPWARDS TWO HEADED a",
    "j TWO HEADED a|DOWNWARDS TWO HEADED a|l a+TAIL|r+TAIL|l a FROM BAR|UPWARDS a FROM BAR",
    "r FROM BAR|DOWNWARDS a FROM BAR|UP DOWN a+BASE|l a+HOOK|r+HOOK|l a+LOOP|r+LOOP|h i WAVE a",
    "h i a+STROKE|DOWNWARDS ZIGZAG a|UPWARDS a+TIP l|UPWARDS a+TIP j|DOWNWARDS a+TIP l",
    "DOWNWARDS a+TIP j|r+CORNER DOWNWARDS|DOWNWARDS a+CORNER l|ANTICLOCKWISE TOP SEMICIRCLE a",
    "CLOCKWISE TOP SEMICIRCLE a|NORTH WEST a TO LONG BAR|l a TO BAR OVER r TO BAR",
    "ANTICLOCKWISE OPEN z a|CLOCKWISE OPEN z a|l HARPOON+BARB UPWARDS|l HARPOON+BARB DOWNWARDS",
    "UPWARDS HARPOON+BARB j|UPWARDS HARPOON+BARB l|j HARPOON+BARB UPWARDS|j HARPOON+BARB DOWNWARDS",
    "DOWNWARDS HARPOON+BARB j|DOWNWARDS HARPOON+BARB l|r OVER l a|UPWARDS a l OF DOWNWARDS a",
    "l a OVER r|l PAIRED ARROWS|UPWARDS PAIRED ARROWS|j PAIRED ARROWS|DOWNWARDS PAIRED ARROWS",
    "l HARPOON OVER j HARPOON|j HARPOON OVER l HARPOON|l o a+STROKE|h i o a+STROKE|j o a+STROKE",
    "l o a|UPWARDS o a|j o a|DOWNWARDS o a|h i o a|UP DOWN o a|NORTH WEST o a|NORTH EAST o a",
    "SOUTH EAST o a|SOUTH WEST o a|l TRIPLE a|j TRIPLE a|l SQUIGGLE a|j SQUIGGLE a",
    "UPWARDS a+o STROKE|DOWNWARDS a+o STROKE|l DASHED a|UPWARDS DASHED a|j DASHED a",
    "DOWNWARDS DASHED a|l a TO BAR|r TO BAR|l w a|UPWARDS w a|j w a|DOWNWARDS w a",
    "UPWARDS w a FROM BAR|UPWARDS w a ON PEDESTAL|UPWARDS w a ON PEDESTAL+HORIZONTAL BAR",
    "UPWARDS w a ON PEDESTAL+m BAR|UPWARDS w o a|UPWARDS w o a ON PEDESTAL|j w a FROM WALL",
    "NORTH WEST a TO CORNER|SOUTH EAST a TO CORNER|UP DOWN w a|i a+x z|DOWNWARDS a l OF UPWARDS a",
    "THREE j ARROWS|l a+m STROKE|r+m STROKE|h i a+m STROKE|l a+o m STROKE|r+o m STROKE",
    "h i a+o m STROKE|l OPEN-HEADED a|j OPEN-HEADED a|h i OPEN-HEADED a"]

def mathematics : Block where
  first := 0x2200
  names := [
    "FOR ALL|COMPLEMENT|PARTIAL DIFFERENTIAL|THERE EXISTS|THERE DOES NOT EXIST|EMPTY SET|INCREMENT",
    "NABLA|ELEMENT OF|NOT AN ELEMENT OF|x ELEMENT OF|CONTAINS AS MEMBER|DOES NOT CONTAIN AS MEMBER",
    "x CONTAINS AS MEMBER|END OF PROOF|N-ARY PRODUCT|N-ARY COPRODUCT|N-ARY SUMMATION|MINUS g",
    "MINUS-OR-PLUS g|DOT PLUS|DIVISION SLASH|SET MINUS|ASTERISK OPERATOR|RING OPERATOR",
    "BULLET OPERATOR|u ROOT|CUBE ROOT|FOURTH ROOT|PROPORTIONAL TO|INFINITY|i ANGLE|ANGLE",
    "MEASURED ANGLE|SPHERICAL ANGLE|DIVIDES|DOES NOT DIVIDE|PARALLEL TO|NOT PARALLEL TO",
    "LOGICAL AND|LOGICAL OR|INTERSECTION|UNION|INTEGRAL|o INTEGRAL|TRIPLE INTEGRAL",
    "CONTOUR INTEGRAL|SURFACE INTEGRAL|VOLUME INTEGRAL|CLOCKWISE INTEGRAL",
    "CLOCKWISE CONTOUR INTEGRAL|ANTICLOCKWISE CONTOUR INTEGRAL|THEREFORE|BECAUSE|RATIO|PROPORTION",
    "DOT MINUS|EXCESS|GEOMETRIC PROPORTION|HOMOTHETIC|TILDE OPERATOR|REVERSED TILDE",
    "INVERTED LAZY S|SINE WAVE|WREATH PRODUCT|NOT TILDE|MINUS TILDE|ASYMPTOTICALLY e",
    "NOT ASYMPTOTICALLY e|APPROXIMATELY e|APPROXIMATELY BUT NOT ACTUALLY e",
    "NEITHER APPROXIMATELY NOR ACTUALLY e|ALMOST e|NOT ALMOST e|ALMOST EQUAL OR e|TRIPLE TILDE",
    "ALL e|EQUIVALENT TO|GEOMETRICALLY EQUIVALENT TO|DIFFERENCE BETWEEN|APPROACHES THE LIMIT",
    "GEOMETRICALLY e|APPROXIMATELY e OR THE IMAGE OF|IMAGE OF OR APPROXIMATELY e|COLON EQUALS",
    "EQUALS COLON|RING IN e|RING e|CORRESPONDS TO|ESTIMATES|EQUIANGULAR TO|STAR EQUALS|DELTA e",
    "e BY DEFINITION|MEASURED BY|QUESTIONED e|NOT e|IDENTICAL TO|NOT IDENTICAL TO",
    "STRICTLY EQUIVALENT TO|LESS-THAN OR e|k OR e|LESS-THAN OVER e|k OVER e|LESS-THAN BUT NOT e",
    "k BUT NOT e|MUCH LESS-THAN|MUCH k|BETWEEN|NOT EQUIVALENT TO|NOT LESS-THAN|NOT k",
    "NEITHER LESS-THAN NOR e|NEITHER k NOR e|LESS-THAN OR EQUIVALENT TO|k OR EQUIVALENT TO",
    "NEITHER LESS-THAN NOR EQUIVALENT TO|NEITHER k NOR EQUIVALENT TO|LESS-THAN OR k|k OR LESS-THAN",
    "NEITHER LESS-THAN NOR k|NEITHER k NOR LESS-THAN|PRECEDES|SUCCEEDS|PRECEDES OR e|SUCCEEDS OR e",
    "PRECEDES OR EQUIVALENT TO|SUCCEEDS OR EQUIVALENT TO|DOES NOT PRECEDE|DOES NOT SUCCEED",
    "SUBSET OF|SUPERSET OF|NOT A SUBSET OF|NOT A SUPERSET OF|SUBSET OF OR e|SUPERSET OF OR e",
    "NEITHER A SUBSET OF NOR e|NEITHER A SUPERSET OF NOR e|SUBSET OF+NOT e|SUPERSET OF+NOT e",
    "MULTISET|MULTISET MULTIPLICATION|MULTISET UNION|u IMAGE OF|u ORIGINAL OF|u IMAGE OF OR e",
    "u ORIGINAL OF OR e|u CAP|u CUP|CIRCLED PLUS|CIRCLED MINUS|CIRCLED TIMES",
    "CIRCLED DIVISION SLASH|CIRCLED DOT OPERATOR|CIRCLED RING OPERATOR|CIRCLED ASTERISK OPERATOR",
    "CIRCLED EQUALS|CIRCLED DASH|SQUARED PLUS|SQUARED MINUS|SQUARED TIMES|SQUARED DOT OPERATOR",
    "i TACK|h TACK|DOWN TACK|UP TACK|ASSERTION|MODELS|TRUE|FORCES|TRIPLE m BAR i TURNSTILE",
    "o m BAR o i TURNSTILE|DOES NOT PROVE|NOT TRUE|DOES NOT FORCE|NEGATED o m BAR o i TURNSTILE",
    "PRECEDES UNDER RELATION|SUCCEEDS UNDER RELATION|NORMAL SUBGROUP OF",
    "CONTAINS AS NORMAL SUBGROUP|NORMAL SUBGROUP OF OR e|CONTAINS AS NORMAL SUBGROUP OR e",
    "ORIGINAL OF|IMAGE OF|MULTIMAP|HERMITIAN CONJUGATE MATRIX|INTERCALATE|XOR|NAND|NOR|i ANGLE+ARC",
    "i t|N-ARY LOGICAL AND|N-ARY LOGICAL OR|N-ARY INTERSECTION|N-ARY UNION|DIAMOND OPERATOR",
    "DOT OPERATOR|STAR OPERATOR|DIVISION TIMES|BOWTIE|h NORMAL FACTOR SEMIDIRECT PRODUCT",
    "i NORMAL FACTOR SEMIDIRECT PRODUCT|h SEMIDIRECT PRODUCT|i SEMIDIRECT PRODUCT",
    "REVERSED TILDE EQUALS|CURLY LOGICAL OR|CURLY LOGICAL AND|o SUBSET|o SUPERSET|o INTERSECTION",
    "o UNION|PITCHFORK|EQUAL AND PARALLEL TO|LESS-THAN+DOT|k+DOT|VERY MUCH LESS-THAN|VERY MUCH k",
    "LESS-THAN e OR k|k e OR LESS-THAN|e OR LESS-THAN|e OR k|e OR PRECEDES|e OR SUCCEEDS",
    "DOES NOT PRECEDE OR EQUAL|DOES NOT SUCCEED OR EQUAL|NOT u IMAGE OF OR e",
    "NOT u ORIGINAL OF OR e|u IMAGE OF OR NOT e|u ORIGINAL OF OR NOT e",
    "LESS-THAN BUT NOT EQUIVALENT TO|k BUT NOT EQUIVALENT TO|PRECEDES BUT NOT EQUIVALENT TO",
    "SUCCEEDS BUT NOT EQUIVALENT TO|NOT NORMAL SUBGROUP OF|DOES NOT CONTAIN AS NORMAL SUBGROUP",
    "NOT NORMAL SUBGROUP OF OR e|DOES NOT CONTAIN AS NORMAL SUBGROUP OR EQUAL|m ELLIPSIS",
    "MIDLINE HORIZONTAL ELLIPSIS|UP i DIAGONAL ELLIPSIS|DOWN i DIAGONAL ELLIPSIS",
    "ELEMENT OF+LONG HORIZONTAL STROKE|ELEMENT OF+m BAR AT END OF HORIZONTAL STROKE",
    "x ELEMENT OF+m BAR AT END OF HORIZONTAL STROKE|ELEMENT OF+DOT ABOVE|ELEMENT OF+OVERBAR",
    "x ELEMENT OF+OVERBAR|ELEMENT OF+UNDERBAR|ELEMENT OF+TWO HORIZONTAL STROKES",
    "CONTAINS+LONG HORIZONTAL STROKE|CONTAINS+m BAR AT END OF HORIZONTAL STROKE",
    "x CONTAINS+m BAR AT END OF HORIZONTAL STROKE|CONTAINS+OVERBAR|x CONTAINS+OVERBAR",
    "Z NOTATION BAG MEMBERSHIP"]

def shapes : Block where
  first := 0x25A0
  names := [
    "b u|w u|w u+ROUNDED CORNERS|w u CONTAINING b x u|u+HORIZONTAL FILL|u+m FILL",
    "u+ORTHOGONAL CROSSHATCH FILL|u+UPPER h TO LOWER i FILL|u+UPPER i TO LOWER h FILL",
    "u+DIAGONAL CROSSHATCH FILL|b x u|w x u|b RECTANGLE|w RECTANGLE|b m RECTANGLE|w m RECTANGLE",
    "b PARALLELOGRAM|w PARALLELOGRAM|b UP-p t|w UP-p t|b UP-p x t|w UP-p x t|b i-p t|w i-p t",
    "b i-p x t|w i-p x t|b i-p POINTER|w i-p POINTER|b DOWN-p t|w DOWN-p t|b DOWN-p x t",
    "w DOWN-p x t|b h-p t|w h-p t|b h-p x t|w h-p x t|b h-p POINTER|w h-p POINTER|b DIAMOND",
    "w DIAMOND|w DIAMOND CONTAINING b x DIAMOND|FISHEYE|LOZENGE|w z|DOTTED z|z+m FILL|BULLSEYE|b z",
    "z+h HALF b|z+i HALF b|z+LOWER HALF b|z+UPPER HALF b|z+UPPER i QUADRANT b",
    "z+ALL BUT UPPER h QUADRANT b|h HALF b z|i HALF b z|INVERSE BULLET|INVERSE w z",
    "UPPER HALF INVERSE w z|LOWER HALF INVERSE w z|UPPER h QUADRANT CIRCULAR ARC",
    "UPPER i QUADRANT CIRCULAR ARC|LOWER i QUADRANT CIRCULAR ARC|LOWER h QUADRANT CIRCULAR ARC",
    "UPPER HALF z|LOWER HALF z|b LOWER i t|b LOWER h t|b UPPER h t|b UPPER i t|w BULLET|u+h HALF b",
    "u+i HALF b|u+UPPER h DIAGONAL HALF b|u+LOWER i DIAGONAL HALF b|w u+m BISECTING LINE",
    "w UP-p t+DOT|UP-p t+h HALF b|UP-p t+i HALF b|LARGE z|w u+UPPER h QUADRANT",
    "w u+LOWER h QUADRANT|w u+LOWER i QUADRANT|w u+UPPER i QUADRANT|w z+UPPER h QUADRANT",
    "w z+LOWER h QUADRANT|w z+LOWER i QUADRANT|w z+UPPER i QUADRANT|UPPER h t|UPPER i t|LOWER h t",
    "w MEDIUM u|b MEDIUM u|w MEDIUM x u|b MEDIUM x u|LOWER i t"]

def symbols : Block where
  first := 0x2600
  names := [
    "b SUN+RAYS|CLOUD|UMBRELLA|SNOWMAN|COMET|b STAR|w STAR|LIGHTNING|THUNDERSTORM|SUN",
    "ASCENDING NODE|DESCENDING NODE|CONJUNCTION|OPPOSITION|b TELEPHONE|w TELEPHONE|BALLOT BOX",
    "BALLOT BOX+CHECK|BALLOT BOX+X|SALTIRE|UMBRELLA+RAIN DROPS|HOT BEVERAGE|w SHOGI PIECE",
    "b SHOGI PIECE|SHAMROCK|REVERSED ROTATED FLORAL HEART BULLET|b h p INDEX|b i p INDEX",
    "w h p INDEX|w UP p INDEX|w i p INDEX|w DOWN p INDEX|SKULL AND CROSSBONES|CAUTION g",
    "RADIOACTIVE g|BIOHAZARD g|CADUCEUS|ANKH|ORTHODOX CROSS|CHI RHO|CROSS OF LORRAINE",
    "CROSS OF JERUSALEM|STAR AND CRESCENT|FARSI s|ADI SHAKTI|HAMMER AND SICKLE|PEACE s|YIN YANG",
    "TRIGRAM FOR HEAVEN|TRIGRAM FOR LAKE|TRIGRAM FOR FIRE|TRIGRAM FOR THUNDER|TRIGRAM FOR WIND",
    "TRIGRAM FOR WATER|TRIGRAM FOR MOUNTAIN|TRIGRAM FOR EARTH|WHEEL OF DHARMA|w FROWNING f",
    "w SMILING f|b SMILING f|w SUN+RAYS|FIRST QUARTER MOON|LAST QUARTER MOON|MERCURY|FEMALE g",
    "EARTH|MALE g|JUPITER|SATURN|URANUS|NEPTUNE|PLUTO|ARIES|TAURUS|GEMINI|CANCER|LEO|VIRGO|LIBRA",
    "SCORPIUS|SAGITTARIUS|CAPRICORN|AQUARIUS|PISCES|w CHESS KING|w CHESS QUEEN|w CHESS ROOK",
    "w CHESS BISHOP|w CHESS KNIGHT|w CHESS PAWN|b CHESS KING|b CHESS QUEEN|b CHESS ROOK",
    "b CHESS BISHOP|b CHESS KNIGHT|b CHESS PAWN|b SPADE SUIT|w HEART SUIT|w DIAMOND SUIT",
    "b CLUB SUIT|w SPADE SUIT|b HEART SUIT|b DIAMOND SUIT|w CLUB SUIT|HOT SPRINGS|QUARTER NOTE",
    "EIGHTH NOTE|BEAMED EIGHTH NOTES|BEAMED SIXTEENTH NOTES|MUSIC FLAT g|MUSIC NATURAL g",
    "MUSIC SHARP g|WEST SYRIAC CROSS|EAST SYRIAC CROSS|UNIVERSAL RECYCLING s",
    "RECYCLING s FOR TYPE-1 PLASTICS|RECYCLING s FOR TYPE-2 PLASTICS",
    "RECYCLING s FOR TYPE-3 PLASTICS|RECYCLING s FOR TYPE-4 PLASTICS",
    "RECYCLING s FOR TYPE-5 PLASTICS|RECYCLING s FOR TYPE-6 PLASTICS",
    "RECYCLING s FOR TYPE-7 PLASTICS|RECYCLING s FOR GENERIC MATERIALS|b UNIVERSAL RECYCLING s",
    "RECYCLED PAPER s|PARTIALLY-RECYCLED PAPER s|PERMANENT PAPER g|WHEELCHAIR s|DIE f-1|DIE f-2",
    "DIE f-3|DIE f-4|DIE f-5|DIE f-6|w z+DOT i|w z+TWO DOTS|b z+w DOT i|b z+TWO w DOTS",
    "MONOGRAM FOR YANG|MONOGRAM FOR YIN|DIGRAM FOR GREATER YANG|DIGRAM FOR LESSER YIN",
    "DIGRAM FOR LESSER YANG|DIGRAM FOR GREATER YIN|w FLAG|b FLAG|HAMMER AND PICK|ANCHOR",
    "CROSSED SWORDS|STAFF OF AESCULAPIUS|SCALES|ALEMBIC|FLOWER|GEAR|STAFF OF HERMES|ATOM s",
    "FLEUR-DE-LIS|OUTLINED w STAR|THREE LINES CONVERGING i|THREE LINES CONVERGING h|WARNING g",
    "HIGH VOLTAGE g|DOUBLED FEMALE g|DOUBLED MALE g|INTERLOCKED FEMALE AND MALE g",
    "MALE AND FEMALE g|MALE+STROKE g|MALE+STROKE AND MALE AND FEMALE g|m MALE+STROKE g",
    "HORIZONTAL MALE+STROKE g|MEDIUM w z|MEDIUM b z|MEDIUM x w z|MARRIAGE s|DIVORCE s",
    "UNMARRIED PARTNERSHIP s|COFFIN|FUNERAL URN|NEUTER|CERES|PALLAS|JUNO|VESTA|CHIRON",
    "b MOON LILITH|SEXTILE|SEMISEXTILE|QUINCUNX|SESQUIQUADRATE|SOCCER BALL|BASEBALL|SQUARED KEY",
    "w DRAUGHTS MAN|w DRAUGHTS KING|b DRAUGHTS MAN|b DRAUGHTS KING|SNOWMAN WITHOUT SNOW",
    "SUN BEHIND CLOUD|RAIN|b SNOWMAN|THUNDER CLOUD AND RAIN|TURNED w SHOGI PIECE",
    "TURNED b SHOGI PIECE|w DIAMOND IN u|CROSSING LANES|DISABLED CAR|OPHIUCHUS|PICK|CAR SLIDING",
    "HELMET+w CROSS|CIRCLED CROSSING LANES|CHAINS|NO ENTRY|ALTERNATE ONE-WAY h WAY TRAFFIC",
    "b TWO-WAY h WAY TRAFFIC|w TWO-WAY h WAY TRAFFIC|b h LANE MERGE|w h LANE MERGE|DRIVE SLOW g",
    "v w DOWN-p t|h CLOSED ENTRY|SQUARED SALTIRE|FALLING DIAGONAL IN w z IN b u|b TRUCK",
    "RESTRICTED h ENTRY-1|RESTRICTED h ENTRY-2|ASTRONOMICAL s FOR URANUS",
    "v z+STROKE AND TWO DOTS ABOVE|PENTAGRAM|i-HANDED INTERLACED PENTAGRAM",
    "h-HANDED INTERLACED PENTAGRAM|INVERTED PENTAGRAM|b CROSS ON SHIELD|SHINTO SHRINE|CHURCH",
    "CASTLE|HISTORIC SITE|GEAR WITHOUT HUB|GEAR+HANDLES|MAP s FOR LIGHTHOUSE|MOUNTAIN",
    "UMBRELLA ON GROUND|FOUNTAIN|FLAG IN HOLE|FERRY|SAILBOAT|u FOUR CORNERS|SKIER|ICE SKATE",
    "PERSON+BALL|TENT|JAPANESE BANK s|HEADSTONE GRAVEYARD s|FUEL PUMP|CUP ON b u",
    "w FLAG+HORIZONTAL MIDDLE b STRIPE"]

def dingbats : Block where
  first := 0x2700
  names := [
    "b SAFETY SCISSORS|UPPER BLADE SCISSORS|b SCISSORS|LOWER BLADE SCISSORS|w SCISSORS",
    "w v CHECK MARK|TELEPHONE LOCATION g|TAPE DRIVE|AIRPLANE|ENVELOPE|RAISED FIST|RAISED HAND",
    "VICTORY HAND|WRITING HAND|LOWER i PENCIL|PENCIL|UPPER i PENCIL|w NIB|b NIB|CHECK MARK",
    "v CHECK MARK|MULTIPLICATION X|v MULTIPLICATION X|BALLOT X|v BALLOT X|OUTLINED GREEK CROSS",
    "v GREEK CROSS|OPEN CENTRE CROSS|v OPEN CENTRE CROSS|LATIN CROSS|SHADOWED w LATIN CROSS",
    "OUTLINED LATIN CROSS|MALTESE CROSS|STAR OF DAVID|FOUR TEARDROP-SPOKED ASTERISK",
    "FOUR BALLOON-SPOKED ASTERISK|v FOUR BALLOON-SPOKED ASTERISK|FOUR CLUB-SPOKED ASTERISK",
    "b FOUR POINTED STAR|w FOUR POINTED STAR|SPARKLES|STRESS OUTLINED w STAR|CIRCLED w STAR",
    "OPEN CENTRE b STAR|b CENTRE w STAR|OUTLINED b STAR|v OUTLINED b STAR|PINWHEEL STAR",
    "SHADOWED w STAR|v ASTERISK|OPEN CENTRE ASTERISK|EIGHT SPOKED ASTERISK|EIGHT POINTED b STAR",
    "EIGHT POINTED PINWHEEL STAR|SIX POINTED b STAR|EIGHT POINTED RECTILINEAR b STAR",
    "v EIGHT POINTED RECTILINEAR b STAR|TWELVE POINTED b STAR|SIXTEEN POINTED ASTERISK",
    "TEARDROP-SPOKED ASTERISK|OPEN CENTRE TEARDROP-SPOKED ASTERISK|v TEARDROP-SPOKED ASTERISK",
    "SIX PETALLED b AND w FLORETTE|b FLORETTE|w FLORETTE|EIGHT PETALLED OUTLINED b FLORETTE",
    "CIRCLED OPEN CENTRE EIGHT POINTED STAR|v TEARDROP-SPOKED PINWHEEL ASTERISK|SNOWFLAKE",
    "TIGHT TRIFOLIATE SNOWFLAKE|v CHEVRON SNOWFLAKE|SPARKLE|v SPARKLE|BALLOON-SPOKED ASTERISK",
    "EIGHT TEARDROP-SPOKED PROPELLER ASTERISK|v EIGHT TEARDROP-SPOKED PROPELLER ASTERISK",
    "CROSS MARK|SHADOWED w z|NEGATIVE SQUARED CROSS MARK|LOWER i DROP-SHADOWED w u",
    "UPPER i DROP-SHADOWED w u|LOWER i SHADOWED w u|UPPER i SHADOWED w u|b QUESTION MARK y",
    "w QUESTION MARK y|w EXCLAMATION MARK y|b DIAMOND MINUS w X|v EXCLAMATION MARK s|LIGHT m BAR",
    "MEDIUM m BAR|v m BAR|v SINGLE TURNED COMMA q y|v SINGLE COMMA q y|v o TURNED COMMA q y",
    "v o COMMA q y|v LOW SINGLE COMMA q y|v LOW o COMMA q y|CURVED STEM PARAGRAPH g y",
    "v EXCLAMATION MARK y|v HEART EXCLAMATION MARK y|v b HEART|ROTATED v b HEART BULLET",
    "FLORAL HEART|ROTATED FLORAL HEART BULLET|MEDIUM h PARENTHESIS y|MEDIUM i PARENTHESIS y",
    "MEDIUM FLATTENED h PARENTHESIS y|MEDIUM FLATTENED i PARENTHESIS y|MEDIUM h-p ANGLE BRACKET y",
    "MEDIUM i-p ANGLE BRACKET y|v h-p ANGLE q y|v i-p ANGLE q y|v h-p ANGLE BRACKET y",
    "v i-p ANGLE BRACKET y|LIGHT h TORTOISE SHELL BRACKET y|LIGHT i TORTOISE SHELL BRACKET y",
    "MEDIUM h CURLY BRACKET y|MEDIUM i CURLY BRACKET y|d DIGIT ONE|d DIGIT TWO|d DIGIT THREE",
    "d DIGIT FOUR|d DIGIT FIVE|d DIGIT SIX|d DIGIT SEVEN|d DIGIT EIGHT|d DIGIT NINE|d NUMBER TEN",
    "DINGBAT CIRCLED n ONE|DINGBAT CIRCLED n TWO|DINGBAT CIRCLED n THREE|DINGBAT CIRCLED n FOUR",
    "DINGBAT CIRCLED n FIVE|DINGBAT CIRCLED n SIX|DINGBAT CIRCLED n SEVEN|DINGBAT CIRCLED n EIGHT",
    "DINGBAT CIRCLED n NINE|DINGBAT CIRCLED SANS-SERIF NUMBER TEN|d n ONE|d n TWO|d n THREE",
    "d n FOUR|d n FIVE|d n SIX|d n SEVEN|d n EIGHT|d n NINE|d SANS-SERIF NUMBER TEN",
    "v WIDE-HEADED r|v PLUS g|v MINUS g|v DIVISION g|v SOUTH EAST a|v r|v NORTH EAST a",
    "DRAFTING POINT r|v ROUND-TIPPED r|t-HEADED r|v t-HEADED r|DASHED t-HEADED r",
    "v DASHED t-HEADED r|b r|THREE-D TOP-LIGHTED j ARROWHEAD|THREE-D BOTTOM-LIGHTED j ARROWHEAD",
    "b j ARROWHEAD|v b CURVED DOWNWARDS AND r|v b CURVED UPWARDS AND r|SQUAT b r",
    "v CONCAVE-POINTED b r|i-SHADED w r|h-SHADED w r|BACK-TILTED SHADOWED w r",
    "FRONT-TILTED SHADOWED w r|v LOWER i-SHADOWED w r|v UPPER i-SHADOWED w r",
    "NOTCHED LOWER i-SHADOWED w r|CURLY LOOP|NOTCHED UPPER i-SHADOWED w r|CIRCLED v w r",
    "w-FEATHERED r|b-FEATHERED SOUTH EAST a|b-FEATHERED r|b-FEATHERED NORTH EAST a",
    "v b-FEATHERED SOUTH EAST a|v b-FEATHERED r|v b-FEATHERED NORTH EAST a|TEARDROP-BARBED r",
    "v TEARDROP-SHANKED r|WEDGE-TAILED r|v WEDGE-TAILED r|OPEN-OUTLINED r|o CURLY LOOP"]

def faces : Block where
  first := 0x1F600
  names := [
    "GRINNING f|GRINNING f+SMILING EYES|f+TEARS OF JOY|SMILING f+OPEN MOUTH",
    "SMILING f+OPEN MOUTH AND SMILING EYES|SMILING f+OPEN MOUTH AND COLD SWEAT",
    "SMILING f+OPEN MOUTH AND TIGHTLY-CLOSED EYES|SMILING f+HALO|SMILING f+HORNS|WINKING f",
    "SMILING f+SMILING EYES|f SAVOURING DELICIOUS FOOD|RELIEVED f|SMILING f+HEART-SHAPED EYES",
    "SMILING f+SUNGLASSES|SMIRKING f|NEUTRAL f|EXPRESSIONLESS f|UNAMUSED f|f+COLD SWEAT|PENSIVE f",
    "CONFUSED f|CONFOUNDED f|KISSING f|f THROWING A KISS|KISSING f+SMILING EYES",
    "KISSING f+CLOSED EYES|f+STUCK-OUT TONGUE|f+STUCK-OUT TONGUE AND WINKING EYE",
    "f+STUCK-OUT TONGUE AND TIGHTLY-CLOSED EYES|DISAPPOINTED f|WORRIED f|ANGRY f|POUTING f",
    "CRYING f|PERSEVERING f|f+LOOK OF TRIUMPH|DISAPPOINTED BUT RELIEVED f|FROWNING f+OPEN MOUTH",
    "ANGUISHED f|FEARFUL f|WEARY f|SLEEPY f|TIRED f|GRIMACING f|LOUDLY CRYING f|f+OPEN MOUTH",
    "HUSHED f|f+OPEN MOUTH AND COLD SWEAT|f SCREAMING IN FEAR|ASTONISHED f|FLUSHED f|SLEEPING f",
    "DIZZY f|f WITHOUT MOUTH|f+MEDICAL MASK|GRINNING CAT f+SMILING EYES|CAT f+TEARS OF JOY",
    "SMILING CAT f+OPEN MOUTH|SMILING CAT f+HEART-SHAPED EYES|CAT f+WRY SMILE",
    "KISSING CAT f+CLOSED EYES|POUTING CAT f|CRYING CAT f|WEARY CAT f|SLIGHTLY FROWNING f",
    "SLIGHTLY SMILING f|UPSIDE-DOWN f|f+ROLLING EYES|f+NO GOOD GESTURE|f+OK GESTURE",
    "PERSON BOWING DEEPLY|SEE-NO-EVIL MONKEY|HEAR-NO-EVIL MONKEY|SPEAK-NO-EVIL MONKEY",
    "HAPPY PERSON RAISING ONE HAND|PERSON RAISING BOTH HANDS IN CELEBRATION|PERSON FROWNING",
    "PERSON+POUTING f|PERSON+FOLDED HANDS"]

def transport : Block where
  first := 0x1F680
  names := [
    "ROCKET|HELICOPTER|STEAM LOCOMOTIVE|RAILWAY CAR|HIGH-SPEED TRAIN|HIGH-SPEED TRAIN+BULLET NOSE",
    "TRAIN|METRO|LIGHT RAIL|STATION|TRAM|TRAM CAR|BUS|ONCOMING BUS|TROLLEYBUS|BUS STOP|MINIBUS",
    "AMBULANCE|FIRE ENGINE|POLICE CAR|ONCOMING POLICE CAR|TAXI|ONCOMING TAXI|AUTOMOBILE",
    "ONCOMING AUTOMOBILE|RECREATIONAL VEHICLE|DELIVERY TRUCK|ARTICULATED LORRY|TRACTOR|MONORAIL",
    "MOUNTAIN RAILWAY|SUSPENSION RAILWAY|MOUNTAIN CABLEWAY|AERIAL TRAMWAY|SHIP|ROWBOAT|SPEEDBOAT",
    "HORIZONTAL TRAFFIC LIGHT|m TRAFFIC LIGHT|CONSTRUCTION g|POLICE CARS REVOLVING LIGHT",
    "TRIANGULAR FLAG ON POST|DOOR|NO ENTRY g|SMOKING s|NO SMOKING s|PUT LITTER IN ITS PLACE s",
    "DO NOT LITTER s|POTABLE WATER s|NON-POTABLE WATER s|BICYCLE|NO BICYCLES|BICYCLIST",
    "MOUNTAIN BICYCLIST|PEDESTRIAN|NO PEDESTRIANS|CHILDREN CROSSING|MENS s|WOMENS s|RESTROOM",
    "BABY s|TOILET|WATER CLOSET|SHOWER|BATH|BATHTUB|PASSPORT CONTROL|CUSTOMS|BAGGAGE CLAIM",
    "h LUGGAGE|t+ROUNDED CORNERS|PROHIBITED g|CIRCLED INFORMATION SOURCE|BOYS s|GIRLS s",
    "COUCH AND LAMP|SLEEPING ACCOMMODATION|SHOPPING BAGS|BELLHOP BELL|BED|PLACE OF WORSHIP",
    "OCTAGONAL g|SHOPPING TROLLEY|STUPA|PAGODA|HINDU TEMPLE|HUT|ELEVATOR||||||PLAYGROUND SLIDE",
    "WHEEL|RING BUOY|HAMMER AND WRENCH|SHIELD|OIL DRUM|MOTORWAY|RAILWAY TRACK|MOTOR BOAT",
    "UP-p MILITARY AIRPLANE|UP-p AIRPLANE|UP-p x AIRPLANE|x AIRPLANE|NORTHEAST-p AIRPLANE",
    "AIRPLANE DEPARTURE|AIRPLANE ARRIVING||||SATELLITE|ONCOMING FIRE ENGINE|DIESEL LOCOMOTIVE",
    "PASSENGER SHIP|SCOOTER|MOTOR SCOOTER|CANOE|SLED|FLYING SAUCER|SKATEBOARD|AUTO RICKSHAW",
    "PICKUP TRUCK|ROLLER SKATE"]

def others : List (String × Nat) :=
  [("NULL", 0x0), ("NUL", 0x0), ("ALERT", 0x7), ("BEL", 0x7), ("BACKSPACE", 0x8), ("BS", 0x8),
   ("CHARACTER TABULATION", 0x9), ("HORIZONTAL TABULATION", 0x9), ("TAB", 0x9), ("HT", 0x9),
   ("LINE FEED", 0xA), ("NEW LINE", 0xA), ("END OF LINE", 0xA), ("LF", 0xA), ("NL", 0xA),
   ("EOL", 0xA), ("LINE TABULATION", 0xB), ("VERTICAL TABULATION", 0xB), ("VT", 0xB),
   ("FORM FEED", 0xC), ("FF", 0xC), ("CARRIAGE RETURN", 0xD), ("CR", 0xD), ("ESCAPE", 0x1B),
   ("ESC", 0x1B), ("DELETE", 0x7F), ("DEL", 0x7F), ("NEXT LINE", 0x85), ("NEL", 0x85),
   ("SP", 0x20), ("NBSP", 0xA0), ("SHY", 0xAD), ("ZWSP", 0x200B), ("ZWNJ", 0x200C),
   ("ZWJ", 0x200D), ("LRM", 0x200E), ("RLM", 0x200F), ("BYTE ORDER MARK", 0xFEFF),
   ("BOM", 0xFEFF), ("ZERO WIDTH NO-BREAK SPACE", 0xFEFF), ("REPLACEMENT CHARACTER", 0xFFFD),
   ("SUBSTITUTE", 0x1A), ("SUB", 0x1A)]

def blocks : List Block :=
  [basic, latin, greek, cyrillic, punctuation, currency, letterlike, arrows, mathematics,
   shapes, symbols, dingbats, faces, transport]

def Block.spelled (block : Block) (item : String) : List String :=
  let letters := item.toList.flatMap fun c => ((shortWords.lookup c).map String.toList).getD [c]
  let letter (case : String) (rest : List Char) :=
    block.script ++ " " ++ case ++ " LETTER " ++ String.ofList rest
  match letters with
  | '^' :: rest => [letter "CAPITAL" rest]
  | '_' :: rest => [letter "SMALL" rest]
  | '~' :: rest => [letter "CAPITAL" rest, letter "SMALL" rest]
  | _ => [String.ofList letters]

def Block.find? (block : Block) (name : String) : Option Nat :=
  (((block.names.flatMap (split "|")).flatMap block.spelled).findIdx? (· == name)).map
    (block.first + ·)

end CharacterName

def characterNamed? (name : String) : Option Char :=
  let name := name.toUpper
  if name.isEmpty then none
  else
    let code := CharacterName.others.lookup name <|>
      CharacterName.blocks.findSome? (·.find? name)
    code.map Char.ofNat

end Colloquy.Text
