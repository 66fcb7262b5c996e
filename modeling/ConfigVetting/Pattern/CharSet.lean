import ConfigVetting.Text.Blank
import ConfigVetting.Unicode.CaseFolding
import ConfigVetting.Unicode.Letter
import ConfigVetting.Unicode.Script

/-! # Sets of characters

The sets that a pattern can write down, with the properties of Unicode they are built from.
-/

namespace ConfigVetting.Pattern

/-- A property that a set can ask for by name. -/
inductive Property where
  | digit
  | blank
  | word
  | alphabetic
  | uppercase
  | lowercase
  | ascii
  | hexDigit
  /-- General categories whose two letters start in one of the given ways. -/
  | category (starts : List String)
  | script (code : String)
  deriving DecidableEq, Repr

/-- Whether a character is a hexadecimal digit, of ASCII or in its wide form. -/
def isHexDigit (c : Char) : Bool :=
  let code := c.toNat
  let near (base : Nat) : Bool :=
    (base + 0x30 ≤ code && code ≤ base + 0x39) || (base + 0x41 ≤ code && code ≤ base + 0x46) ||
      (base + 0x61 ≤ code && code ≤ base + 0x66)
  near 0 || near 0xFEE0

/-- Whether a character has a property. -/
def Property.holds : Property → Char → Bool
  | digit, c => Unicode.isDigit c
  | blank, c => Text.isBlank c
  | word, c => Unicode.isWord c
  | alphabetic, c => Unicode.isAlphabetic c
  | uppercase, c => Unicode.isUppercase c
  | lowercase, c => Unicode.isLowercase c
  | ascii, c => c.toNat < 0x80
  | hexDigit, c => isHexDigit c
  | category starts, c => starts.any fun start => start.toList.isPrefixOf (Unicode.category c).toList
  | script code, c => Unicode.script c == code

/-- A set of characters as a pattern writes it. -/
inductive CharSet where
  | empty
  | range (first last : Nat)
  | property (property : Property)
  | union (left right : CharSet)
  | inter (left right : CharSet)
  | diff (left right : CharSet)
  | symmDiff (left right : CharSet)
  | compl (set : CharSet)
  /-- With every character also those that differ from it only in case. -/
  | folded (set : CharSet)
  deriving Repr

namespace CharSet

/-- The set of one character. -/
def single (c : Char) : CharSet :=
  range c.toNat c.toNat

/-- All characters. -/
def all : CharSet :=
  compl empty

/-- The union of some ranges. -/
def ranges (bounds : List (Char × Char)) : CharSet :=
  bounds.foldl (fun set (first, last) => union set (range first.toNat last.toNat)) empty

/-- Whether a character is in a set. -/
def contains : CharSet → Char → Bool
  | empty, _ => false
  | range first last, c => first ≤ c.toNat && c.toNat ≤ last
  | property p, c => p.holds c
  | union left right, c => left.contains c || right.contains c
  | inter left right, c => left.contains c && right.contains c
  | diff left right, c => left.contains c && !right.contains c
  | symmDiff left right, c => left.contains c != right.contains c
  | compl set, c => !set.contains c
  | folded set, c => (Unicode.caseVariants c).any fun variant => set.contains variant

/-- The digits, blanks and word characters of ASCII. -/
def asciiDigit : CharSet :=
  ranges [('0', '9')]

/-- The blanks of ASCII. -/
def asciiBlank : CharSet :=
  ranges [('\t', '\r'), (' ', ' ')]

/-- The word characters of ASCII. -/
def asciiWord : CharSet :=
  ranges [('0', '9'), ('A', 'Z'), ('_', '_'), ('a', 'z')]

/-- The classes of ASCII that can be named between brackets and colons. -/
def asciiClass? (name : String) : Option CharSet :=
  [("alnum", ranges [('0', '9'), ('A', 'Z'), ('a', 'z')]),
    ("alpha", ranges [('A', 'Z'), ('a', 'z')]),
    ("ascii", range 0 0x7F),
    ("blank", ranges [('\t', '\t'), (' ', ' ')]),
    ("cntrl", union (range 0 0x1F) (range 0x7F 0x7F)),
    ("digit", asciiDigit),
    ("graph", ranges [('!', '~')]),
    ("lower", ranges [('a', 'z')]),
    ("print", ranges [(' ', '~')]),
    ("punct", ranges [('!', '/'), (':', '@'), ('[', '\x60'), ('\x7b', '~')]),
    ("space", asciiBlank),
    ("upper", ranges [('A', 'Z')]),
    ("word", asciiWord),
    ("xdigit", ranges [('0', '9'), ('A', 'F'), ('a', 'f')])].lookup name

/-- A property name in lower case, without word breaks and a leading "is". -/
def plainName (name : String) : String :=
  let kept := (name.toList.filter fun c => c != ' ' && c != '_' && c != '-').map Char.toLower
  match kept with
  | 'i' :: 's' :: rest => if rest = [] || rest = ['c'] then String.ofList kept else String.ofList rest
  | _ => String.ofList kept

/-- The categories that a plain name asks for. -/
def categorySet? (plain : String) : Option CharSet :=
  if plain = "any" then some all
  else if plain = "assigned" then some (compl (property (.category ["Cn"])))
  else if plain = "ascii" then some (property .ascii)
  else (Unicode.categoryStarts? plain).map fun starts => property (.category starts)

/-- The script that a plain name asks for. -/
def scriptSet? (plain : String) : Option CharSet :=
  (Unicode.scriptCode? plain).map fun code => property (.script code)

/-- The two-valued property that a plain name asks for. -/
def binarySet? (plain : String) : Option CharSet :=
  ([("alphabetic", .alphabetic), ("alpha", .alphabetic), ("lowercase", .lowercase),
    ("lower", .lowercase), ("uppercase", .uppercase), ("upper", .uppercase),
    ("whitespace", .blank), ("wspace", .blank), ("space", .blank), ("hexdigit", .hexDigit),
    ("hex", .hexDigit)].lookup plain).map property

/-- The set that a property name asks for: a two-valued property, a category or a script. -/
def named? (name : String) : Option CharSet :=
  let plain := plainName name
  (binarySet? plain).orElse fun _ => (categorySet? plain).orElse fun _ => scriptSet? plain

/-- The set of the characters whose property has a value. -/
def valued? (name value : String) : Option CharSet :=
  let plain := plainName name
  if plain = "generalcategory" || plain = "gc" then categorySet? (plainName value)
  else if plain = "script" || plain = "sc" || plain = "scriptextensions" || plain = "scx" then
    scriptSet? (plainName value)
  else none

end CharSet

end ConfigVetting.Pattern
