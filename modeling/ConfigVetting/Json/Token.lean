import ConfigVetting.Json.Value
import ConfigVetting.Text.Numeral

/-! # JSON tokens

Reading a text into the tokens of JSON, one character at a time: the state says what the characters
since the last token may become. A text is refused at the first character that fits no token.
-/

namespace ConfigVetting

namespace Number

/-- The longest run of leading digits that fits 64 bits, and how many digits follow it. -/
def leadingWord (value : Nat) : List Char → Nat × Nat
  | [] => (value, 0)
  | c :: rest =>
    let next := 10 * value + (c.toNat - '0'.toNat)
    if next ≤ Text.nat64Greatest then leadingWord next rest else (value, rest.length + 1)

/-- `word * 10^exponent` with one rounding for the word, one for the power and one for the result;
far exponents are taken off in steps of 308. -/
def scaleReal (value : Binary64) (exponent : Int) : Nat → Option Binary64
  | 0 => some value
  | steps + 1 =>
    if exponent.natAbs ≤ 308 then
      match Binary64.ofQuotient? (Nat.pow 10 exponent.natAbs) 1 with
      | none => none
      | some power => if exponent < 0 then value.div? power else value.mul? power
    else if value.isZero then some value
    else if 0 ≤ exponent then none
    else
      match (Binary64.ofQuotient? (Nat.pow 10 308) 1).bind value.div? with
      | none => none
      | some smaller => scaleReal smaller (exponent + 308) steps

/-- A number with a fraction or an exponent, or too long to stay whole. Only the leading digits that
fit 64 bits count. -/
def readReal (negative : Bool) (wholeDigits fraction : List Char) (exponent : Int) :
    Option Number := do
  let (word, dropped) := leadingWord 0 wholeDigits
  let (word, unread) := leadingWord word fraction
  let scale := exponent + dropped - (fraction.length - unread : Nat)
  let value ← (Binary64.ofQuotient? word 1).bind
    fun start => scaleReal start scale (scale.natAbs / 308 + 2)
  some (.real (if negative then value.neg else value))

/-- A whole number: exact if it has a sign and fits 64 bits, or has none and fits 64 bits. Minus
zero is a number of double precision. -/
def readWhole (negative : Bool) (digits : List Char) : Option Number :=
  match Text.digits? digits with
  | none => none
  | some value =>
    if !negative && value ≤ Text.nat64Greatest then some (.whole value)
    else if negative && 0 < value && Text.int64Least ≤ -(value : Int) then
      some (.whole (-(value : Int)))
    else readReal negative digits [] 0

/-- The exponent after its letter: an optional sign and digits; far ones are cut at a bound that no
other can be told from. -/
def readExponent : List Char → Option Int
  | '+' :: digits => (Text.digits? digits).map fun value => min value (Nat.pow 10 9)
  | '-' :: digits => (Text.digits? digits).map fun value => -min (value : Int) (Int.pow 10 9)
  | digits => (Text.digits? digits).map fun value => min value (Nat.pow 10 9)

/-- A number after its sign: digits without a leading zero, then a fraction, then an exponent. -/
def readUnsigned (negative : Bool) (text : List Char) : Option Number :=
  let digits := text.takeWhile Char.isDigit
  let rest := text.dropWhile Char.isDigit
  if digits.isEmpty || (digits.length > 1 && digits.head? == some '0') then none
  else
    match rest with
    | [] => readWhole negative digits
    | '.' :: rest =>
      let fraction := rest.takeWhile Char.isDigit
      if fraction.isEmpty then none
      else
        match rest.dropWhile Char.isDigit with
        | [] => readReal negative digits fraction 0
        | mark :: exponent =>
          if mark = 'e' || mark = 'E' then
            (readExponent exponent).bind (readReal negative digits fraction)
          else none
    | mark :: exponent =>
      if mark = 'e' || mark = 'E' then
        (readExponent exponent).bind (readReal negative digits [])
      else none

/-- A number as JSON writes it. -/
def read? : List Char → Option Number
  | '-' :: text => readUnsigned true text
  | text => readUnsigned false text

end Number

namespace Json

/-- The tokens of JSON. -/
inductive Token where
  | openObject
  | closeObject
  | openArray
  | closeArray
  | colon
  | comma
  | null
  | bool (value : Bool)
  | number (value : Number)
  | text (value : String)
  deriving DecidableEq, Repr

/-- What the characters since the last token may become; collected characters are held in reverse.
The code of a text escape is read digit by digit, and one that is the first half of a pair waits for
the second half. -/
inductive Scan where
  | between
  | word (letters : List Char)
  | number (characters : List Char)
  | text (characters : List Char)
  | escape (characters : List Char)
  | code (characters : List Char) (firstHalf : Option Nat) (digitsLeft value : Nat)
  | secondHalf (characters : List Char) (firstHalf : Nat)
  | secondHalfMark (characters : List Char) (firstHalf : Nat)

/-- The value of a hexadecimal digit. -/
def hexValue (c : Char) : Option Nat :=
  if c.isDigit then some (c.toNat - '0'.toNat)
  else if 'a' ≤ c && c ≤ 'f' then some (c.toNat - 'a'.toNat + 10)
  else if 'A' ≤ c && c ≤ 'F' then some (c.toNat - 'A'.toNat + 10)
  else none

/-- The character of a one-letter escape. -/
def shortEscape (c : Char) : Option Char :=
  if c = '\x22' || c = '\\' || c = '/' then some c
  else if c = 'b' then some '\x08'
  else if c = 'f' then some '\x0c'
  else if c = 'n' then some '\n'
  else if c = 'r' then some '\r'
  else if c = 't' then some '\t'
  else none

/-- The token of a word. -/
def wordToken (letters : List Char) : Option Token :=
  if letters = ['n', 'u', 'l', 'l'] then some .null
  else if letters = ['t', 'r', 'u', 'e'] then some (.bool true)
  else if letters = ['f', 'a', 'l', 's', 'e'] then some (.bool false)
  else none

/-- Whether a character may stand in a number. -/
def isNumberChar (c : Char) : Bool :=
  c.isDigit || c = '-' || c = '+' || c = '.' || c = 'e' || c = 'E'

/-- The next state after a character between tokens, with the token that the character is. -/
def scanBetween (c : Char) : Option (Scan × List Token) :=
  if c = ' ' || c = '\t' || c = '\n' || c = '\r' then some (.between, [])
  else if c = '\x7b' then some (.between, [.openObject])
  else if c = '\x7d' then some (.between, [.closeObject])
  else if c = '[' then some (.between, [.openArray])
  else if c = ']' then some (.between, [.closeArray])
  else if c = ':' then some (.between, [.colon])
  else if c = ',' then some (.between, [.comma])
  else if c = '\x22' then some (.text [], [])
  else if c.isDigit || c = '-' then some (.number [c], [])
  else if c.isLower then some (.word [c], [])
  else none

/-- A token, then the character after it. -/
def scanAfter (token : Option Token) (c : Char) : Option (Scan × List Token) := do
  let token ← token
  let (state, tokens) ← scanBetween c
  some (state, token :: tokens)

/-- A code read to its end: a character, or the first half of a pair. -/
def scanCode (characters : List Char) (firstHalf : Option Nat) (value : Nat) :
    Option (Scan × List Token) :=
  match firstHalf with
  | none =>
    if 0xD800 ≤ value && value < 0xDC00 then some (.secondHalf characters value, [])
    else if 0xDC00 ≤ value && value < 0xE000 then none
    else some (.text (Char.ofNat value :: characters), [])
  | some first =>
    if 0xDC00 ≤ value && value < 0xE000 then
      let code := 0x10000 + (first - 0xD800) * 0x400 + (value - 0xDC00)
      some (.text (Char.ofNat code :: characters), [])
    else none

/-- The state and the tokens after one more character. -/
def scanStep : Scan → Char → Option (Scan × List Token)
  | .between, c => scanBetween c
  | .word letters, c =>
    if c.isAlphanum then some (.word (c :: letters), [])
    else scanAfter (wordToken letters.reverse) c
  | .number characters, c =>
    if isNumberChar c then some (.number (c :: characters), [])
    else scanAfter ((Number.read? characters.reverse).map .number) c
  | .text characters, c =>
    if c = '\x22' then some (.between, [.text (String.ofList characters.reverse)])
    else if c = '\\' then some (.escape characters, [])
    else if c.toNat < 0x20 then none
    else some (.text (c :: characters), [])
  | .escape characters, c =>
    if c = 'u' then some (.code characters none 4 0, [])
    else (shortEscape c).map fun escaped => (.text (escaped :: characters), [])
  | .code characters firstHalf digitsLeft value, c => do
    let digit ← hexValue c
    if digitsLeft ≤ 1 then scanCode characters firstHalf (16 * value + digit)
    else some (.code characters firstHalf (digitsLeft - 1) (16 * value + digit), [])
  | .secondHalf characters firstHalf, c =>
    if c = '\\' then some (.secondHalfMark characters firstHalf, []) else none
  | .secondHalfMark characters firstHalf, c =>
    if c = 'u' then some (.code characters (some firstHalf) 4 0, []) else none

/-- The tokens of the characters of a text, read from a state. -/
def tokensFrom : Scan → List Char → Option (List Token)
  | .between, [] => some []
  | .word letters, [] => (wordToken letters.reverse).map fun token => [token]
  | .number characters, [] => (Number.read? characters.reverse).map fun value => [.number value]
  | _, [] => none
  | state, c :: rest =>
    match scanStep state c with
    | none => none
    | some (next, tokens) => (tokensFrom next rest).map (tokens ++ ·)

/-- The tokens of a text, if it is made of tokens and blanks. -/
def tokens? (text : String) : Option (List Token) :=
  tokensFrom .between text.toList

end Json

end ConfigVetting
