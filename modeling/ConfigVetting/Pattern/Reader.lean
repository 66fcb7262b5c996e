import ConfigVetting.Pattern.Expr
import ConfigVetting.Text.Cut
import ConfigVetting.Text.Numeral

/-! # Reading patterns

Patterns are read from left to right with the open groups on a stack, and sets with the open
brackets and set operators on another. A step reads at least one character, so the length of the
text bounds the number of steps.
-/

namespace ConfigVetting.Pattern

/-- The switches in force at a place of a pattern. -/
structure Switches where
  /-- Letters match in either case. -/
  caseless : Bool := false
  /-- Line ends count as ends for the anchors. -/
  lines : Bool := false
  /-- The dot matches line ends. -/
  dotAll : Bool := false
  /-- Classes know all of Unicode, not only ASCII. -/
  unicode : Bool := true
  /-- A carriage return and a newline end a line together. -/
  crlf : Bool := false
  /-- Blanks and comments between the parts of a pattern are ignored. -/
  spaced : Bool := false

/-- The rest of a pattern after blanks and comments. -/
def afterSpace (inComment : Bool) : List Char → List Char
  | [] => []
  | c :: rest =>
    if inComment then afterSpace (c != '\n') rest
    else if Text.isBlank c then afterSpace false rest
    else if c = '#' then afterSpace true rest
    else c :: rest

/-- The rest of a pattern after what is ignored there. -/
def Switches.skip (switches : Switches) (text : List Char) : List Char :=
  if switches.spaced then afterSpace false text else text

/-- The smallest thing that a pattern or a set is made of. -/
inductive Primitive where
  | char (c : Char)
  /-- A character written by a code of two digits. -/
  | byte (c : Char)
  | look (condition : Look)
  | set (set : CharSet)

/-- The characters that stand for themselves only after a backslash. -/
def isMeta (c : Char) : Bool :=
  ['\\', '.', '+', '*', '?', '(', ')', '|', '[', ']', '\x7b', '\x7d', '^', '$', '#', '&', '-',
    '~'].contains c

/-- Whether a backslash before a character changes nothing. -/
def isEscapable (c : Char) : Bool :=
  isMeta c || (c.toNat < 0x80 && !c.isAlphanum && c != '<' && c != '>')

/-- The value of a hexadecimal digit. -/
def hexDigit? (c : Char) : Option Nat :=
  if c.isDigit then some (c.toNat - '0'.toNat)
  else if 'a' ≤ c && c ≤ 'f' then some (c.toNat - 'a'.toNat + 10)
  else if 'A' ≤ c && c ≤ 'F' then some (c.toNat - 'A'.toNat + 10)
  else none

/-- The character of a code. -/
def charOfCode? (digits : List Char) : Option Char := do
  if digits.isEmpty then none
  let values ← digits.mapM hexDigit?
  let code := values.foldl (fun code value => min (16 * code + value) 0x110000) 0
  if h : code.isValidChar then some (Char.ofNatAux code h) else none

/-- A character written by its code: digits in braces, or as many digits as the letter asks for. -/
def readCode (switches : Switches) (letter : Char) (text : List Char) :
    Option (Primitive × List Char) :=
  match switches.skip text with
  | '\x7b' :: rest => do
    let (digits, after) ← (rest.span (· != '\x7d')).2.head?.map fun _ => rest.span (· != '\x7d')
    let c ← charOfCode? (digits.filter fun c => !(switches.spaced && Text.isBlank c))
    some (.char c, after.drop 1)
  | rest => do
    let count := if letter = 'x' then 2 else if letter = 'u' then 4 else 8
    let digits := rest.take count
    if digits.length < count then none
    let c ← charOfCode? digits
    some (if letter = 'x' then .byte c else .char c, rest.drop count)

/-- A class asked for by its name in braces or by one letter. -/
def readProperty (switches : Switches) (negated : Bool) (text : List Char) :
    Option (Primitive × List Char) := do
  if !switches.unicode then none
  let (set, rest) ←
    match switches.skip text with
    | '\x7b' :: rest =>
      let (name, after) := rest.span (· != '\x7d')
      if after.isEmpty then none
      else
        let name := String.ofList name
        let set :=
          match Text.cutChars ['!', '='] name.toList with
          | some (property, value) =>
            (CharSet.valued? (String.ofList property) (String.ofList value)).map CharSet.compl
          | none =>
            match (Text.cutChars [':'] name.toList).orElse fun _ =>
                Text.cutChars ['='] name.toList with
            | some (property, value) =>
              CharSet.valued? (String.ofList property) (String.ofList value)
            | none => CharSet.named? name
        set.map fun set => (set, after.drop 1)
    | c :: rest =>
      if c = '\\' then none else (CharSet.named? (String.singleton c)).map fun set => (set, rest)
    | [] => none
  let set := if switches.caseless then .folded set else set
  some (.set (if negated then .compl set else set), rest)

/-- A class named by one letter: digits, blanks or word characters, or all others. -/
def letterClass? (switches : Switches) (c : Char) : Option CharSet :=
  let pick (unicode : Property) (ascii : CharSet) : CharSet :=
    if switches.unicode then .property unicode else ascii
  if c = 'd' then some (pick .digit .asciiDigit)
  else if c = 's' then some (pick .blank .asciiBlank)
  else if c = 'w' then some (pick .word .asciiWord)
  else if c = 'D' then some (.compl (pick .digit .asciiDigit))
  else if c = 'S' then some (.compl (pick .blank .asciiBlank))
  else if c = 'W' then some (.compl (pick .word .asciiWord))
  else none

/-- A word boundary, with its kind in braces if that is what the braces hold. -/
def readBoundary (switches : Switches) (text : List Char) : Option (Primitive × List Char) :=
  let ascii := !switches.unicode
  let plain : Primitive × List Char := (.look (.wordBoundary ascii), text)
  match text with
  | '\x7b' :: rest =>
    let isKindChar (c : Char) : Bool := c.isAlpha || c = '-'
    match switches.skip rest with
    | [] => none
    | c :: more =>
      if !isKindChar c then some plain
      else
        let (kind, after) := (c :: more).span isKindChar
        match after with
        | '\x7d' :: after =>
          if kind = "start".toList then some (.look (.wordStart ascii), after)
          else if kind = "end".toList then some (.look (.wordEnd ascii), after)
          else if kind = "start-half".toList then some (.look (.wordStartHalf ascii), after)
          else if kind = "end-half".toList then some (.look (.wordEndHalf ascii), after)
          else none
        | _ => none
  | _ => some plain

/-- The character of an escape by letter. -/
def controlChar? (c : Char) : Option Char :=
  [('a', '\x07'), ('f', '\x0c'), ('t', '\t'), ('n', '\n'), ('r', '\r'), ('v', '\x0b')].lookup c

/-- What follows a backslash. There are no references to groups and no octal codes. -/
def readEscape (switches : Switches) : List Char → Option (Primitive × List Char)
  | [] => none
  | c :: rest =>
    let ascii := !switches.unicode
    if c = 'x' || c = 'u' || c = 'U' then readCode switches c rest
    else if c = 'p' || c = 'P' then readProperty switches (c = 'P') rest
    else
      match letterClass? switches c with
      | some set => some (.set set, rest)
      | none =>
        if isEscapable c then some (.char c, rest)
        else
          match controlChar? c with
          | some control => some (.char control, rest)
          | none =>
            if c = 'A' then some (.look .textStart, rest)
            else if c = 'z' then some (.look .textEnd, rest)
            else if c = 'b' then readBoundary switches rest
            else if c = 'B' then some (.look (.notWordBoundary ascii), rest)
            else if c = '<' then some (.look (.wordStart ascii), rest)
            else if c = '>' then some (.look (.wordEnd ascii), rest)
            else none

/-- The operators between sets. -/
inductive SetOperator where
  | inter
  | diff
  | symmDiff

/-- The result of an operator. -/
def SetOperator.apply (operator : SetOperator) (left right : CharSet) : CharSet :=
  match operator with
  | inter => .inter left right
  | diff => .diff left right
  | symmDiff => .symmDiff left right

/-- What waits for the set that is being read: the set before an inner bracket, or the left side of
an operator. -/
inductive SetFrame where
  | bracket (outer : CharSet) (negated : Bool)
  | operator (operator : SetOperator) (left : CharSet)

/-- A set with the other case of its letters, if letters match in either case. -/
def Switches.fold (switches : Switches) (set : CharSet) : CharSet :=
  if switches.caseless then .folded set else set

/-- The set that a bracket holds once the operators since it are applied, and the frames below. -/
def closeOperators (switches : Switches) (set : CharSet) : List SetFrame → CharSet × List SetFrame
  | .operator operator left :: below =>
    closeOperators switches (operator.apply (switches.fold left) (switches.fold set)) below
  | frames => (set, frames)

/-- A class of ASCII between brackets and colons, after its first bracket. -/
def readAsciiClass : List Char → Option (CharSet × List Char)
  | ':' :: rest =>
    let (negated, rest) :=
      match rest with
      | '^' :: rest => (true, rest)
      | rest => (false, rest)
    let (name, after) := rest.span (· != ':')
    match after with
    | ':' :: ']' :: after =>
      (CharSet.asciiClass? (String.ofList name)).map fun set =>
        (if negated then .compl set else set, after)
    | _ => none
  | _ => none

/-- One item of a set: a character, or an escape that is no condition. -/
def readSetItem (switches : Switches) : List Char → Option (Primitive × List Char)
  | [] => none
  | '\\' :: rest =>
    match readEscape switches rest with
    | some (.look _, _) => none
    | item => item
  | c :: rest => some (.char c, rest)

/-- The character of an item that bounds a range. -/
def Primitive.bound? : Primitive → Option Char
  | char c | byte c => some c
  | _ => none

/-- The set of an item; without Unicode only characters of ASCII may stand in sets. -/
def Primitive.itemSet? (switches : Switches) : Primitive → Option CharSet
  | char c | byte c =>
    if switches.unicode || c.toNat < 0x80 then some (.single c) else none
  | set items => some items
  | look _ => none

/-- An item or a range of a set. -/
def readSetRange (switches : Switches) (text : List Char) : Option (CharSet × List Char) := do
  let (first, rest) ← readSetItem switches text
  match switches.skip rest with
  | [] => none
  | '-' :: more =>
    let next := (switches.skip more).head?
    if next == some ']' || next == some '-' then
      some (← first.itemSet? switches, switches.skip rest)
    else
      let (last, rest) ← readSetItem switches (switches.skip more)
      let low ← first.bound?
      let high ← last.bound?
      let _ ← first.itemSet? switches
      let _ ← last.itemSet? switches
      if low ≤ high then some (.range low.toNat high.toNat, rest) else none
  | rest => some (← first.itemSet? switches, rest)

/-- The start of a bracket: its negation, and the characters that stand for themselves only there.
-/
def openSet (switches : Switches) (text : List Char) : Bool × CharSet × List Char :=
  let text := switches.skip text
  let (negated, text) :=
    match text with
    | '^' :: rest => (true, switches.skip rest)
    | rest => (false, rest)
  let (dashes, text) := text.span (· = '-')
  let text := if dashes.isEmpty then text else switches.skip text
  if dashes.isEmpty then
    match text with
    | ']' :: rest => (negated, .single ']', rest)
    | rest => (negated, .empty, rest)
  else (negated, .single '-', text)

/-- The rest of a set, up to the bracket that closes it. -/
def readSet (switches : Switches) (frames : List SetFrame) (items : CharSet) (text : List Char) :
    Nat → Option (CharSet × List Char)
  | 0 => none
  | steps + 1 =>
    let operator (operator : SetOperator) (rest : List Char) : Option (CharSet × List Char) :=
      let (left, below) := closeOperators switches items frames
      readSet switches (.operator operator left :: below) .empty rest steps
    let item (text : List Char) : Option (CharSet × List Char) := do
      let (set, rest) ← readSetRange switches text
      readSet switches frames (.union items set) rest steps
    match switches.skip text with
    | [] => none
    | '[' :: rest =>
      match readAsciiClass rest with
      | some (set, after) => readSet switches frames (.union items set) after steps
      | none =>
        let (negated, start, after) := openSet switches rest
        readSet switches (.bracket items negated :: frames) start after steps
    | ']' :: rest =>
      match closeOperators switches items frames with
      | (set, .bracket outer negated :: below) =>
        let set := switches.fold set
        let set := if negated then .compl set else set
        if below.isEmpty then some (set, rest)
        else readSet switches below (.union outer set) rest steps
      | _ => none
    | '&' :: '&' :: rest => operator .inter rest
    | '-' :: '-' :: rest => operator .diff rest
    | '~' :: '~' :: rest => operator .symmDiff rest
    | text => item text

/-- A set after its first bracket. -/
def readBracket (switches : Switches) (text : List Char) : Option (CharSet × List Char) :=
  let (negated, start, rest) := openSet switches text
  readSet switches [.bracket .empty negated] start rest (text.length + 1)

/-- Whether a set holds only characters of ASCII, tested on those of one byte. -/
def staysAscii (set : CharSet) : Bool :=
  (List.range 0x80).all fun code => !set.contains (Char.ofNat (0x80 + code))

/-- The expression of one character; without Unicode it may not reach beyond ASCII. -/
def charExpr (switches : Switches) (set : CharSet) : Option Expr :=
  if switches.unicode || staysAscii set then some (.char set) else none

/-- The expression of a primitive. -/
def Primitive.toExpr? (switches : Switches) : Primitive → Option Expr
  | char c => some (.char (switches.fold (.single c)))
  | byte c => charExpr switches (switches.fold (.single c))
  | look condition => some (.look condition)
  | set items => charExpr switches items

/-- A switch named by a letter, set on or off. -/
def Switches.set? (switches : Switches) (letter : Char) (on : Bool) : Option Switches :=
  if letter = 'i' then some { switches with caseless := on }
  else if letter = 'm' then some { switches with lines := on }
  else if letter = 's' then some { switches with dotAll := on }
  else if letter = 'u' then some { switches with unicode := on }
  else if letter = 'R' then some { switches with crlf := on }
  else if letter = 'x' then some { switches with spaced := on }
  else if letter = 'U' then some switches
  else none

/-- The letters of a group of switches up to its colon or parenthesis, none of them repeated; those
after a minus are set off, and a minus must be followed by one. -/
def readSwitches (switches : Switches) (seen : List Char) (on lastMinus : Bool) :
    List Char → Option (Switches × Bool × List Char)
  | [] => none
  | c :: rest =>
    if c = ':' || c = ')' then
      if lastMinus then none else some (switches, seen.isEmpty, c :: rest)
    else if c = '-' then
      if on then readSwitches switches (c :: seen) false true rest else none
    else if seen.contains c then none
    else
      match switches.set? c on with
      | none => none
      | some switches => readSwitches switches (c :: seen) on false rest

/-- Whether a character may stand in the name of a group. -/
def isGroupNameChar (first : Bool) (c : Char) : Bool :=
  c = '_' || Unicode.isAlphabetic c ||
    (!first && (c = '.' || c = '[' || c = ']' ||
      ["Nd", "Nl", "No"].contains (Unicode.category c)))

/-- The name of a group after its opening bracket. -/
def readGroupName (text : List Char) : Option (String × List Char) :=
  let (name, after) := text.span (· != '>')
  match name, after with
  | first :: others, _ :: rest =>
    if isGroupNameChar true first && others.all (isGroupNameChar false) then
      some (String.ofList name, rest)
    else none
  | _, _ => none

/-- How often a repetition in braces repeats, read after its first brace; blanks around the numbers
are ignored. -/
def readBounds (text : List Char) : Option ((Nat × Option Nat) × List Char) := do
  let number (text : List Char) : Option (Nat × List Char) := do
    let text := text.dropWhile Text.isBlank
    let value ← Text.digits? (text.takeWhile Char.isDigit)
    if value ≤ Text.nat32Greatest then
      some (value, (text.dropWhile Char.isDigit).dropWhile Text.isBlank)
    else none
  let (least, rest) ← number text
  match rest with
  | '\x7d' :: rest => some ((least, some least), rest)
  | ',' :: rest =>
    match rest with
    | '\x7d' :: rest => some ((least, none), rest)
    | rest =>
      let (most, rest) ← number rest
      match rest with
      | '\x7d' :: rest => if least ≤ most then some ((least, some most), rest) else none
      | _ => none
  | _ => none

/-- What waits for the group that is being read: the alternatives and parts before it and the
switches around it. Parts are held in reverse; a part is nothing where switches are set. -/
structure Level where
  alternatives : Option Expr
  parts : List (Option Expr)
  switches : Switches

/-- The expression of parts one after another. -/
def sequence (parts : List (Option Expr)) : Expr :=
  match parts.reverse.filterMap id with
  | [] => .empty
  | first :: rest => rest.foldl .seq first

/-- The expression of a level. -/
def Level.expr (level : Level) : Expr :=
  match level.alternatives with
  | none => sequence level.parts
  | some before => .alt before (sequence level.parts)

/-- The level with one more part. -/
def Level.add (level : Level) (part : Option Expr) : Level :=
  { level with parts := part :: level.parts }

/-- The level with its last part repeated. -/
def Level.repeatLast (level : Level) (least : Nat) (most : Option Nat) : Option Level :=
  match level.parts with
  | some last :: parts => some { level with parts := some (.repeated last least most) :: parts }
  | _ => none

/-- The rest of a pattern without the mark that makes a repetition lazy: which match is found does
not matter, only whether there is one. -/
def afterLazy (switches : Switches) (text : List Char) : List Char :=
  match switches.skip text with
  | '?' :: rest => rest
  | rest => rest

/-- An opening parenthesis, read after it: a group, or switches for the rest of the group around.
The first of a level is the innermost. -/
def readGroup (levels : List Level) (names : List String) (text : List Char) :
    Option (List Level × List String × List Char) :=
  match levels with
  | [] => none
  | level :: outer =>
    let opened (switches : Switches) : List Level := ⟨none, [], switches⟩ :: level :: outer
    let named (rest : List Char) : Option (List Level × List String × List Char) := do
      let (name, rest) ← readGroupName rest
      if names.contains name then none
      else some (opened level.switches, name :: names, rest)
    match level.switches.skip text with
    | '?' :: '=' :: _ | '?' :: '!' :: _ | '?' :: '<' :: '=' :: _ | '?' :: '<' :: '!' :: _ => none
    | '?' :: 'P' :: '<' :: rest => named rest
    | '?' :: '<' :: rest => named rest
    | '?' :: rest => do
      let (switches, none?, rest) ← readSwitches level.switches [] true false rest
      match rest with
      | ':' :: rest => some (opened switches, names, rest)
      | _ :: rest =>
        if none? then none
        else some ({ level.add none with switches } :: outer, names, rest)
      | [] => none
    | rest => some (opened level.switches, names, rest)

/-- The rest of a pattern. -/
def readFrom (levels : List Level) (names : List String) (text : List Char) : Nat → Option Expr
  | 0 => none
  | steps + 1 =>
    match levels with
    | [] => none
    | level :: outer =>
      let switches := level.switches
      let onward (level : Level) (rest : List Char) : Option Expr :=
        readFrom (level :: outer) names rest steps
      let repeated (least : Nat) (most : Option Nat) (rest : List Char) : Option Expr := do
        onward (← level.repeatLast least most) (afterLazy switches rest)
      let primitive (item : Option (Primitive × List Char)) : Option Expr := do
        let (item, rest) ← item
        onward (level.add (some (← item.toExpr? switches))) rest
      match switches.skip text with
      | [] => if outer.isEmpty then some level.expr else none
      | '(' :: rest => do
        let (levels, names, rest) ← readGroup levels names rest
        readFrom levels names rest steps
      | ')' :: rest =>
        match outer with
        | [] => none
        | around :: further =>
          readFrom (around.add (some level.expr) :: further) names rest steps
      | '|' :: rest => onward { level with alternatives := some level.expr, parts := [] } rest
      | '[' :: rest => do
        let (set, rest) ← readBracket switches rest
        onward (level.add (some (← charExpr switches set))) rest
      | '?' :: rest => repeated 0 (some 1) rest
      | '*' :: rest => repeated 0 none rest
      | '+' :: rest => repeated 1 none rest
      | '\x7b' :: rest => do
        let ((least, most), rest) ← readBounds rest
        repeated least most rest
      | '.' :: rest =>
        let newline : CharSet :=
          if switches.crlf then .union (.single '\r') (.single '\n') else .single '\n'
        let set : CharSet := if switches.dotAll then .all else .compl newline
        primitive (some (.set set, rest))
      | '^' :: rest =>
        primitive (some (.look (if switches.lines then .lineStart switches.crlf else .textStart),
          rest))
      | '$' :: rest =>
        primitive (some (.look (if switches.lines then .lineEnd switches.crlf else .textEnd), rest))
      | '\\' :: rest => primitive (readEscape switches rest)
      | c :: rest => primitive (some (.char c, rest))

/-- The expression that a text writes down, if it writes one. -/
def Expr.parse? (text : String) : Option Expr :=
  readFrom [⟨none, [], {}⟩] [] text.toList (text.toList.length + 1)

end ConfigVetting.Pattern
