import ConfigVetting.Pattern.CharSet

/-! # Pattern expressions

A pattern as a tree, and the positions of a text that a match can end at. A set of positions is a
number whose bit `i` stands for the position before character `i`; matching an expression maps the
set of positions where a match may start to the set of those where one may end.
-/

namespace ConfigVetting.Pattern

/-- A condition on the characters around a position. -/
inductive Look where
  | textStart
  | textEnd
  | lineStart (crlf : Bool)
  | lineEnd (crlf : Bool)
  | wordBoundary (ascii : Bool)
  | notWordBoundary (ascii : Bool)
  | wordStart (ascii : Bool)
  | wordEnd (ascii : Bool)
  | wordStartHalf (ascii : Bool)
  | wordEndHalf (ascii : Bool)
  deriving DecidableEq, Repr

/-- Whether a character next to a position is a word character. -/
def wordAt (ascii : Bool) : Option Char → Bool
  | none => false
  | some c => if ascii then CharSet.asciiWord.contains c else Unicode.isWord c

/-- Whether a condition holds between the character before a position and the one after it. -/
def Look.holds : Look → Option Char → Option Char → Bool
  | textStart, before, _ => before.isNone
  | textEnd, _, after => after.isNone
  | lineStart false, before, _ => before.isNone || before == some '\n'
  | lineEnd false, _, after => after.isNone || after == some '\n'
  | lineStart true, before, after =>
    before.isNone || before == some '\n' || (before == some '\r' && after != some '\n')
  | lineEnd true, before, after =>
    after.isNone || after == some '\r' || (after == some '\n' && before != some '\r')
  | wordBoundary ascii, before, after => wordAt ascii before != wordAt ascii after
  | notWordBoundary ascii, before, after => wordAt ascii before == wordAt ascii after
  | wordStart ascii, before, after => !wordAt ascii before && wordAt ascii after
  | wordEnd ascii, before, after => wordAt ascii before && !wordAt ascii after
  | wordStartHalf ascii, before, _ => !wordAt ascii before
  | wordEndHalf ascii, _, after => !wordAt ascii after

/-- A pattern expression. -/
inductive Expr where
  | empty
  | char (set : CharSet)
  | look (condition : Look)
  | seq (first second : Expr)
  | alt (left right : Expr)
  /-- From `least` up to `most` times, without an upper bound if there is none. -/
  | repeated (body : Expr) (least : Nat) (most : Option Nat)
  deriving Repr

/-- The positions before characters with a property, counted from `position`. -/
def charMask (holds : Char → Bool) (position : Nat) : List Char → Nat
  | [] => 0
  | c :: rest => (if holds c then 1 <<< position else 0) ||| charMask holds (position + 1) rest

/-- The positions where a condition on the characters around them holds. -/
def lookMask (holds : Option Char → Option Char → Bool) (before : Option Char) (position : Nat) :
    List Char → Nat
  | [] => if holds before none then 1 <<< position else 0
  | c :: rest =>
    (if holds before (some c) then 1 <<< position else 0) |||
      lookMask holds (some c) (position + 1) rest

/-- A function applied a number of times, or until it changes nothing. -/
def iterate (step : Nat → Nat) : Nat → Nat → Nat
  | 0, set => set
  | times + 1, set =>
    let next := step set
    if next = set then set else iterate step times next

/-- The union of a set with its images under up to `times` applications of a function. -/
def closure (step : Nat → Nat) : Nat → Nat → Nat
  | 0, set => set
  | times + 1, set =>
    let next := set ||| step set
    if next = set then set else closure step times next

/-- The positions where a match may end that starts at one of the given positions. Since a match
never goes back, repeating it more often than there are positions reaches nothing new. -/
def Expr.ends (text : List Char) : Expr → Nat → Nat
  | empty, starts => starts
  | char set, starts => (starts &&& charMask set.contains 0 text) <<< 1
  | look condition, starts => starts &&& lookMask condition.holds none 0 text
  | seq first second, starts => second.ends text (first.ends text starts)
  | alt left right, starts => left.ends text starts ||| right.ends text starts
  | repeated body least most, starts =>
    let enough := text.length + 2
    let afterLeast := iterate (body.ends text) (min least enough) starts
    match most with
    | none => closure (body.ends text) enough afterLeast
    | some most => closure (body.ends text) (min (most - least) enough) afterLeast

/-- Whether an expression matches anywhere in a text. -/
def Expr.occursIn (expr : Expr) (text : String) : Bool :=
  expr.ends text.toList ((1 <<< (text.toList.length + 1)) - 1) != 0

end ConfigVetting.Pattern
