import ConfigVetting.Decimal.Shortest
import ConfigVetting.Json.Value
import ConfigVetting.Text.Cut

/-! # Writing JSON

The compact form: no blanks, quotes and backslashes escaped, control characters escaped by their
short forms or by code.
-/

namespace ConfigVetting

/-- A hexadecimal digit in lower case. -/
def hexDigit (value : Nat) : Char :=
  if value < 10 then Char.ofNat ('0'.toNat + value) else Char.ofNat ('a'.toNat + (value - 10))

namespace Json

/-- One character inside a quoted text. -/
def quotedChar (c : Char) : List Char :=
  if c = '\x22' then ['\\', '\x22']
  else if c = '\\' then ['\\', '\\']
  else if c = '\n' then ['\\', 'n']
  else if c = '\r' then ['\\', 'r']
  else if c = '\t' then ['\\', 't']
  else if c.toNat = 0x08 then ['\\', 'b']
  else if c.toNat = 0x0C then ['\\', 'f']
  else if c.toNat < 0x20 then
    ['\\', 'u', '0', '0', hexDigit (c.toNat / 16), hexDigit (c.toNat % 16)]
  else [c]

/-- A text between quotes. -/
def quoted (value : String) : String :=
  String.ofList (['\x22'] ++ value.toList.flatMap quotedChar ++ ['\x22'])

end Json

namespace Number

/-- The digits of a decimal around its point: from `10^-5` up to below `10^16` positional and with
at least one digit after the point, else with one digit before the point and an exponent. -/
def layout (decimal : Decimal) : String :=
  let digits := toString decimal.digits
  let count : Int := digits.length
  let point : Int := count + decimal.exponent
  let zeros (n : Int) : String := String.ofList (List.replicate n.toNat '0')
  if 0 ≤ decimal.exponent && point ≤ 16 then
    digits ++ zeros decimal.exponent ++ ".0"
  else if 0 < point && point ≤ 16 then
    String.ofList (digits.toList.take point.toNat) ++ "." ++
      String.ofList (digits.toList.drop point.toNat)
  else if -5 < point && point ≤ 0 then
    "0." ++ zeros (-point) ++ digits
  else
    let exponent := "e" ++ toString (point - 1)
    if count = 1 then digits ++ exponent
    else String.ofList (digits.toList.take 1) ++ "." ++ String.ofList (digits.toList.drop 1) ++
      exponent

/-- The text of a number of double precision. -/
def renderReal (value : Binary64) : String :=
  let sign := if value.negative then "-" else ""
  if value.isZero then sign ++ "0.0" else sign ++ layout value.shortest

/-- The text of a number. -/
def render : Number → String
  | .whole value => toString value
  | .real value => renderReal value

end Number

namespace Json

mutual

/-- The compact text of a value. -/
def render : Json → String
  | .null => "null"
  | .bool true => "true"
  | .bool false => "false"
  | .number value => value.render
  | .text value => quoted value
  | .array items => "[" ++ Text.joinWith "," (renderItems items) ++ "]"
  | .object members => "\x7b" ++ Text.joinWith "," (renderMembers members) ++ "\x7d"

/-- The compact texts of items. -/
def renderItems : List Json → List String
  | [] => []
  | item :: rest => item.render :: renderItems rest

/-- The compact texts of members, each after its name. -/
def renderMembers : List (String × Json) → List String
  | [] => []
  | (name, value) :: rest => (quoted name ++ ":" ++ value.render) :: renderMembers rest

end

end Json

end ConfigVetting
