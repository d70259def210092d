import TransitFeed.Text.Number

/-!
# JSON documents

The JSON values that this library writes: configuration echoes, record bodies, extra
columns and copy reports. Objects keep the order in which their members are given.

Strings are written with the escapes `\"`, `\\`, `\b`, `\f`, `\n`, `\r`, `\t`, and
`\u00XX` (lowercase hex) for the other control characters; every other character is
written as itself. Numbers that are not integers use `Number.jsonText`, and a NaN or an
infinity is written `null`.
-/

namespace TransitFeed

/-- A JSON value whose objects keep their member order. -/
inductive Json where
  | null
  | bool (b : Bool)
  | int (n : Int)
  | num (x : Float)
  | str (s : String)
  | arr (items : List Json)
  | obj (members : List (String × Json))
  deriving Inhabited

namespace Json

/-- The two lowercase hex digits of a byte. -/
def hexByte (n : Nat) : String :=
  let digit (d : Nat) : Char := if d < 10 then Char.ofNat (48 + d) else Char.ofNat (87 + d)
  String.ofList [digit (n / 16 % 16), digit (n % 16)]

/-- The escaped form of one character inside a JSON string. -/
def escapeChar (c : Char) : String :=
  match c with
  | '"' => "\\\""
  | '\\' => "\\\\"
  | '\n' => "\\n"
  | '\r' => "\\r"
  | '\t' => "\\t"
  | _ =>
    if c.toNat == 8 then "\\b"
    else if c.toNat == 12 then "\\f"
    else if c.toNat < 32 then "\\u00" ++ hexByte c.toNat
    else c.toString

/-- A string literal of JSON. -/
def quote (s : String) : String :=
  "\"" ++ String.join (s.toList.map escapeChar) ++ "\""

/-- The text of a number member. -/
def numberText (x : Float) : String := (Number.jsonText x).getD "null"

mutual

/-- Compact text: no blank between tokens. -/
def compact : Json → String
  | .null => "null"
  | .bool b => if b then "true" else "false"
  | .int n => toString n
  | .num x => numberText x
  | .str s => quote s
  | .arr items => "[" ++ compactItems items ++ "]"
  | .obj members => "\x7b" ++ compactMembers members ++ "\x7d"

/-- Compact items, separated by commas. -/
def compactItems : List Json → String
  | [] => ""
  | [v] => compact v
  | v :: rest => compact v ++ "," ++ compactItems rest

/-- Compact members, separated by commas. -/
def compactMembers : List (String × Json) → String
  | [] => ""
  | [(k, v)] => quote k ++ ":" ++ compact v
  | (k, v) :: rest => quote k ++ ":" ++ compact v ++ "," ++ compactMembers rest

end

mutual

/-- Indented text: one member per line, two blanks per level, `": "` after keys. -/
def pretty (indent : String) : Json → String
  | .arr [] => "[]"
  | .obj [] => "\x7b\x7d"
  | .arr items => "[\n" ++ prettyItems (indent ++ "  ") items ++ "\n" ++ indent ++ "]"
  | .obj members => "\x7b\n" ++ prettyMembers (indent ++ "  ") members ++ "\n" ++ indent ++ "\x7d"
  | .null => "null"
  | .bool b => if b then "true" else "false"
  | .int n => toString n
  | .num x => numberText x
  | .str s => quote s

/-- Indented items, one per line. -/
def prettyItems (indent : String) : List Json → String
  | [] => ""
  | [v] => indent ++ pretty indent v
  | v :: rest => indent ++ pretty indent v ++ ",\n" ++ prettyItems indent rest

/-- Indented members, one per line. -/
def prettyMembers (indent : String) : List (String × Json) → String
  | [] => ""
  | [(k, v)] => indent ++ quote k ++ ": " ++ pretty indent v
  | (k, v) :: rest => indent ++ quote k ++ ": " ++ pretty indent v ++ ",\n" ++ prettyMembers indent rest

end

end Json

end TransitFeed
