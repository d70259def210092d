import TransitFeed.Text.Number

/-!
# Values of a relational store

A cell of a relational table holds nothing, an integer, a float, a text or bytes. Field
values that are read back from a cell go through its text when the cell does not already
have their own kind: integers in decimal, floats in positional notation, nothing as the
empty text; bytes have no text.
-/

namespace TransitFeed

/-- A cell of a relational table. -/
inductive SqlValue where
  | null
  | integer (n : Int)
  | real (x : Float)
  | text (s : String)
  | blob (bytes : List UInt8)
  deriving Inhabited

namespace SqlValue

/-- The text a cell stands for, for the field types that read text. -/
def asText : SqlValue → Except String String
  | .null => .ok ""
  | .integer n => .ok (toString n)
  | .real x => .ok (Number.positional x)
  | .text s => .ok s
  | .blob _ => .error "unexpected blob"

/-- Whether a cell holds nothing. -/
def isNull : SqlValue → Bool
  | .null => true
  | _ => false

end SqlValue

end TransitFeed
