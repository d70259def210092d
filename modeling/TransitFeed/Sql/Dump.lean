import TransitFeed.Sql.Execute

/-!
# Stores as statement text

A store is kept in a file as the statements that rebuild it: one `CREATE TABLE` per table,
with each column's type word standing for its affinity and the row id column declared
`INTEGER PRIMARY KEY`, then one `INSERT` per row with every value written as a literal.
Floats are written with the shortest digits that read back and always with a point or an
exponent, so that they read back as floats; infinities are written as out of range
literals, which read back as infinities.
-/

namespace TransitFeed.Sql

/-- A quoted name. -/
def quoteName (s : String) : String := "\"" ++ s.replace "\"" "\"\"" ++ "\""

/-- A string literal. -/
def quoteText (s : String) : String := "'" ++ s.replace "'" "''" ++ "'"

/-- The two hex digits of a byte. -/
def hexPair (b : UInt8) : String :=
  let digit (d : Nat) : Char := if d < 10 then Char.ofNat (48 + d) else Char.ofNat (55 + d)
  String.ofList [digit (b.toNat / 16), digit (b.toNat % 16)]

/-- The literal of a float that reads back as the same float. -/
def realLiteral (x : Float) : String :=
  match Decimal.parts x with
  | .nan => "NULL"
  | .infinite negative => if negative then "-9e999" else "9e999"
  | .finite _ _ _ =>
    let t := Number.positional x
    if t.any (fun c => c == '.' || c == 'e') then t else t ++ ".0"

/-- The literal of a value. -/
def literal : SqlValue → String
  | .null => "NULL"
  | .integer n => toString n
  | .real x => realLiteral x
  | .text s => quoteText s
  | .blob bs => "X'" ++ String.join (bs.map hexPair) ++ "'"

/-- The type word of an affinity. -/
def Affinity.typeWord : Affinity → String
  | .text => " TEXT"
  | .numeric => " NUMERIC"
  | .integer => " INTEGER"
  | .real => " REAL"
  | .blob => ""

/-- The statement that creates a table, without its terminator. -/
def Table.definition (t : Table) : String :=
  let columns := t.columns.zipIdx.map fun (c, i) =>
    if t.idColumn == some i then
      quoteName c.name ++ " INTEGER PRIMARY KEY" ++ (if t.autoincrement then " AUTOINCREMENT" else "")
    else quoteName c.name ++ c.affinity.typeWord
  "CREATE TABLE " ++ quoteName t.name ++ " (" ++ ", ".intercalate columns ++ ")"

/-- The statement that creates a table, on a line of its own. -/
def Table.createText (t : Table) : String := t.definition ++ ";\n"

/-- The statements that fill a table. -/
def Table.insertText (t : Table) : String :=
  String.join (t.rows.map fun (_, r) =>
    "INSERT INTO " ++ quoteName t.name ++ " VALUES (" ++ ", ".intercalate (r.map literal) ++ ");\n")

/-- The statements that rebuild a store. -/
def Database.dumpText (db : Database) : String :=
  String.join (db.tables.map fun t => t.createText ++ t.insertText)

end TransitFeed.Sql
