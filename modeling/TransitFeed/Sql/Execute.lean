import TransitFeed.Sql.Statement

/-!
# Running statements

Expressions are evaluated against a row, a list of named values. Arithmetic reads its
operands as numbers and keeps integers while they fit in 64 bits, a division by zero
gives nothing, and an operand that is nothing makes the result nothing. Concatenation
joins the texts of its operands. Comparisons order values as the store orders them and
give 1 or 0; logic has three values.

A recursive common table starts with the rows of its first query; each row taken from
the front of the queue is added to the table and fed, alone, to the other queries, whose
rows join the queue.
-/

namespace TransitFeed.Sql

/-- A row to evaluate against: named values. -/
abbrev Binding := List (String × SqlValue)

/-- The value of a named column of a row. -/
def Binding.lookup? (b : Binding) (name : String) : Option SqlValue :=
  (b.find? fun (n, _) => sameName n name).map (·.2)

/-- A 64-bit integer result, or the float of it when it overflows. -/
def fitInteger (n : Int) : SqlValue :=
  if minInt ≤ n && n ≤ maxInt then .integer n else .real (Int.toFloatNearest n)

/-- Arithmetic on two values. -/
def arithmetic (op : String) (a b : SqlValue) : SqlValue :=
  match a, b with
  | .null, _ | _, .null => .null
  | _, _ =>
    match numeric a, numeric b with
    | .integer x, .integer y =>
      if op == "+" then fitInteger (x + y)
      else if op == "-" then fitInteger (x - y)
      else if op == "*" then fitInteger (x * y)
      else if op == "/" then if y = 0 then .null else fitInteger (x.tdiv y)
      else if y = 0 then .null else .integer (x.tmod y)
    | x, y =>
      let (p, q) := (asFloat x, asFloat y)
      if op == "+" then .real (p + q)
      else if op == "-" then .real (p - q)
      else if op == "*" then .real (p * q)
      else if op == "/" then if q == 0 then .null else .real (p / q)
      else
        match integralValue? p.floor, integralValue? q.floor with
        | some i, some j => if j = 0 then .null else .integer (i.tmod j)
        | _, _ => .null

/-- A truth value as a number. -/
def ofBool (b : Bool) : SqlValue := .integer (if b then 1 else 0)

/-- A comparison of two values. -/
def comparison (op : String) (a b : SqlValue) : SqlValue :=
  match a, b with
  | .null, _ | _, .null => .null
  | _, _ =>
    let o := compareValues a b
    ofBool <|
      if op == "=" || op == "==" then o == .eq
      else if op == "!=" || op == "<>" then o != .eq
      else if op == "<" then o == .lt
      else if op == "<=" then o != .gt
      else if op == ">" then o == .gt
      else o != .lt

/-- Converts a value as `CAST` does to the given type. -/
def castTo (type : String) (v : SqlValue) : SqlValue :=
  match v with
  | .null => .null
  | _ =>
    match Affinity.ofType type with
    | .text => .text ((textOf? v).getD "")
    | .blob => .blob ((textOf? v).getD "").toUTF8.toList
    | .real => .real (asFloat (numeric v))
    | .integer =>
      match numeric v with
      | .real x =>
        match integralValue? (if x < 0 then x.ceil else x.floor) with
        | some n => .integer n
        | none => .integer (if x < 0 then minInt else maxInt)
      | w => w
    | .numeric => preferInteger (numeric v)

/-- The name of the storage class of a value. -/
def typeName : SqlValue → String
  | .null => "null"
  | .integer _ => "integer"
  | .real _ => "real"
  | .text _ => "text"
  | .blob _ => "blob"

/-- A call of a scalar function. -/
def callFunction (name : String) (args : List SqlValue) : Except String SqlValue :=
  match name, args with
  | "ABS", [.integer n] => .ok (fitInteger n.natAbs)
  | "ABS", [.real x] => .ok (.real x.abs)
  | "ABS", [.null] => .ok .null
  | "ABS", [v] => .ok (match numeric v with | .integer n => fitInteger n.natAbs | w => .real (asFloat w).abs)
  | "LENGTH", [.null] => .ok .null
  | "LENGTH", [.blob b] => .ok (.integer b.length)
  | "LENGTH", [v] => .ok (.integer ((textOf? v).getD "").length)
  | "LOWER", [v] => .ok ((textOf? v).map (fun s => .text s.toLower) |>.getD .null)
  | "UPPER", [v] => .ok ((textOf? v).map (fun s => .text s.toUpper) |>.getD .null)
  | "TYPEOF", [v] => .ok (.text (typeName v))
  | "COALESCE", vs => .ok ((vs.find? fun v => !v.isNull).getD .null)
  | "IFNULL", [a, b] => .ok (if a.isNull then b else a)
  | "NULLIF", [a, b] => .ok (if compareValues a b == .eq then .null else a)
  | "MIN", vs@(_ :: _ :: _) =>
    if vs.any SqlValue.isNull then .ok .null
    else .ok (vs.foldl (fun m v => if compareValues v m == .lt then v else m) (vs.headD .null))
  | "MAX", vs@(_ :: _ :: _) =>
    if vs.any SqlValue.isNull then .ok .null
    else .ok (vs.foldl (fun m v => if compareValues v m == .gt then v else m) (vs.headD .null))
  | _, _ => .error s!"no such function: {name}"

/-- Evaluates an expression against a row. -/
def eval (row : Binding) : Expr → Except String SqlValue
  | .lit v => .ok v
  | .column n quoted =>
    match row.lookup? n with
    | some v => .ok v
    | none => if quoted then .ok (.text n) else .error s!"no such column: {n}"
  | .unary op e => do
    let v ← eval row e
    if op == "NOT" then
      return match truth? v with
        | some b => ofBool !b
        | none => .null
    else if op == "-" then
      return match v with
        | .null => .null
        | _ => match numeric v with
          | .integer n => fitInteger (-n)
          | w => .real (-(asFloat w))
    else if op == "~" then
      return match v with
        | .null => .null
        | _ => match castTo "INTEGER" v with
          | .integer n => .integer (-n - 1)
          | w => w
    else return v
  | .binary op a b => do
    let x ← eval row a
    let y ← eval row b
    if op == "AND" then
      return match truth? x, truth? y with
        | some false, _ | _, some false => ofBool false
        | some true, some true => ofBool true
        | _, _ => .null
    else if op == "OR" then
      return match truth? x, truth? y with
        | some true, _ | _, some true => ofBool true
        | some false, some false => ofBool false
        | _, _ => .null
    else if op == "||" then
      return match textOf? x, textOf? y with
        | some s, some t => .text (s ++ t)
        | _, _ => .null
    else if op == "IS" then return ofBool (compareValues x y == .eq)
    else if op == "IS NOT" then return ofBool (compareValues x y != .eq)
    else if ["+", "-", "*", "/", "%"].contains op then return arithmetic op x y
    else if ["&", "|", "<<", ">>"].contains op then
      match castTo "INTEGER" x, castTo "INTEGER" y with
      | .integer i, .integer j =>
        let (u, w) := (i.toInt64.toBitVec, j.toInt64.toBitVec)
        return .integer <|
          if op == "&" then (u &&& w).toInt
          else if op == "|" then (u ||| w).toInt
          else if op == "<<" then (if j ≥ 64 || j ≤ -64 then 0 else if j ≥ 0 then (u <<< j.toNat).toInt else (u.sshiftRight (-j).toNat).toInt)
          else (if j ≥ 64 then (if i < 0 then -1 else 0) else if j ≥ 0 then (u.sshiftRight j.toNat).toInt else (u <<< (-j).toNat).toInt)
      | _, _ => return .null
    else return comparison op x y
  | .isNull e negated => do
    let v ← eval row e
    return ofBool (v.isNull != negated)
  | .cast e t => do return castTo t (← eval row e)
  | .call name args => do
    let vs ← evalAll row args
    callFunction name vs
where
  evalAll (row : Binding) : List Expr → Except String (List SqlValue)
    | [] => .ok []
    | e :: rest => do return (← eval row e) :: (← evalAll row rest)

/-- The rows a query reads: one empty row without a source, else the rows of the common
table or table it names. -/
def sourceRows (db : Database) (ctes : List (String × List String × List (List SqlValue)))
    (source : Option String) : Except String (List Binding) :=
  match source with
  | none => .ok [[]]
  | some n =>
    match ctes.find? (fun (m, _, _) => sameName m n) with
    | some (_, cols, rows) => .ok (rows.map fun r => cols.zip r)
    | none =>
      match db.table? n with
      | some t => .ok (t.rows.map fun (_, r) => t.columnNames.zip r)
      | none => .error s!"no such table: {n}"

/-- The result rows of a query. -/
def runSelect (db : Database) (ctes : List (String × List String × List (List SqlValue))) (q : Select) :
    Except String (List (List SqlValue)) := do
  let rows ← sourceRows db ctes q.source
  let mut out := []
  for row in rows do
    let keep ← match q.filter with
      | none => pure true
      | some f => pure ((truth? (← eval row f)).getD false)
    if keep then
      if q.star then out := out ++ [row.map (·.2)]
      else out := out ++ [← q.items.mapM (eval row)]
  return out

/-- The largest number of rows a common table may have. -/
def maxCommonRows : Nat := 10000000

/-- The rows of a common table, the tables before it being known. -/
def commonRows (db : Database) (known : List (String × List String × List (List SqlValue)))
    (c : CommonTable) : Except String (String × List String × List (List SqlValue)) := do
  match c.parts with
  | [] => throw "empty common table"
  | first :: rest =>
    let start ← runSelect db known first
    let width := (start.headD []).length
    let cols := if c.columns.isEmpty then (List.range width).map fun i => s!"column{i + 1}" else c.columns
    let rec grow (queue : List (List SqlValue)) (acc : Array (List SqlValue)) :
        Nat → Except String (Array (List SqlValue))
      | 0 => .ok acc
      | fuel + 1 =>
        match queue with
        | [] => .ok acc
        | row :: more => do
          let single := known ++ [(c.name, cols, [row])]
          let mut next := []
          for q in rest do next := next ++ (← runSelect db single q)
          grow (more ++ next) (acc.push row) fuel
    let rows ← grow start #[] maxCommonRows
    return (c.name, cols, rows.toList)

/-- Runs one statement. -/
def execute (db : Database) : Statement → Except String Database
  | .nothing => .ok db
  | .createTable t ifNotExists => db.create t ifNotExists
  | .dropTable n ifExists =>
    match db.table? n with
    | some _ => .ok { db with tables := db.tables.filter fun t => !sameName t.name n }
    | none => if ifExists then .ok db else .error s!"no such table: {n}"
  | .insert ctes table columns rows => do
    let mut known := []
    for c in ctes do known := known ++ [← commonRows db known c]
    let values ← match rows with
      | .values rs => rs.mapM fun r => r.mapM (eval [])
      | .query q => runSelect db known q
    let mut db := db
    for v in values do
      db := (← db.insert table columns v).1
    return db
  | .update table sets filter => do
    let some t := db.table? table | throw s!"no such table: {table}"
    let positions ← sets.mapM fun (c, e) =>
      match t.columnIndex? c with
      | some i => pure (i, e)
      | none => throw s!"no such column: {c}"
    let mut rows := []
    for (rowid, r) in t.rows do
      let binding := t.columnNames.zip r
      let hit ← match filter with
        | none => pure true
        | some f => pure ((truth? (← eval binding f)).getD false)
      if hit then
        let mut r' := r
        for (i, e) in positions do
          let col := t.columns.getD i default
          r' := r'.set i (col.affinity.apply (← eval binding e))
        let rowid' := match t.idColumn with
          | some i => match r'.getD i .null with
            | .integer n => n
            | _ => rowid
          | none => rowid
        rows := rows ++ [(rowid', r')]
      else rows := rows ++ [(rowid, r)]
    let sorted := rows.foldl Table.place []
    return db.setTable { t with rows := sorted }
  | .delete table filter => do
    let some t := db.table? table | throw s!"no such table: {table}"
    let mut rows := []
    for (rowid, r) in t.rows do
      let hit ← match filter with
        | none => pure true
        | some f => pure ((truth? (← eval (t.columnNames.zip r) f)).getD false)
      if !hit then rows := rows ++ [(rowid, r)]
    return db.setTable { t with rows }

/-- Runs statement text, statement after statement. -/
def Database.run (db : Database) (text : String) : Except String Database := do
  let stmts ← parse text
  stmts.foldlM execute db

end TransitFeed.Sql
