import TransitFeed.Sql.Database

/-!
# Statements of the relational store

The store takes the statements that build tables and fill them: `CREATE TABLE`,
`CREATE INDEX` (which changes nothing here), `INSERT` of listed values or of the rows of
a query, `UPDATE`, `DELETE`, `DROP TABLE`, and a `WITH` clause before an `INSERT` whose
common table may be recursive. Queries select expressions from nothing, a common table or
a table, filtered by a condition.

Text is split into tokens first: words, quoted names (in double quotes, brackets or
backquotes), string literals in single quotes with doubled quotes inside, numbers, byte
literals `X'..'` and operators; comments run from `--` to the end of the line or between
`/*` and `*/`. Keywords are words compared without regard to case.
-/

namespace TransitFeed.Sql

/-- A token of statement text. -/
inductive Token where
  | word (s : String)
  | quoted (s : String)
  | str (s : String)
  | num (s : String)
  | bytes (b : List UInt8)
  | sym (s : String)
  deriving Repr, Inhabited, BEq

/-- Whether a character may be part of a word. -/
def wordChar (c : Char) : Bool := c.isAlphanum || c == '_' || c == '$' || c.toNat ≥ 128

/-- The two-character operators. -/
def twoCharSymbols : List String := ["||", "<=", ">=", "==", "!=", "<>", "<<", ">>"]

/-- The value of a hex digit. -/
def hexValue (c : Char) : Nat :=
  if c.isDigit then c.toNat - 48 else if 'a' ≤ c && c ≤ 'f' then c.toNat - 87 else c.toNat - 55

/-- Reads up to a closing character, a doubled one standing for itself. -/
def quotedBody (close : Char) : List Char → List Char → Option (String × List Char)
  | [], _ => none
  | c :: rest, acc =>
    if c == close then
      match rest with
      | d :: more => if d == close then quotedBody close more (c :: acc) else some (String.ofList acc.reverse, rest)
      | [] => some (String.ofList acc.reverse, [])
    else quotedBody close rest (c :: acc)

/-- Splits statement text into tokens. -/
def tokenize (s : String) : Except String (List Token) :=
  go s.toList [] (s.length + 1)
where
  go (cs : List Char) (acc : List Token) : Nat → Except String (List Token)
    | 0 => .ok acc.reverse
    | fuel + 1 =>
      match cs with
      | [] => .ok acc.reverse
      | c :: rest =>
        if c.isWhitespace then go rest acc fuel
        else if c == '-' && rest.head? == some '-' then go (rest.dropWhile (· != '\n')) acc fuel
        else if c == '/' && rest.head? == some '*' then
          let after := (rest.drop 1)
          let rec skip : List Char → Nat → List Char
            | [], _ => []
            | _, 0 => []
            | '*' :: '/' :: more, _ => more
            | _ :: more, n + 1 => skip more n
          go (skip after (after.length + 1)) acc fuel
        else if (c == 'x' || c == 'X') && rest.head? == some '\'' then
          match quotedBody '\'' (rest.drop 1) [] with
          | some (h, more) =>
            let ds := h.toList
            if ds.length % 2 = 1 || !ds.all Char.isHexDigit then .error "malformed blob literal"
            else
              let rec pairs : List Char → List UInt8
                | a :: b :: r => UInt8.ofNat (hexValue a * 16 + hexValue b) :: pairs r
                | _ => []
              go more (.bytes (pairs ds) :: acc) fuel
          | none => .error "unrecognized token"
        else if c == '\'' then
          match quotedBody '\'' rest [] with
          | some (t, more) => go more (.str t :: acc) fuel
          | none => .error "unrecognized token"
        else if c == '"' then
          match quotedBody '"' rest [] with
          | some (t, more) => go more (.quoted t :: acc) fuel
          | none => .error "unrecognized token"
        else if c == '[' then
          let name := rest.takeWhile (· != ']')
          go (rest.drop (name.length + 1)) (.quoted (String.ofList name) :: acc) fuel
        else if c.toNat == 96 then
          match quotedBody (Char.ofNat 96) rest [] with
          | some (t, more) => go more (.quoted t :: acc) fuel
          | none => .error "unrecognized token"
        else if c.isDigit || (c == '.' && (rest.head?.map Char.isDigit).getD false) then
          let whole := cs.takeWhile fun d => d.isDigit || d == '.'
          let more := cs.drop whole.length
          let (expo, more) :=
            match more with
            | e :: r =>
              if e == 'e' || e == 'E' then
                let (sign, r) := match r with
                  | '+' :: t => (['+'], t)
                  | '-' :: t => (['-'], t)
                  | t => ([], t)
                let ds := r.takeWhile Char.isDigit
                (e :: sign ++ ds, r.drop ds.length)
              else ([], more)
            | [] => ([], [])
          go more (.num (String.ofList (whole ++ expo)) :: acc) fuel
        else if wordChar c then
          let w := cs.takeWhile wordChar
          go (cs.drop w.length) (.word (String.ofList w) :: acc) fuel
        else
          let two := String.ofList (cs.take 2)
          if twoCharSymbols.contains two then go (cs.drop 2) (.sym two :: acc) fuel
          else if "(),;+-*/%<>=.&|~".toList.contains c then go rest (.sym c.toString :: acc) fuel
          else .error s!"unrecognized token: \"{c}\""

/-- An expression. -/
inductive Expr where
  | lit (v : SqlValue)
  /-- A column named by a word or by a quoted name; a quoted name that names no column
  stands for its text. -/
  | column (name : String) (quoted : Bool)
  | unary (op : String) (e : Expr)
  | binary (op : String) (a b : Expr)
  | isNull (e : Expr) (negated : Bool)
  | cast (e : Expr) (type : String)
  | call (name : String) (args : List Expr)
  deriving Inhabited

/-- A query: its result expressions (all columns for `*`), where its rows come from and
the condition they meet. -/
structure Select where
  items : List Expr
  star : Bool := false
  source : Option String := none
  filter : Option Expr := none
  deriving Inhabited

/-- A common table: its name, its column names and the queries whose rows make it, the
ones after the first reading the table itself. -/
structure CommonTable where
  name : String
  columns : List String
  parts : List Select
  deriving Inhabited

/-- Where inserted rows come from. -/
inductive Rows where
  | values (rows : List (List Expr))
  | query (s : Select)
  deriving Inhabited

/-- A statement. -/
inductive Statement where
  | createTable (t : Table) (ifNotExists : Bool)
  | nothing
  | insert (ctes : List CommonTable) (table : String) (columns : Option (List String)) (rows : Rows)
  | update (table : String) (sets : List (String × Expr)) (filter : Option Expr)
  | delete (table : String) (filter : Option Expr)
  | dropTable (table : String) (ifExists : Bool)
  deriving Inhabited

/-- The state of parsing: the tokens left. -/
abbrev Parsing := ExceptT String (StateM (List Token))

namespace Parsing

/-- The next token, if any. -/
def peek : Parsing (Option Token) := do return (← get).head?

/-- Drops the next token. -/
def advance : Parsing Unit := modify List.tail

/-- The error of an unexpected token. -/
def unexpected : Parsing α := do
  match ← peek with
  | some (.word w) => throw s!"near \"{w}\": syntax error"
  | some (.sym s) => throw s!"near \"{s}\": syntax error"
  | some (.quoted q) => throw s!"near \"{q}\": syntax error"
  | some _ => throw "syntax error"
  | none => throw "incomplete input"

/-- Whether the next token is the keyword. -/
def isKeyword (k : String) : Parsing Bool := do
  match ← peek with
  | some (.word w) => return w.toUpper == k
  | _ => return false

/-- Takes the keyword if it comes next. -/
def keyword? (k : String) : Parsing Bool := do
  if ← isKeyword k then advance; return true else return false

/-- Requires the keyword. -/
def keyword (k : String) : Parsing Unit := do
  if !(← keyword? k) then unexpected

/-- Takes the symbol if it comes next. -/
def symbol? (s : String) : Parsing Bool := do
  if (← peek) == some (.sym s) then advance; return true else return false

/-- Requires the symbol. -/
def symbol (s : String) : Parsing Unit := do
  if !(← symbol? s) then unexpected

/-- A name: a word or a quoted name. -/
def name : Parsing String := do
  match ← peek with
  | some (.word w) => advance; return w
  | some (.quoted q) => advance; return q
  | some (.str s) => advance; return s
  | _ => unexpected

/-- A name, maybe preceded by a schema name and a dot. -/
def qualifiedName : Parsing String := do
  let n ← name
  if ← symbol? "." then name else return n

/-- Names in parentheses, separated by commas. -/
def nameList : Parsing (List String) := do
  symbol "("
  let mut names := [← name]
  for _ in List.range 10000 do
    if ← symbol? "," then names := names ++ [← name] else break
  symbol ")"
  return names

/-- The value of a number literal. -/
def numberValue (s : String) : SqlValue :=
  match numberStart s.toList with
  | some n => n.value
  | none => .integer 0

/-- The operators of each binary level, from the loosest. -/
def levels : List (List String) :=
  [["OR"], ["AND"], ["=", "==", "!=", "<>", "IS"], ["<", "<=", ">", ">="], ["&", "|", "<<", ">>"],
    ["+", "-"], ["*", "/", "%"], ["||"]]

/-- The binary operator of a level that comes next, taken. -/
def levelOperator? (ops : List String) : Parsing (Option String) := do
  match ← peek with
  | some (.sym s) => if ops.contains s then advance; return some s else return none
  | some (.word w) =>
    let u := w.toUpper
    if ops.contains u then
      advance
      if u == "IS" then
        if ← keyword? "NOT" then return some "IS NOT" else return some "IS"
      return some u
    else return none
  | _ => return none

/-- The words of a type name, up to a closing bracket or a comma. -/
def typeWords : Parsing String := do
  let mut words := []
  for _ in List.range 100 do
    match ← peek with
    | some (.word w) =>
      if ["PRIMARY", "NOT", "NULL", "UNIQUE", "DEFAULT", "CHECK", "REFERENCES", "COLLATE",
          "CONSTRAINT", "GENERATED", "AS"].contains w.toUpper then break
      advance; words := words ++ [w]
    | some (.sym "(") =>
      advance
      for _ in List.range 100 do
        if (← peek) == some (.sym ")") || (← peek).isNone then break
        advance
      symbol ")"
    | _ => break
  return " ".intercalate words

mutual

/-- An expression of the given level or tighter. -/
def expr : Nat → Nat → Parsing Expr
  | 0, _ => throw "expression too deep"
  | fuel + 1, level =>
    if level = 2 then do
      if ← keyword? "NOT" then return .unary "NOT" (← expr fuel 2)
      binaryLevel fuel level
    else if level ≥ levels.length then unaryExpr fuel
    else binaryLevel fuel level

/-- A chain of operators of one level, left to right. -/
def binaryLevel : Nat → Nat → Parsing Expr
  | 0, _ => throw "expression too deep"
  | fuel + 1, level => do
    let mut left ← expr fuel (level + 1)
    for _ in List.range 100000 do
      if level = 2 then
        if ← isKeyword "ISNULL" then advance; left := .isNull left false; continue
        if ← isKeyword "NOTNULL" then advance; left := .isNull left true; continue
      match ← levelOperator? (levels.getD level []) with
      | none => break
      | some op =>
        if (op == "IS" || op == "IS NOT") && (← keyword? "NULL") then
          left := .isNull left (op == "IS NOT")
        else left := .binary op left (← expr fuel (level + 1))
    return left

/-- A unary expression: signs and negations before a primary one. -/
def unaryExpr : Nat → Parsing Expr
  | 0 => throw "expression too deep"
  | fuel + 1 => do
    if ← symbol? "-" then return .unary "-" (← unaryExpr fuel)
    if ← symbol? "+" then return .unary "+" (← unaryExpr fuel)
    if ← symbol? "~" then return .unary "~" (← unaryExpr fuel)
    primary fuel

/-- A primary expression. -/
def primary : Nat → Parsing Expr
  | 0 => throw "expression too deep"
  | fuel + 1 => do
    match ← peek with
    | some (.num s) => advance; return .lit (numberValue s)
    | some (.str s) => advance; return .lit (.text s)
    | some (.bytes b) => advance; return .lit (.blob b)
    | some (.quoted q) =>
      advance
      if ← symbol? "." then return .column (← name) true
      return .column q true
    | some (.sym "(") =>
      advance
      let e ← expr fuel 0
      symbol ")"
      return e
    | some (.word w) =>
      let u := w.toUpper
      if u == "NULL" then advance; return .lit .null
      if u == "CAST" then
        advance
        symbol "("
        let e ← expr fuel 0
        keyword "AS"
        let t ← typeWords
        symbol ")"
        return .cast e t
      advance
      if ← symbol? "(" then
        if ← symbol? ")" then return .call u []
        if ← symbol? "*" then symbol ")"; return .call u []
        let args ← exprList fuel
        symbol ")"
        return .call u args
      if ← symbol? "." then return .column (← name) false
      return .column w false
    | _ => unexpected

/-- Expressions separated by commas. -/
def exprList : Nat → Parsing (List Expr)
  | 0 => throw "expression too deep"
  | fuel + 1 => do
    let first ← expr fuel 0
    if ← symbol? "," then return first :: (← exprList fuel) else return [first]

end

/-- The fuel of expression parsing: deep enough for any statement the store takes. -/
def depth : Nat := 200

/-- A query. -/
def select : Parsing Select := do
  keyword "SELECT"
  let _ ← keyword? "ALL"
  let (items, star) ← if ← symbol? "*" then pure ([], true) else pure (← exprList depth, false)
  let source ← if ← keyword? "FROM" then pure (some (← qualifiedName)) else pure none
  let filter ← if ← keyword? "WHERE" then pure (some (← expr depth 0)) else pure none
  return { items, star, source, filter }

/-- Queries joined by `UNION ALL` or `UNION`. -/
def compound : Parsing (List Select) := do
  let mut parts := [← select]
  for _ in List.range 100 do
    if ← keyword? "UNION" then
      let _ ← keyword? "ALL"
      parts := parts ++ [← select]
    else break
  return parts

/-- A column definition, as the name, the declared type and whether it holds the row id
and counts with `AUTOINCREMENT`. -/
def columnDef : Parsing (ColumnDef × Bool × Bool) := do
  let n ← name
  let t ← typeWords
  let mut primaryKey := false
  let mut auto := false
  let mut depth := 0
  for _ in List.range 10000 do
    match ← peek with
    | none => break
    | some (.sym ",") => if depth = 0 then break else advance
    | some (.sym ")") => if depth = 0 then break else advance; depth := depth - 1
    | some (.sym "(") => advance; depth := depth + 1
    | some (.word w) =>
      let u := w.toUpper
      if u == "PRIMARY" then primaryKey := true
      if u == "AUTOINCREMENT" then auto := true
      if u == "DESC" && primaryKey then primaryKey := false
      advance
    | some _ => advance
  return ({ name := n, affinity := Affinity.ofType t }, primaryKey && t.toUpper == "INTEGER", auto)

/-- Whether a definition in a table's list is a table constraint rather than a column. -/
def tableConstraint : Parsing Bool := do
  match ← peek with
  | some (.word w) => return ["PRIMARY", "UNIQUE", "CHECK", "FOREIGN", "CONSTRAINT"].contains w.toUpper
  | _ => return false

/-- Skips a table constraint. -/
def skipConstraint : Parsing Unit := do
  let mut depth := 0
  for _ in List.range 10000 do
    match ← peek with
    | none => break
    | some (.sym ",") => if depth = 0 then break else advance
    | some (.sym ")") => if depth = 0 then break else advance; depth := depth - 1
    | some (.sym "(") => advance; depth := depth + 1
    | some _ => advance

/-- The body of `CREATE TABLE`. -/
def createTable : Parsing Statement := do
  let ifNotExists ← if ← keyword? "IF" then keyword "NOT"; keyword "EXISTS"; pure true else pure false
  let n ← qualifiedName
  symbol "("
  let mut columns := []
  let mut idColumn := none
  let mut auto := false
  for _ in List.range 10000 do
    if ← tableConstraint then skipConstraint
    else
      let (c, isId, a) ← columnDef
      if isId then idColumn := some columns.length; auto := a
      columns := columns ++ [c]
    if !(← symbol? ",") then break
  symbol ")"
  return .createTable { name := n, columns, idColumn, autoincrement := auto } ifNotExists

/-- Skips to the end of the statement. -/
def skipStatement : Parsing Unit := do
  for _ in List.range 1000000 do
    match ← peek with
    | none | some (.sym ";") => break
    | _ => advance

/-- A row of values in parentheses. -/
def valueRow : Parsing (List Expr) := do
  symbol "("
  let es ← exprList depth
  symbol ")"
  return es

/-- The body of `INSERT` after its keyword. -/
def insertBody (ctes : List CommonTable) : Parsing Statement := do
  if ← keyword? "OR" then advance
  keyword "INTO"
  let table ← qualifiedName
  let columns ← if (← peek) == some (.sym "(") then pure (some (← nameList)) else pure none
  if ← keyword? "VALUES" then
    let mut rows := [← valueRow]
    for _ in List.range 1000000 do
      if ← symbol? "," then rows := rows ++ [← valueRow] else break
    return .insert ctes table columns (.values rows)
  else
    let q ← select
    return .insert ctes table columns (.query q)

/-- A common table of a `WITH` clause. -/
def commonTable : Parsing CommonTable := do
  let n ← name
  let columns ← if (← peek) == some (.sym "(") then nameList else pure []
  keyword "AS"
  symbol "("
  let parts ← compound
  symbol ")"
  return { name := n, columns, parts }

/-- One statement. -/
def statement : Parsing Statement := do
  if ← keyword? "CREATE" then
    let _ ← keyword? "TEMP"
    let _ ← keyword? "TEMPORARY"
    if ← keyword? "TABLE" then createTable
    else
      let _ ← keyword? "UNIQUE"
      if ← keyword? "INDEX" then skipStatement; return .nothing
      unexpected
  else if ← keyword? "INSERT" then insertBody []
  else if ← keyword? "REPLACE" then
    keyword "INTO"
    let table ← qualifiedName
    let columns ← if (← peek) == some (.sym "(") then pure (some (← nameList)) else pure none
    keyword "VALUES"
    let mut rows := [← valueRow]
    for _ in List.range 1000000 do
      if ← symbol? "," then rows := rows ++ [← valueRow] else break
    return .insert [] table columns (.values rows)
  else if ← keyword? "WITH" then
    let _ ← keyword? "RECURSIVE"
    let mut ctes := [← commonTable]
    for _ in List.range 100 do
      if ← symbol? "," then ctes := ctes ++ [← commonTable] else break
    keyword "INSERT"
    insertBody ctes
  else if ← keyword? "UPDATE" then
    let table ← qualifiedName
    keyword "SET"
    let mut sets := []
    for _ in List.range 10000 do
      let c ← name
      symbol "="
      sets := sets ++ [(c, ← expr depth 0)]
      if !(← symbol? ",") then break
    let filter ← if ← keyword? "WHERE" then pure (some (← expr depth 0)) else pure none
    return .update table sets filter
  else if ← keyword? "DELETE" then
    keyword "FROM"
    let table ← qualifiedName
    let filter ← if ← keyword? "WHERE" then pure (some (← expr depth 0)) else pure none
    return .delete table filter
  else if ← keyword? "DROP" then
    keyword "TABLE"
    let ifExists ← if ← keyword? "IF" then keyword "EXISTS"; pure true else pure false
    return .dropTable (← qualifiedName) ifExists
  else if (← keyword? "BEGIN") || (← keyword? "COMMIT") || (← keyword? "END") then
    skipStatement; return .nothing
  else unexpected

/-- Statements separated by semicolons. -/
def statements : Parsing (List Statement) := do
  let mut out := []
  for _ in List.range 1000000 do
    if ← symbol? ";" then continue
    if (← peek).isNone then break
    out := out ++ [← statement]
    if (← peek).isSome then symbol ";"
  return out

end Parsing

/-- Parses statement text. -/
def parse (text : String) : Except String (List Statement) := do
  let tokens ← tokenize text
  (Parsing.statements.run.run tokens).1

end TransitFeed.Sql
