import YieldMachine.Exchange.Tree
import YieldMachine.Source.Scan
import YieldMachine.Text.Space

/-!
# Checked sources as documents

Every expression, statement and declaration ends in a record about its site.  Objects
and types are listed once and referred to by their numbers.
-/

namespace YieldMachine.Source

/-- Reads a field of a struct type. -/
def TyField.read? (read : Doc → Option Ty) : Doc → Option TyField
  | .list [.text name, ty, .bool embedded, .text tag] => return .mk name (← read ty) embedded tag
  | _ => none

/-- Reads a parameter. -/
def TyParam.read? (read : Doc → Option Ty) : Doc → Option TyParam
  | .list [.text name, ty] => return .mk name (← read ty)
  | _ => none

/-- Reads a method. -/
def TyMethod.read? (read : Doc → Option Ty) : Doc → Option TyMethod
  | .list [.text name, ty] => do
    match ← read ty with
    | .func signature => return .mk name signature
    | _ => none
  | _ => none

/-- Reads a term of a union. -/
def TyTerm.read? (read : Doc → Option Ty) : Doc → Option TyTerm
  | .list [.bool tilde, ty] => return .mk tilde (← read ty)
  | _ => none

/-- Reads the package of a named type; predeclared types have none. -/
def readPackage? (d : Doc) : Option (Option PackageRef) :=
  match d.field "pkg" with
  | .text path => return some ⟨path, ← (d.field "pkgname").text?⟩
  | _ => some none

/-- Reads a type the parts of which are read by `read`. -/
def readTyForm? (read : Doc → Option Ty) (d : Doc) : Option Ty := do
  match ← (d.field "k").text? with
  | "basic" =>
    let name ← (d.field "name").text?
    return if name == "Pointer" then .named (some ⟨"unsafe", "unsafe"⟩) name [] else .basic name
  | "named" =>
    return .named (← readPackage? d) (← (d.field "name").text?) (← (d.field "args").listOf? read)
  | "alias" =>
    return .synonym (← readPackage? d) (← (d.field "name").text?)
      (((d.field "args").listOf? read).getD [])
  | "typeparam" => return .param (← (d.field "name").text?)
  | "pointer" => return .pointer (← read (d.field "elem"))
  | "slice" => return .slice (← read (d.field "elem"))
  | "array" => return .array (← (d.field "len").int?) (← read (d.field "elem"))
  | "map" => return .map (← read (d.field "key")) (← read (d.field "elem"))
  | "chan" =>
    return .chan (← ChanDir.ofNumber? (← (d.field "dir").nat?)) (← read (d.field "elem"))
  | "struct" => return .struct (← (d.field "fields").listOf? (TyField.read? read))
  | "func" =>
    return .func (.mk (← (d.field "params").listOf? (TyParam.read? read))
      (← (d.field "results").listOf? (TyParam.read? read)) ((d.field "variadic").bool?.getD false))
  | "iface" =>
    return .interface (← (d.field "methods").listOf? (TyMethod.read? read))
      (← (d.field "embeds").listOf? read) ((d.field "implicit").bool?.getD false)
  | "union" => return .union (← (d.field "terms").listOf? (TyTerm.read? read))
  | "tuple" => return .tuple []
  | _ => none

/-- Reads the type with a number.  The second argument bounds the depth. -/
def readTy? (table : List Doc) : Nat → Doc → Option Ty
  | 0, _ => none
  | bound + 1, ref => do
    readTyForm? (readTy? table bound) (← table[← ref.nat?]?)

/-- Whether the values of the type with a number are arrays; if so, the number of the
element type. -/
def readArray? (table : List Doc) : Nat → Doc → Option Doc
  | 0, _ => none
  | bound + 1, ref => do
    let d ← table[← ref.nat?]?
    match ← (d.field "k").text? with
    | "array" => return d.field "elem"
    | "named" => readArray? table bound (d.field "under")
    | "alias" => readArray? table bound (d.field "rhs")
    | _ => none

/-- Reads the shape of the type with a number.  `self` is the type that is asked for,
under whatever name. -/
def readShape? (table : List Doc) (read : Doc → Option Ty) (self : Ty) : Nat → Doc → Option Shape
  | 0, _ => none
  | _ + 1, .text "struct" => some .struct
  | _ + 1, .text _ => some .other
  | bound + 1, ref => do
    let d ← table[← ref.nat?]?
    match ← (d.field "k").text? with
    | "basic" =>
      if (d.field "string").bool? == some true then return .text
      else if (d.field "integer").bool? == some true then
        return .integer ((read (d.field "default")).getD self)
      else return .other
    | "named" => readShape? table read self bound (d.field "under")
    | "alias" => readShape? table read self bound (d.field "rhs")
    | "pointer" =>
      match readArray? table table.length (d.field "elem") with
      | some element => return .arrayPointer (← read element)
      | none => return .other
    | "slice" => return .slice (← read (d.field "elem"))
    | "array" => return .array (← read (d.field "elem"))
    | "map" => return .map (← read (d.field "key")) (← read (d.field "elem"))
    | "chan" => return .chan (← read (d.field "elem"))
    | "struct" => return .struct
    | "func" => return .func
    | _ => return .other

/-- What the numbers in a source stand for. -/
structure Tables where
  objects : List Object
  types : List Doc

/-- Reads the type with a number. -/
def Tables.ty? (t : Tables) (ref : Doc) : Option Ty := readTy? t.types (t.types.length + 1) ref

/-- Reads the type and the shape of the type with a number. -/
def Tables.typed? (t : Tables) (ref : Doc) : Option Typed := do
  let ty ← t.ty? ref
  return ⟨ty, ← readShape? t.types t.ty? ty (t.types.length + 1) ref⟩

/-- Reads a position. -/
def Pos.ofDoc? (d : Doc) : Option Pos := do
  match (splitChars ':' (← d.text?).toList).map String.ofList with
  | [line, column] => return ⟨← line.toNat?, ← column.toNat?⟩
  | _ => none

/-- Reads an object. -/
def Object.ofDoc? (types : List Doc) (d : Doc) : Option Object := do
  let type ← if (d.field "var").bool? == some true then
      (readTy? types (types.length + 1) (d.field "t")).map some
    else some none
  return ⟨← (d.field "name").text?, (d.field "pkg").text?.getD "", type⟩

/-- Reads the site of an expression. -/
def Tables.site? (t : Tables) (info : Doc) : Option Site := do
  let typed ← (info.field "t").option? t.typed?
  return ⟨← Pos.ofDoc? (info.field "p"), typed, (info.field "nil").bool?.getD false⟩

/-- Reads what an identifier denotes. -/
def Tables.ref? (t : Tables) (defines : Bool) (d : Doc) : Option Ref := do
  let id ← d.nat?
  return ⟨id, defines, ← t.objects[id]?⟩

/-- Reads an identifier. -/
def Tables.ident? (t : Tables) : Doc → Option Ident
  | .list [.text "id", .text name, info] => do
    let ref ← (info.field "o").option? (t.ref? ((info.field "d").bool?.getD false))
    return ⟨name, ← Pos.ofDoc? (info.field "p"), ref⟩
  | _ => none

/-- Reads identifiers. -/
def Tables.idents? (t : Tables) (d : Doc) : Option (List Ident) := d.listOf? t.ident?

/-- An expression at a site. -/
def Tables.at? (t : Tables) (info : Doc) (form : Option Form) : Option Expr :=
  return .mk (← t.site? info) (← form)

/-- A statement at a position. -/
def stmtAt? (info : Doc) (form : Option StmtForm) : Option Stmt :=
  return .mk (← Pos.ofDoc? (info.field "p")) (← form)

mutual

/-- Reads an expression. -/
def Expr.ofDoc? (t : Tables) : Doc → Option Expr
  | .null => some .missing
  | .list [.text "id", .text x, info] =>
    t.at? info (do return .ident (← t.ident? (.list [.text "id", .text x, info])))
  | .list [.text "lit", .text kind, .text text, info] =>
    t.at? info (do return .lit (← LitKind.ofText? kind) text)
  | .list [.text "sel", x, member, info] =>
    t.at? info (do return .sel (← Expr.ofDoc? t x) (← t.ident? member))
  | .list [.text "index", x, i, info] =>
    t.at? info (do return .index (← Expr.ofDoc? t x) (← Expr.ofDoc? t i))
  | .list [.text "indexlist", x, .list is, info] =>
    t.at? info (do return .indexList (← Expr.ofDoc? t x) (← exprsOfDocs? t is))
  | .list [.text "slice", x, low, high, max, .bool three, info] =>
    t.at? info (do
      return .slice (← Expr.ofDoc? t x) (← Expr.ofDoc? t low) (← Expr.ofDoc? t high)
        (← Expr.ofDoc? t max) three)
  | .list [.text "assert", x, ty, info] =>
    t.at? info (do return .assert (← Expr.ofDoc? t x) (← Expr.ofDoc? t ty))
  | .list [.text "call", fn, .list args, .bool spread, info] =>
    t.at? info (do return .call (← Expr.ofDoc? t fn) (← exprsOfDocs? t args) spread)
  | .list [.text "star", x, info] => t.at? info (do return .star (← Expr.ofDoc? t x))
  | .list [.text "un", .text op, x, info] =>
    t.at? info (do return .unary (← UnaryOp.ofText? op) (← Expr.ofDoc? t x))
  | .list [.text "bin", .text op, x, y, info] =>
    t.at? info (do
      return .binary (← BinaryOp.ofText? op) (← Expr.ofDoc? t x) (← Expr.ofDoc? t y))
  | .list [.text "paren", x, info] => t.at? info (do return .paren (← Expr.ofDoc? t x))
  | .list [.text "kv", key, value, info] =>
    t.at? info (do return .pair (← Expr.ofDoc? t key) (← Expr.ofDoc? t value))
  | .list [.text "comp", ty, .list elements, info] =>
    t.at? info (do return .composite (← Expr.ofDoc? t ty) (← exprsOfDocs? t elements))
  | .list [.text "func", signature, .list [.text "block", .list body, _], info] =>
    t.at? info (do return .func (← Signature.ofDoc? t signature) (← stmtsOfDocs? t body))
  | .list [.text "functype", typeParams, params, results, info] =>
    t.at? info (do
      return .funcType (.mk (← Fields.ofDoc? t typeParams) (← Fields.ofDoc? t params)
        (← Fields.ofDoc? t results)))
  | .list [.text "array", length, element, info] =>
    t.at? info (do return .array (← Expr.ofDoc? t length) (← Expr.ofDoc? t element))
  | .list [.text "map", key, element, info] =>
    t.at? info (do return .map (← Expr.ofDoc? t key) (← Expr.ofDoc? t element))
  | .list [.text "chan", .int direction, element, info] =>
    t.at? info (do return .chan (← ChanDir.ofNumber? direction.toNat) (← Expr.ofDoc? t element))
  | .list [.text "struct", fields, info] =>
    t.at? info (do return .struct (← Fields.ofDoc? t fields))
  | .list [.text "iface", fields, info] =>
    t.at? info (do return .interface (← Fields.ofDoc? t fields))
  | .list [.text "ellipsis", element, info] =>
    t.at? info (do return .ellipsis (← Expr.ofDoc? t element))
  | _ => none

/-- Reads a list of expressions. -/
def exprsOfDocs? (t : Tables) : List Doc → Option (List Expr)
  | [] => some []
  | d :: ds => return (← Expr.ofDoc? t d) :: (← exprsOfDocs? t ds)

/-- Reads a signature. -/
def Signature.ofDoc? (t : Tables) : Doc → Option Signature
  | .list [.text "functype", typeParams, params, results, _] =>
    return .mk (← Fields.ofDoc? t typeParams) (← Fields.ofDoc? t params)
      (← Fields.ofDoc? t results)
  | _ => none

/-- Reads a field list. -/
def Fields.ofDoc? (t : Tables) : Doc → Option Fields
  | .null => some .absent
  | .list fs => return .list (← fieldsOfDocs? t fs)
  | _ => none

/-- Reads the fields of a list. -/
def fieldsOfDocs? (t : Tables) : List Doc → Option (List Field)
  | [] => some []
  | d :: ds => return (← Field.ofDoc? t d) :: (← fieldsOfDocs? t ds)

/-- Reads a field. -/
def Field.ofDoc? (t : Tables) : Doc → Option Field
  | .list [names, ty, tag] =>
    return .mk (← t.idents? names) (← Expr.ofDoc? t ty) (← tag.option? Doc.text?)
  | _ => none

/-- Reads a statement. -/
def Stmt.ofDoc? (t : Tables) : Doc → Option Stmt
  | .null => some .missing
  | .list [.text "empty", info] => stmtAt? info (some .empty)
  | .list [.text "expr", x, info] => stmtAt? info (do return .expr (← Expr.ofDoc? t x))
  | .list [.text "send", channel, value, info] =>
    stmtAt? info (do return .send (← Expr.ofDoc? t channel) (← Expr.ofDoc? t value))
  | .list [.text "incdec", .text op, x, info] =>
    stmtAt? info (do return .incDec (op == "++") (← Expr.ofDoc? t x))
  | .list [.text "assign", .text op, .list lhs, .list rhs, info] =>
    stmtAt? info (do
      return .assign (← AssignKind.ofText? op) (← exprsOfDocs? t lhs) (← exprsOfDocs? t rhs))
  | .list [.text "go", call, info] => stmtAt? info (do return .go (← Expr.ofDoc? t call))
  | .list [.text "defer", call, info] => stmtAt? info (do return .defer (← Expr.ofDoc? t call))
  | .list [.text "return", .list results, info] =>
    stmtAt? info (do return .ret (← exprsOfDocs? t results))
  | .list [.text "branch", .text kind, label, info] =>
    stmtAt? info (do return .branch (← BranchKind.ofText? kind) (← label.option? t.ident?))
  | .list [.text "block", .list body, info] =>
    stmtAt? info (do return .block (← stmtsOfDocs? t body))
  | .list [.text "if", init, cond, .list [.text "block", .list body, _], other, info] =>
    stmtAt? info (do
      return .ite (← Stmt.ofDoc? t init) (← Expr.ofDoc? t cond) (← stmtsOfDocs? t body)
        (← Stmt.ofDoc? t other))
  | .list [.text "switch", init, tag, .list clauses, info] =>
    stmtAt? info (do
      return .switch (← Stmt.ofDoc? t init) (← Expr.ofDoc? t tag) (← clausesOfDocs? t clauses))
  | .list [.text "typeswitch", init, guard, .list clauses, info] =>
    stmtAt? info (do
      return .typeSwitch (← Stmt.ofDoc? t init) (← Stmt.ofDoc? t guard)
        (← clausesOfDocs? t clauses))
  | .list [.text "select", .list clauses, info] =>
    stmtAt? info (do return .select (← commsOfDocs? t clauses))
  | .list [.text "for", init, cond, post, .list [.text "block", .list body, _], info] =>
    stmtAt? info (do
      return .loop (← Stmt.ofDoc? t init) (← Expr.ofDoc? t cond) (← Stmt.ofDoc? t post)
        (← stmtsOfDocs? t body))
  | .list [.text "range", key, value, .text kind, x, .list [.text "block", .list body, _], info] =>
    stmtAt? info (do
      return .range (← Expr.ofDoc? t key) (← Expr.ofDoc? t value) (← RangeKind.ofText? kind)
        (← Expr.ofDoc? t x) (← stmtsOfDocs? t body))
  | .list [.text "labeled", label, stmt, info] =>
    stmtAt? info (do return .labeled (← t.ident? label) (← Stmt.ofDoc? t stmt))
  | .list [.text "decl", .list [.text "gen", .text kind, .list specs, _], info] =>
    stmtAt? info (do return .decl (← DeclKind.ofText? kind) (← specsOfDocs? t specs))
  | _ => none

/-- Reads a statement list. -/
def stmtsOfDocs? (t : Tables) : List Doc → Option (List Stmt)
  | [] => some []
  | d :: ds => return (← Stmt.ofDoc? t d) :: (← stmtsOfDocs? t ds)

/-- Reads the clauses of a switch. -/
def clausesOfDocs? (t : Tables) : List Doc → Option (List Clause)
  | [] => some []
  | d :: ds => return (← Clause.ofDoc? t d) :: (← clausesOfDocs? t ds)

/-- Reads a clause of a switch. -/
def Clause.ofDoc? (t : Tables) : Doc → Option Clause
  | .list [.text "case", .null, .list body, _] => return .default (← stmtsOfDocs? t body)
  | .list [.text "case", .list values, .list body, _] =>
    return .case (← exprsOfDocs? t values) (← stmtsOfDocs? t body)
  | _ => none

/-- Reads the clauses of a select. -/
def commsOfDocs? (t : Tables) : List Doc → Option (List CommClause)
  | [] => some []
  | d :: ds => return (← CommClause.ofDoc? t d) :: (← commsOfDocs? t ds)

/-- Reads a clause of a select. -/
def CommClause.ofDoc? (t : Tables) : Doc → Option CommClause
  | .list [.text "comm", comm, .list body, _] =>
    return .mk (← Stmt.ofDoc? t comm) (← stmtsOfDocs? t body)
  | _ => none

/-- Reads the entries of a declaration. -/
def specsOfDocs? (t : Tables) : List Doc → Option (List Spec)
  | [] => some []
  | d :: ds => return (← Spec.ofDoc? t d) :: (← specsOfDocs? t ds)

/-- Reads an entry of a declaration. -/
def Spec.ofDoc? (t : Tables) : Doc → Option Spec
  | .list [.text "value", names, ty, .list values] =>
    return .value (← t.idents? names) (← Expr.ofDoc? t ty) (← exprsOfDocs? t values)
  | .list [.text "type", name, typeParams, .bool isAlias, ty] =>
    return .type (← t.ident? name) (← Fields.ofDoc? t typeParams) isAlias (← Expr.ofDoc? t ty)
  | .list [.text "import", name, .text path] => return .imported (← name.option? Doc.name?) path
  | _ => none

end

/-- Reads the type parameter of a receiver. -/
def Tables.recvTypeParam? (t : Tables) : Doc → Option (String × Ty)
  | .list [.text name, ty] => return (name, ← t.ty? ty)
  | _ => none

/-- Whether the text from a position on is a word and an open parenthesis. -/
def opensGroup (lines : List (List Char)) (p : Pos) : Bool :=
  let rest := (lines.drop (p.line - 1)).flatMap (· ++ ['\n'])
  ((rest.drop (p.column - 1)).dropWhile Char.isAlpha).find? (!isSpace ·) == some '('

/-- Reads a declaration at its place in a file with the given lines. -/
def topAt? (lines : List (List Char)) (info : Doc) (form : Option TopForm) :
    Option TopDecl := do
  let doc ← (info.field "doc").option? Doc.names?
  let docPos := (Pos.ofDoc? (info.field "docp")).getD ⟨0, 0⟩
  let doc := doc.map (docPos, ·)
  let pos ← Pos.ofDoc? (info.field "p")
  return ⟨← form, pos, ← Pos.ofDoc? (info.field "e"), doc, opensGroup lines pos⟩

/-- Reads the statements of a block. -/
def blockOfDoc? (t : Tables) : Doc → Option (List Stmt)
  | .list [.text "block", .list body, _] => stmtsOfDocs? t body
  | _ => none

/-- Reads a declaration of a file with the given lines. -/
def TopDecl.ofDoc? (t : Tables) (lines : List (List Char)) : Doc → Option TopDecl
  | .list [.text "gen", .text kind, .list specs, info] =>
    topAt? lines info (do return .group (← DeclKind.ofText? kind) (← specsOfDocs? t specs))
  | .list [.text "funcdecl", name, recv, signature, body, info] =>
    topAt? lines info (do
      let body ← body.option? (blockOfDoc? t)
      let params ← (info.field "rtp").option? (·.listOf? t.recvTypeParam?)
      return .func ⟨← t.ident? name, ← Fields.ofDoc? t recv, ← Signature.ofDoc? t signature,
        body, params.getD []⟩)
  | _ => none

/-- Reads an import. -/
def Import.ofDoc? : Doc → Option Import
  | .list (name :: .text path :: rest) =>
    return ⟨← name.option? Doc.name?, path, (rest.head?.bind Doc.text?)⟩
  | _ => none

/-- Reads a group of comments. -/
def CommentGroup.ofDoc? : Doc → Option CommentGroup
  | .list [pos, lines] => return ⟨← Pos.ofDoc? pos, ← lines.names?⟩
  | _ => none

/-- Reads a source file. -/
def File.ofDoc? (t : Tables) (d : Doc) : Option File := do
  let lines := splitChars '\n' (((d.field "src").text?.getD "").toList)
  return {
    name := ← (d.field "name").text?
    pkg := ← (d.field "package").text?
    pkgPos := ← Pos.ofDoc? (d.field "packagePos")
    doc := (d.field "doc").names?.getD []
    imports := ← (d.field "imports").listOf? Import.ofDoc?
    comments := ← (d.field "comments").listOf? CommentGroup.ofDoc?
    stop := ← Pos.ofDoc? (d.field "end")
    decls := ← (d.field "decls").listOf? (TopDecl.ofDoc? t lines) }

/-- Reads a package.  Files that are excluded from it are left out. -/
def Package.ofDoc? (d : Doc) : Option Package := do
  let types ← (d.field "types").list?
  let t : Tables := ⟨← (d.field "objs").listOf? (Object.ofDoc? types), types⟩
  let files := (← (d.field "files").list?).filter fun f => (f.field "excluded").isNull
  return ⟨← (d.field "path").text?, ← files.mapM (File.ofDoc? t), ← (d.field "scope").names?⟩

end YieldMachine.Source
