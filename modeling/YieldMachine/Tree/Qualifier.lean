import YieldMachine.Tree.TopLevel

/-!
# Qualifiers

A selector on a name that nothing around it declares is a qualified name, and the name
is a qualifier: it can only stand for an imported package.  `qualifiers` lists the
qualifiers of a tree, given the names that are declared around it.
-/

namespace YieldMachine

/-- The name in front of a selector, unless it is declared. -/
def Expr.unbound (bound : List String) : Expr → List String
  | .ident x _ => if bound.contains x then [] else [x]
  | _ => []

/-- The names that a statement declares for the statements after it. -/
def Stmt.declared : Stmt → List String
  | .assign .define lhs _ => lhs.filterMap Expr.name?
  | .labeled _ stmt => stmt.declared
  | .decl _ specs => specs.flatMap Spec.names
  | _ => []

mutual

/-- The qualifiers of an expression. -/
def Expr.qualifiers (bound : List String) : Expr → List String
  | .missing => []
  | .ident _ _ => []
  | .lit _ _ => []
  | .sel x _ => x.unbound bound ++ x.qualifiers bound
  | .index x i => x.qualifiers bound ++ i.qualifiers bound
  | .indexList x is => x.qualifiers bound ++ exprsQualifiers bound is
  | .slice x low high max _ =>
    x.qualifiers bound ++ low.qualifiers bound ++ high.qualifiers bound ++ max.qualifiers bound
  | .assert x ty => x.qualifiers bound ++ ty.qualifiers bound
  | .call fn args _ => fn.qualifiers bound ++ exprsQualifiers bound args
  | .star x => x.qualifiers bound
  | .unary _ x => x.qualifiers bound
  | .binary _ x y => x.qualifiers bound ++ y.qualifiers bound
  | .paren x => x.qualifiers bound
  | .pair key value => key.qualifiers bound ++ value.qualifiers bound
  | .composite ty elements => ty.qualifiers bound ++ exprsQualifiers bound elements
  | .func signature body =>
    signature.qualifiers bound
      ++ body.qualifiers (signature.params.names ++ signature.results.names ++ bound)
  | .funcType signature => signature.qualifiers bound
  | .array length element => length.qualifiers bound ++ element.qualifiers bound
  | .map key element => key.qualifiers bound ++ element.qualifiers bound
  | .chan _ element => element.qualifiers bound
  | .struct fields => fields.qualifiers bound
  | .interface fields => fields.qualifiers bound
  | .ellipsis element => element.qualifiers bound

/-- The qualifiers of expressions. -/
def exprsQualifiers (bound : List String) : List Expr → List String
  | [] => []
  | e :: es => e.qualifiers bound ++ exprsQualifiers bound es

/-- The qualifiers of the types of a signature. -/
def Signature.qualifiers (bound : List String) : Signature → List String
  | .mk typeParams params results =>
    typeParams.qualifiers bound ++ params.qualifiers bound ++ results.qualifiers bound

/-- The qualifiers of the types of a field list. -/
def Fields.qualifiers (bound : List String) : Fields → List String
  | .absent => []
  | .list fs => fieldsQualifiers bound fs

/-- The qualifiers of the types of fields. -/
def fieldsQualifiers (bound : List String) : List Field → List String
  | [] => []
  | f :: fs => f.qualifiers bound ++ fieldsQualifiers bound fs

/-- The qualifiers of the type of a field. -/
def Field.qualifiers (bound : List String) : Field → List String
  | .mk _ ty _ => ty.qualifiers bound

/-- The qualifiers of a statement. -/
def Stmt.qualifiers (bound : List String) : Stmt → List String
  | .missing => []
  | .empty => []
  | .expr x => x.qualifiers bound
  | .send channel value => channel.qualifiers bound ++ value.qualifiers bound
  | .incDec _ x => x.qualifiers bound
  | .assign .define _ rhs => exprsQualifiers bound rhs
  | .assign _ lhs rhs => exprsQualifiers bound lhs ++ exprsQualifiers bound rhs
  | .go call => call.qualifiers bound
  | .defer call => call.qualifiers bound
  | .ret results => exprsQualifiers bound results
  | .branch _ _ => []
  | .block body => stmtsQualifiers bound body
  | .ite init cond body other =>
    let inner := init.declared ++ bound
    init.qualifiers bound ++ cond.qualifiers inner ++ stmtsQualifiers inner body
      ++ other.qualifiers inner
  | .switch init tag clauses =>
    let inner := init.declared ++ bound
    init.qualifiers bound ++ tag.qualifiers inner ++ clausesQualifiers inner clauses
  | .typeSwitch init guard clauses =>
    let inner := init.declared ++ bound
    init.qualifiers bound ++ guard.qualifiers inner
      ++ clausesQualifiers (guard.declared ++ inner) clauses
  | .select clauses => commsQualifiers bound clauses
  | .loop init cond post body =>
    let inner := init.declared ++ bound
    init.qualifiers bound ++ cond.qualifiers inner ++ post.qualifiers inner
      ++ stmtsQualifiers inner body
  | .range key value .define x body =>
    x.qualifiers bound ++ stmtsQualifiers ([key, value].filterMap Expr.name? ++ bound) body
  | .range key value _ x body =>
    x.qualifiers bound ++ key.qualifiers bound ++ value.qualifiers bound
      ++ stmtsQualifiers bound body
  | .labeled _ stmt => stmt.qualifiers bound
  | .decl _ specs => specsQualifiers bound specs

/-- The qualifiers of a statement list; each statement sees what those before it
declare. -/
def stmtsQualifiers (bound : List String) : List Stmt → List String
  | [] => []
  | s :: ss => s.qualifiers bound ++ stmtsQualifiers (s.declared ++ bound) ss

/-- The qualifiers of the clauses of a switch. -/
def clausesQualifiers (bound : List String) : List Clause → List String
  | [] => []
  | c :: cs => c.qualifiers bound ++ clausesQualifiers bound cs

/-- The qualifiers of a clause of a switch. -/
def Clause.qualifiers (bound : List String) : Clause → List String
  | .case values body => exprsQualifiers bound values ++ stmtsQualifiers bound body
  | .default body => stmtsQualifiers bound body

/-- The qualifiers of the clauses of a select. -/
def commsQualifiers (bound : List String) : List CommClause → List String
  | [] => []
  | c :: cs => c.qualifiers bound ++ commsQualifiers bound cs

/-- The qualifiers of a clause of a select. -/
def CommClause.qualifiers (bound : List String) : CommClause → List String
  | .mk comm body => comm.qualifiers bound ++ stmtsQualifiers (comm.declared ++ bound) body

/-- The qualifiers of the entries of a declaration; each entry sees what those before it
declare. -/
def specsQualifiers (bound : List String) : List Spec → List String
  | [] => []
  | s :: ss => s.qualifiers bound ++ specsQualifiers (s.names ++ bound) ss

/-- The qualifiers of an entry of a declaration.  A type sees its own name and its type
parameters, a value does not see itself. -/
def Spec.qualifiers (bound : List String) : Spec → List String
  | .value _ ty values => ty.qualifiers bound ++ exprsQualifiers bound values
  | .type name typeParams _ ty =>
    let inner := typeParams.names ++ name :: bound
    typeParams.qualifiers inner ++ ty.qualifiers inner
  | .imported _ _ => []

end

/-- The type parameters that a receiver names. -/
def recvTypeParams : Fields → List String
  | .list (.mk _ (.star (.index _ i)) _ :: _) => [i].filterMap Expr.name?
  | .list (.mk _ (.index _ i) _ :: _) => [i].filterMap Expr.name?
  | .list (.mk _ (.star (.indexList _ is)) _ :: _) => is.filterMap Expr.name?
  | .list (.mk _ (.indexList _ is) _ :: _) => is.filterMap Expr.name?
  | _ => []

/-- The qualifiers of a function declaration. -/
def FuncDecl.qualifiers (bound : List String) (f : FuncDecl) : List String :=
  let types := f.signature.typeParams.names ++ recvTypeParams f.recv ++ bound
  let inner := f.recv.names ++ f.signature.params.names ++ f.signature.results.names ++ types
  f.recv.qualifiers types ++ f.signature.qualifiers types
    ++ stmtsQualifiers inner (f.body.getD [])

/-- The qualifiers of a declaration of a file. -/
def TopLevel.qualifiers (bound : List String) : TopLevel → List String
  | .func f => f.qualifiers bound
  | .group d => specsQualifiers bound d.specs

/-- The qualifiers of the declarations of a file, which all see each other. -/
def fileQualifiers (decls : List TopLevel) : List String :=
  decls.flatMap (TopLevel.qualifiers (decls.flatMap TopLevel.names))

end YieldMachine
