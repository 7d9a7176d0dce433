import YieldMachine.Exchange.Tree
import YieldMachine.Generated.File

/-!
# Generated files as documents
-/

namespace YieldMachine

/-- Texts in order. -/
def sortTexts (xs : List String) : List String := xs.mergeSort fun x y => decide (x ≤ y)

/-- Writes a function declaration. -/
def FuncDecl.toDoc (style : TreeStyle) (f : FuncDecl) : Doc :=
  .tagged "funcdecl" [.text f.name, f.recv.toDoc style, f.signature.toDoc style,
    .option (fun body => (Stmt.block body).toDoc style) f.body]

/-- Writes a declaration of a file. -/
def TopLevel.toDoc (style : TreeStyle) : TopLevel → Doc
  | .func f => f.toDoc style
  | .group d => d.toDoc style

/-- The text of an import. -/
def ImportSpec.text (s : ImportSpec) : String :=
  match s.name with
  | some name => s.path ++ " " ++ name
  | none => s.path

/-- Writes a generated file.  The order of imports and comments does not count, nor do
comments that say nothing. -/
def GeneratedFile.toDoc (f : GeneratedFile) : Doc :=
  .record [("header", .texts f.header), ("package", .text f.pkg),
    ("imports", .texts (sortTexts (f.imports.map ImportSpec.text))),
    ("decls", .listOf (TopLevel.toDoc .essential) f.decls),
    ("comments", .texts (sortTexts (f.comments.filter (· != "//"))))]

end YieldMachine
