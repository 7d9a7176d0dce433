import YieldMachine.Source.Tree
import YieldMachine.Text.DocComment

/-!
# The comments of a generated file

A compiled generator keeps the comment that documents it.  Any other declaration keeps
the comments in front of it, inside of it and, after a single entry, at the end of its
line.  Comments between declarations are lost.
-/

namespace YieldMachine

namespace Source

/-- Whether a group of comments asks for a command to be run. -/
def CommentGroup.isCommand (g : CommentGroup) : Bool :=
  g.lines.any fun line => "//go:generate ".toList.isPrefixOf line.toList

/-- Where a declaration starts, with its documentation. -/
def TopDecl.start (d : TopDecl) : Pos :=
  match d.doc with
  | some (pos, _) => pos
  | none => d.pos

/-- Whether a declaration is a group of entries. -/
def TopDecl.isGroup (d : TopDecl) : Bool :=
  match d.form with
  | .group _ _ => true
  | .func _ => false

/-- Whether a group of comments belongs to the only entry of a declaration, on the line
that it ends in. -/
def TopDecl.isTrailing (d : TopDecl) (g : CommentGroup) : Bool :=
  d.isGroup && !d.grouped && g.pos.line == d.stop.line && !g.pos.before d.stop

/-- Whether a group of comments is inside of a declaration or in front of it. -/
def TopDecl.encloses (d : TopDecl) (g : CommentGroup) : Bool :=
  !g.pos.before d.start && g.pos.before d.stop

/-- Whether a group of comments is attached to a declaration or to one of its entries. -/
def TopDecl.attaches (d : TopDecl) (g : CommentGroup) : Bool :=
  d.isTrailing g
    || (match d.doc with
        | some (pos, _) => g.pos == pos
        | none => false)
    || (d.isGroup && d.encloses g)

/-- The comments that a declaration keeps, of those before `limit`: where the next one
starts.  Commands are left out unless there are no others. -/
def TopDecl.keptComments (d : TopDecl) (comments : List CommentGroup) (limit : Pos) :
    List CommentGroup :=
  let kept := comments.filter fun g =>
    (d.encloses g || d.isTrailing g) && g.pos.before limit && !g.isCommand
  if kept.isEmpty then comments.filter d.attaches else kept

/-- The lines of a group of comments that a declaration keeps. -/
def TopDecl.commentLines (d : TopDecl) (g : CommentGroup) : List String :=
  match d.doc with
  | some (pos, _) => if g.pos == pos then layoutDoc g.lines else g.lines.map trimComment
  | none => g.lines.map trimComment

end Source

end YieldMachine
