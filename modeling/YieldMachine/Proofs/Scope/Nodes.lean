import YieldMachine.Proofs.Meaning.WellFormed

/-!
# The nodes of a tree

A tree consists of nodes.  `Node.parts` lists the nodes right below a node, each with the names
that the node declares around it, and `Node.head` is what else the node says.  A node is given by
both.

Selector members, labels, field names, and the names that a declaration, a `:=` or a range
clause declares belong to the heads.
-/

namespace YieldMachine

/-- A node of a tree. -/
inductive Node where
  | expr (e : Expr)
  | stmt (s : Stmt)
  | field (f : Field)
  | clause (c : Clause)
  | comm (c : CommClause)
  | spec (s : Spec)

/-- Nodes with the names that are declared around each of them. -/
abbrev Scoped := List (List String × Node)

/-- Expressions for which the same names are declared. -/
def exprParts (names : List String) (es : List Expr) : Scoped := es.map fun e => (names, .expr e)

/-- The fields of a field list, for which the same names are declared. -/
def fieldParts (names : List String) (fs : Fields) : Scoped :=
  fs.toList.map fun f => (names, .field f)

/-- The fields of a signature, for which nothing is declared. -/
def Signature.parts : Signature → Scoped
  | .mk typeParams params results =>
    fieldParts [] typeParams ++ fieldParts [] params ++ fieldParts [] results

/-- The statements of a list; each statement sees what those before it declare. -/
def stmtParts (names : List String) : List Stmt → Scoped
  | [] => []
  | s :: ss => (names, .stmt s) :: stmtParts (s.binds ++ names) ss

/-- The entries of a declaration; each entry sees what those before it declare. -/
def specParts (names : List String) : List Spec → Scoped
  | [] => []
  | s :: ss => (names, .spec s) :: specParts (s.names ++ names) ss

/-- Clauses for which the same names are declared. -/
def clauseParts (names : List String) (cs : List Clause) : Scoped :=
  cs.map fun c => (names, .clause c)

/-- The parts of a type switch guard.  A guard is an expression, or the assignment of one. -/
def guardParts (names : List String) : Stmt → Scoped
  | .assign _ _ rhs => exprParts names rhs
  | .expr x => [(names, .expr x)]
  | _ => []

/-- The names that a type switch guard declares for the clauses. -/
def Stmt.guardNames : Stmt → List String
  | .assign _ lhs _ => lhs.filterMap Expr.name?
  | _ => []

/-- The parts of an expression.  Only a function literal declares names, for its body. -/
def Expr.parts : Expr → Scoped
  | .missing | .ident _ _ | .lit _ _ => []
  | .sel x _ | .star x | .unary _ x | .paren x | .chan _ x | .ellipsis x => exprParts [] [x]
  | .index x y | .assert x y | .binary _ x y | .pair x y | .array x y | .map x y =>
    exprParts [] [x, y]
  | .indexList x ys | .call x ys _ | .composite x ys => exprParts [] (x :: ys)
  | .slice x low high max _ => exprParts [] [x, low, high, max]
  | .func signature body =>
    signature.parts ++ [(signature.results.names ++ signature.params.names, .stmt body)]
  | .funcType signature => signature.parts
  | .struct fields | .interface fields => fieldParts [] fields

/-- The parts of a statement, with what its header declares for them. -/
def Stmt.parts : Stmt → Scoped
  | .missing | .empty | .branch _ _ => []
  | .expr x | .incDec _ x | .go x | .defer x => exprParts [] [x]
  | .send x y => exprParts [] [x, y]
  | .assign kind lhs rhs => exprParts [] (if kind = .define then [] else lhs) ++ exprParts [] rhs
  | .ret results => exprParts [] results
  | .block body => stmtParts [] body
  | .ite init cond body other =>
    ([], .stmt init) :: (init.binds, .expr cond) :: (init.binds, .stmt other) ::
      stmtParts init.binds body
  | .switch init tag clauses =>
    ([], .stmt init) :: (init.binds, .expr tag) :: clauseParts init.binds clauses
  | .typeSwitch init guard clauses =>
    ([], .stmt init) ::
      (guardParts init.binds guard ++ clauseParts (guard.guardNames ++ init.binds) clauses)
  | .select clauses => clauses.map fun c => ([], .comm c)
  | .loop init cond post body =>
    ([], .stmt init) :: (init.binds, .expr cond) :: (init.binds, .stmt post) ::
      stmtParts (post.binds ++ init.binds) body
  | .range key value kind x body =>
    if kind = .define then
      ([], .expr x) :: stmtParts ([key, value].filterMap Expr.name?) body
    else exprParts [] [key, value, x] ++ stmtParts [] body
  | .labeled _ stmt => [([], .stmt stmt)]
  | .decl _ specs => specParts [] specs

/-- The part of a field: its type. -/
def Field.parts : Field → Scoped
  | .mk _ type _ => exprParts [] [type]

/-- The parts of a clause of a switch, which is a scope of its own. -/
def Clause.parts : Clause → Scoped
  | .case values body => exprParts [] values ++ stmtParts [] body
  | .default body => stmtParts [] body

/-- The parts of a clause of a select; its body sees what its communication declares. -/
def CommClause.parts : CommClause → Scoped
  | .mk comm body => ([], .stmt comm) :: stmtParts comm.binds body

/-- The parts of an entry of a declaration.  Only a type sees its own name. -/
def Spec.parts : Spec → Scoped
  | .value _ ty values => exprParts [] (ty :: values)
  | .type name typeParams _ ty =>
    ([name], .expr ty) :: fieldParts [name] typeParams
  | .imported _ _ => []

/-- The parts of a node, each with the names that the node declares around it. -/
def Node.parts : Node → Scoped
  | .expr e => e.parts
  | .stmt s => s.parts
  | .field f => f.parts
  | .clause c => c.parts
  | .comm c => c.parts
  | .spec s => s.parts

/-- As many missing expressions. -/
def blankExprs (es : List Expr) : List Expr := es.map fun _ => .missing

/-- As many missing statements. -/
def blankStmts (ss : List Stmt) : List Stmt := ss.map fun _ => .missing

/-- As many fields without names and types. -/
def Fields.blank : Fields → Fields
  | .absent => .absent
  | .list fs => .list (fs.map fun _ => .mk [] .missing none)

/-- A signature with as many fields, without their names and types. -/
def Signature.blank : Signature → Signature
  | .mk typeParams params results => .mk typeParams.blank params.blank results.blank

/-- As many clauses that are empty. -/
def blankClauses (cs : List Clause) : List Clause := cs.map fun _ => .default []

/-- As many clauses of a select that are empty. -/
def blankComms (cs : List CommClause) : List CommClause := cs.map fun _ => .mk .missing []

/-- As many entries that declare nothing. -/
def blankSpecs (ss : List Spec) : List Spec := ss.map fun _ => .imported none ""

/-- A type switch guard without its parts. -/
def Stmt.guardHead : Stmt → Stmt
  | .assign kind lhs rhs => .assign kind lhs (blankExprs rhs)
  | .expr _ => .expr .missing
  | guard => guard

/-- An expression without its parts. -/
def Expr.head : Expr → Expr
  | .missing => .missing
  | .ident x kept => .ident x kept
  | .lit kind text => .lit kind text
  | .sel _ member => .sel .missing member
  | .index _ _ => .index .missing .missing
  | .indexList _ is => .indexList .missing (blankExprs is)
  | .slice _ _ _ _ three => .slice .missing .missing .missing .missing three
  | .assert _ _ => .assert .missing .missing
  | .call _ args spread => .call .missing (blankExprs args) spread
  | .star _ => .star .missing
  | .unary op _ => .unary op .missing
  | .binary op _ _ => .binary op .missing .missing
  | .paren _ => .paren .missing
  | .pair _ _ => .pair .missing .missing
  | .composite _ elements => .composite .missing (blankExprs elements)
  | .func signature _ => .func signature.blank .missing
  | .funcType signature => .funcType signature.blank
  | .array _ _ => .array .missing .missing
  | .map _ _ => .map .missing .missing
  | .chan direction _ => .chan direction .missing
  | .struct fields => .struct fields.blank
  | .interface fields => .interface fields.blank
  | .ellipsis _ => .ellipsis .missing

/-- A statement without its parts. -/
def Stmt.head : Stmt → Stmt
  | .missing => .missing
  | .empty => .empty
  | .expr _ => .expr .missing
  | .send _ _ => .send .missing .missing
  | .incDec increment _ => .incDec increment .missing
  | .assign kind lhs rhs =>
    .assign kind (if kind = .define then lhs else blankExprs lhs) (blankExprs rhs)
  | .go _ => .go .missing
  | .defer _ => .defer .missing
  | .ret results => .ret (blankExprs results)
  | .branch kind label => .branch kind label
  | .block body => .block (blankStmts body)
  | .ite _ _ body _ => .ite .missing .missing (blankStmts body) .missing
  | .switch _ _ clauses => .switch .missing .missing (blankClauses clauses)
  | .typeSwitch _ guard clauses => .typeSwitch .missing guard.guardHead (blankClauses clauses)
  | .select clauses => .select (blankComms clauses)
  | .loop _ _ _ body => .loop .missing .missing .missing (blankStmts body)
  | .range key value kind _ body =>
    .range (if kind = .define then key else .missing) (if kind = .define then value else .missing)
      kind .missing (blankStmts body)
  | .labeled label _ => .labeled label .missing
  | .decl kind specs => .decl kind (blankSpecs specs)

/-- A field without its type. -/
def Field.head : Field → Field
  | .mk names _ tag => .mk names .missing tag

/-- A clause of a switch without its parts. -/
def Clause.head : Clause → Clause
  | .case values body => .case (blankExprs values) (blankStmts body)
  | .default body => .default (blankStmts body)

/-- A clause of a select without its parts. -/
def CommClause.head : CommClause → CommClause
  | .mk _ body => .mk .missing (blankStmts body)

/-- An entry of a declaration without its parts. -/
def Spec.head : Spec → Spec
  | .value names _ values => .value names .missing (blankExprs values)
  | .type name typeParams isAlias _ => .type name typeParams.blank isAlias .missing
  | .imported name path => .imported name path

/-- A node without its parts. -/
def Node.head : Node → Node
  | .expr e => .expr e.head
  | .stmt s => .stmt s.head
  | .field f => .field f.head
  | .clause c => .clause c.head
  | .comm c => .comm c.head
  | .spec s => .spec s.head

theorem map_snd_exprParts (names : List String) (es : List Expr) :
    (exprParts names es).map Prod.snd = es.map .expr := by
  simp [exprParts]

theorem map_snd_fieldParts (names : List String) (fs : Fields) :
    (fieldParts names fs).map Prod.snd = fs.toList.map .field := by
  simp [fieldParts]

theorem map_snd_stmtParts (names : List String) (ss : List Stmt) :
    (stmtParts names ss).map Prod.snd = ss.map .stmt := by
  induction ss generalizing names with
  | nil => rfl
  | cons s ss ih => rw [stmtParts, List.map_cons, ih, List.map_cons]

theorem map_snd_specParts (names : List String) (ss : List Spec) :
    (specParts names ss).map Prod.snd = ss.map .spec := by
  induction ss generalizing names with
  | nil => rfl
  | cons s ss ih => rw [specParts, List.map_cons, ih, List.map_cons]

theorem exprs_of_parts {names names' : List String} {es es' : List Expr}
    (h : (exprParts names' es').map Prod.snd = (exprParts names es).map Prod.snd) : es' = es := by
  simpa [map_snd_exprParts, List.map_inj_right] using h

theorem fields_of_parts {names names' : List String} {fs fs' : Fields}
    (h : (fieldParts names' fs').map Prod.snd = (fieldParts names fs).map Prod.snd) :
    fs'.toList = fs.toList := by
  simpa [map_snd_fieldParts, List.map_inj_right] using h

theorem stmts_of_parts {names names' : List String} {ss ss' : List Stmt}
    (h : (stmtParts names' ss').map Prod.snd = (stmtParts names ss).map Prod.snd) : ss' = ss := by
  simpa [map_snd_stmtParts, List.map_inj_right] using h

theorem clauses_of_parts {names names' : List String} {cs cs' : List Clause}
    (h : (clauseParts names' cs').map Prod.snd = (clauseParts names cs).map Prod.snd) :
    cs' = cs := by
  simpa [clauseParts, Function.comp_def, List.map_inj_right] using h

theorem length_of_blankExprs {es es' : List Expr} (h : blankExprs es = blankExprs es') :
    es.length = es'.length := by
  simpa [blankExprs] using congrArg List.length h

theorem Fields.length_of_blank {fs fs' : Fields} (h : fs.blank = fs'.blank) :
    fs.toList.length = fs'.toList.length := by
  cases fs with
  | absent =>
      cases fs' with
      | absent => rfl
      | list fields => cases h
  | list fields =>
      cases fs' with
      | absent => cases h
      | list fields' => simpa [Fields.toList] using congrArg List.length (Fields.list.inj h)

theorem Fields.eq_of_blank {fs fs' : Fields} (h : fs.blank = fs'.blank)
    (hfields : fs.toList = fs'.toList) : fs = fs' := by
  cases fs with
  | absent =>
      cases fs' with
      | absent => rfl
      | list fields => cases h
  | list fields =>
      cases fs' with
      | absent => cases h
      | list fields' => exact congrArg Fields.list hfields

theorem Signature.eq_of_parts {sig sig' : Signature} (hhead : sig'.blank = sig.blank)
    (hparts : sig'.parts.map Prod.snd = sig.parts.map Prod.snd) : sig' = sig := by
  obtain ⟨typeParams, params, results⟩ := sig
  obtain ⟨typeParams', params', results'⟩ := sig'
  obtain ⟨htypes, hparams, hresults⟩ := Signature.mk.inj hhead
  simp only [parts, List.map_append, map_snd_fieldParts] at hparts
  obtain ⟨hparts, hlast⟩ := List.append_inj hparts (by
    simp [Fields.length_of_blank htypes, Fields.length_of_blank hparams])
  obtain ⟨hfirst, hsecond⟩ := List.append_inj hparts (by simp [Fields.length_of_blank htypes])
  simp only [List.map_inj_right, Node.field.injEq, imp_self, implies_true] at hfirst hsecond hlast
  rw [Fields.eq_of_blank htypes hfirst, Fields.eq_of_blank hparams hsecond,
    Fields.eq_of_blank hresults hlast]

/-- An expression is given by its head and its parts. -/
theorem Expr.eq_of_parts {e e' : Expr} (hhead : e'.head = e.head)
    (hparts : e'.parts.map Prod.snd = e.parts.map Prod.snd) : e' = e := by
  cases e with
  | missing | ident | lit =>
      cases e' <;> cases hhead
      rfl
  | sel | star | unary | paren | chan | ellipsis | index | assert | binary | pair | array | map
  | slice =>
      cases e' <;> cases hhead
      simpa [Expr.parts, exprParts] using hparts
  | indexList x is =>
      cases e' with
      | indexList x' is' => simpa [Expr.parts, exprParts, List.map_inj_right] using hparts
      | _ => cases hhead
  | call x args spread =>
      cases e' with
      | call x' args' spread' =>
          have hspread := (Expr.call.inj hhead).2.2
          simpa [Expr.parts, exprParts, List.map_inj_right, hspread] using hparts
      | _ => cases hhead
  | composite type elements =>
      cases e' with
      | composite type' elements' => simpa [Expr.parts, exprParts, List.map_inj_right] using hparts
      | _ => cases hhead
  | func signature body =>
      cases e' with
      | func signature' body' =>
          simp only [Expr.parts, List.map_append] at hparts
          obtain ⟨hsig, hbody⟩ := List.append_inj' hparts rfl
          rw [Signature.eq_of_parts (Expr.func.inj hhead).1 hsig]
          simpa using hbody
      | _ => cases hhead
  | funcType signature =>
      cases e' with
      | funcType signature' => rw [Signature.eq_of_parts (Expr.funcType.inj hhead) hparts]
      | _ => cases hhead
  | struct fields =>
      cases e' with
      | struct fields' =>
          rw [Fields.eq_of_blank (Expr.struct.inj hhead) (fields_of_parts hparts)]
      | _ => cases hhead
  | interface fields =>
      cases e' with
      | interface fields' =>
          rw [Fields.eq_of_blank (Expr.interface.inj hhead) (fields_of_parts hparts)]
      | _ => cases hhead

theorem guard_eq_of_parts {guard guard' : Stmt} {names names' : List String}
    (hhead : guard'.guardHead = guard.guardHead)
    (hparts : (guardParts names' guard').map Prod.snd = (guardParts names guard).map Prod.snd) :
    guard' = guard := by
  cases guard with
  | assign kind lhs rhs =>
      cases guard' with
      | assign kind' lhs' rhs' =>
          obtain ⟨rfl, rfl, -⟩ := Stmt.assign.inj hhead
          rw [exprs_of_parts hparts]
      | _ => cases hhead
  | expr x =>
      cases guard' with
      | expr x' => simpa [guardParts] using hparts
      | _ => cases hhead
  | _ =>
      cases guard' with
      | assign kind' lhs' rhs' => cases hhead
      | expr x' => cases hhead
      | _ => exact hhead

theorem length_guardParts {guard guard' : Stmt} (names names' : List String)
    (hhead : guard'.guardHead = guard.guardHead) :
    (guardParts names' guard').length = (guardParts names guard).length := by
  cases guard with
  | assign kind lhs rhs =>
      cases guard' with
      | assign kind' lhs' rhs' =>
          simpa [guardParts, exprParts] using length_of_blankExprs (Stmt.assign.inj hhead).2.2
      | _ => cases hhead
  | expr x =>
      cases guard' with
      | expr x' => rfl
      | _ => cases hhead
  | _ =>
      cases guard' with
      | assign kind' lhs' rhs' => cases hhead
      | expr x' => cases hhead
      | _ => rfl

theorem assign_eq_of_parts {kind kind' : AssignKind} {lhs lhs' rhs rhs' : List Expr}
    (hhead : (Stmt.assign kind' lhs' rhs').head = (Stmt.assign kind lhs rhs).head)
    (hparts : (Stmt.assign kind' lhs' rhs').parts.map Prod.snd =
      (Stmt.assign kind lhs rhs).parts.map Prod.snd) :
    Stmt.assign kind' lhs' rhs' = .assign kind lhs rhs := by
  obtain ⟨rfl, hlhs, hrhs⟩ := Stmt.assign.inj hhead
  simp only [Stmt.parts, List.map_append, map_snd_exprParts] at hparts
  obtain ⟨hleft, hright⟩ := List.append_inj' hparts (by simpa using length_of_blankExprs hrhs)
  simp only [List.map_inj_right, Node.expr.injEq, imp_self, implies_true] at hleft hright
  by_cases hkind : kind' = .define
  · simp only [hkind, if_true] at hlhs
    rw [hlhs, hright]
  · simp only [hkind, if_false] at hleft
    rw [hleft, hright]

theorem range_eq_of_parts {key key' value value' x x' : Expr} {kind kind' : RangeKind}
    {body body' : List Stmt}
    (hhead : (Stmt.range key' value' kind' x' body').head =
      (Stmt.range key value kind x body).head)
    (hparts : (Stmt.range key' value' kind' x' body').parts.map Prod.snd =
      (Stmt.range key value kind x body).parts.map Prod.snd) :
    Stmt.range key' value' kind' x' body' = .range key value kind x body := by
  obtain ⟨hkey, hvalue, rfl, -, -⟩ := Stmt.range.inj hhead
  by_cases hkind : kind' = .define
  · simp only [hkind, if_true] at hkey hvalue
    simp only [Stmt.parts, hkind, if_true, List.map_cons, List.cons.injEq,
      Node.expr.injEq] at hparts
    rw [hkey, hvalue, hparts.1, stmts_of_parts hparts.2]
  · simp only [Stmt.parts, hkind, if_false, List.map_append, map_snd_exprParts,
      List.map_cons, List.cons_append, List.cons.injEq, Node.expr.injEq] at hparts
    rw [hparts.1, hparts.2.1, hparts.2.2.1, stmts_of_parts hparts.2.2.2]

/-- A statement is given by its head and its parts. -/
theorem Stmt.eq_of_parts {s s' : Stmt} (hhead : s'.head = s.head)
    (hparts : s'.parts.map Prod.snd = s.parts.map Prod.snd) : s' = s := by
  cases s with
  | missing | empty | branch =>
      cases s' <;> cases hhead
      rfl
  | expr | incDec | go | defer | send | labeled =>
      cases s' <;> cases hhead
      simpa [Stmt.parts, exprParts] using hparts
  | assign kind lhs rhs =>
      cases s' with
      | assign kind' lhs' rhs' => exact assign_eq_of_parts hhead hparts
      | _ => cases hhead
  | ret results =>
      cases s' with
      | ret results' => rw [exprs_of_parts hparts]
      | _ => cases hhead
  | block body =>
      cases s' with
      | block body' => rw [stmts_of_parts hparts]
      | _ => cases hhead
  | ite init cond body other =>
      cases s' with
      | ite init' cond' body' other' =>
          simp only [Stmt.parts, List.map_cons, List.cons.injEq, Node.stmt.injEq,
            Node.expr.injEq] at hparts
          rw [hparts.1, hparts.2.1, hparts.2.2.1, stmts_of_parts hparts.2.2.2]
      | _ => cases hhead
  | switch init tag clauses =>
      cases s' with
      | switch init' tag' clauses' =>
          simp only [Stmt.parts, List.map_cons, List.cons.injEq, Node.stmt.injEq,
            Node.expr.injEq] at hparts
          rw [hparts.1, hparts.2.1, clauses_of_parts hparts.2.2]
      | _ => cases hhead
  | typeSwitch init guard clauses =>
      cases s' with
      | typeSwitch init' guard' clauses' =>
          have hguard := (Stmt.typeSwitch.inj hhead).2.1
          simp only [Stmt.parts, List.map_cons, List.map_append, List.cons.injEq,
            Node.stmt.injEq] at hparts
          obtain ⟨hfirst, hlast⟩ := List.append_inj hparts.2 (by
            simpa using length_guardParts _ _ hguard)
          rw [hparts.1, guard_eq_of_parts hguard hfirst, clauses_of_parts hlast]
      | _ => cases hhead
  | select clauses =>
      cases s' with
      | select clauses' => simpa [Stmt.parts, List.map_inj_right] using hparts
      | _ => cases hhead
  | loop init cond post body =>
      cases s' with
      | loop init' cond' post' body' =>
          simp only [Stmt.parts, List.map_cons, List.cons.injEq, Node.stmt.injEq,
            Node.expr.injEq] at hparts
          rw [hparts.1, hparts.2.1, hparts.2.2.1, stmts_of_parts hparts.2.2.2]
      | _ => cases hhead
  | range key value kind x body =>
      cases s' with
      | range key' value' kind' x' body' => exact range_eq_of_parts hhead hparts
      | _ => cases hhead
  | decl kind specs =>
      cases s' with
      | decl kind' specs' =>
          obtain ⟨rfl, -⟩ := Stmt.decl.inj hhead
          simp only [Stmt.parts, map_snd_specParts] at hparts
          simpa [List.map_inj_right] using hparts
      | _ => cases hhead

theorem Field.eq_of_parts {f f' : Field} (hhead : f'.head = f.head)
    (hparts : f'.parts.map Prod.snd = f.parts.map Prod.snd) : f' = f := by
  obtain ⟨names, type, tag⟩ := f
  obtain ⟨names', type', tag'⟩ := f'
  obtain ⟨rfl, -, rfl⟩ := Field.mk.inj hhead
  simpa using exprs_of_parts hparts

theorem Clause.eq_of_parts {c c' : Clause} (hhead : c'.head = c.head)
    (hparts : c'.parts.map Prod.snd = c.parts.map Prod.snd) : c' = c := by
  cases c with
  | default body =>
      cases c' with
      | default body' => rw [stmts_of_parts hparts]
      | case values' body' => cases hhead
  | case values body =>
      cases c' with
      | default body' => cases hhead
      | case values' body' =>
          simp only [Clause.parts, List.map_append] at hparts
          obtain ⟨hvalues, hbody⟩ := List.append_inj hparts (by
            simpa [exprParts] using length_of_blankExprs (Clause.case.inj hhead).1)
          rw [exprs_of_parts hvalues, stmts_of_parts hbody]

theorem CommClause.eq_of_parts {c c' : CommClause}
    (hparts : c'.parts.map Prod.snd = c.parts.map Prod.snd) : c' = c := by
  obtain ⟨comm, body⟩ := c
  obtain ⟨comm', body'⟩ := c'
  simp only [CommClause.parts, List.map_cons, List.cons.injEq, Node.stmt.injEq] at hparts
  rw [hparts.1, stmts_of_parts hparts.2]

theorem Spec.eq_of_parts {s s' : Spec} (hhead : s'.head = s.head)
    (hparts : s'.parts.map Prod.snd = s.parts.map Prod.snd) : s' = s := by
  cases s with
  | value names type values =>
      cases s' with
      | value names' type' values' =>
          have hall := exprs_of_parts hparts
          simp only [List.cons.injEq] at hall
          rw [(Spec.value.inj hhead).1, hall.1, hall.2]
      | _ => cases hhead
  | type name typeParams isAlias type =>
      cases s' with
      | type name' typeParams' isAlias' type' =>
          obtain ⟨rfl, htypes, rfl, -⟩ := Spec.type.inj hhead
          simp only [Spec.parts, List.map_cons, List.cons.injEq, Node.expr.injEq] at hparts
          rw [Fields.eq_of_blank htypes (fields_of_parts hparts.2), hparts.1]
      | _ => cases hhead
  | imported name path =>
      cases s' with
      | imported name' path' => exact hhead
      | _ => cases hhead

/-- A node is given by its head and its parts. -/
theorem Node.eq_of_parts {n n' : Node} (hhead : n'.head = n.head)
    (hparts : n'.parts.map Prod.snd = n.parts.map Prod.snd) : n' = n := by
  cases n with
  | expr e =>
      cases n' with
      | expr e' => rw [Expr.eq_of_parts (Node.expr.inj hhead) hparts]
      | _ => cases hhead
  | stmt s =>
      cases n' with
      | stmt s' => rw [Stmt.eq_of_parts (Node.stmt.inj hhead) hparts]
      | _ => cases hhead
  | field f =>
      cases n' with
      | field f' => rw [Field.eq_of_parts (Node.field.inj hhead) hparts]
      | _ => cases hhead
  | clause c =>
      cases n' with
      | clause c' => rw [Clause.eq_of_parts (Node.clause.inj hhead) hparts]
      | _ => cases hhead
  | comm c =>
      cases n' with
      | comm c' => rw [CommClause.eq_of_parts hparts]
      | _ => cases hhead
  | spec s =>
      cases n' with
      | spec s' => rw [Spec.eq_of_parts (Node.spec.inj hhead) hparts]
      | _ => cases hhead

end YieldMachine
