import YieldMachine.Proofs.Interp.Executed
import YieldMachine.Proofs.Scope.Occurrences

/-!
# Scopes around a statement

Empty scopes around a statement change nothing: it does the same with and without them, and
leaves them empty.  A statement that binds nothing leaves its own scope as it was.
-/

namespace YieldMachine

variable {α β : Type}

/-- Whether two views have the same fields, and local variables of the same values. -/
structure View.Agrees (v' v : View) : Prop where
  fields : v'.fields = v.fields
  locals : ∀ x, v'.local? x = v.local? x

section Views

variable {s : Session} {v v' : View}

theorem mem_exprParts {names : List String} {es : List Expr} {e : Expr} (h : e ∈ es) :
    (names, Node.expr e) ∈ exprParts names es := List.mem_map.mpr ⟨e, h, rfl⟩

theorem Expr.Mentions.part {e x : Expr} {y : String} {names : List String}
    (hmem : (names, Node.expr x) ∈ e.parts) (h : x.Mentions y) : e.Mentions y :=
  Node.Mentions.part (n := .expr e) hmem h

mutual

/-- The value of an expression depends on the fields and on the variables that it mentions. -/
theorem Expr.eval_congr_of_mentions (hfields : v'.fields = v.fields) (e : Expr)
    (h : ∀ x, e.Mentions x → v'.local? x = v.local? x) : e.eval s v' = e.eval s v := by
  cases e with
  | lit kind text => rfl
  | ident x kept => exact View.name_congr (h x .here)
  | sel x member => simp only [Expr.eval, View.field, View.fieldName, hfields]
  | paren x =>
      exact x.eval_congr_of_mentions hfields fun y hy => h y (.part (.head _) hy)
  | unary op x =>
      simp only [Expr.eval]
      rw [x.eval_congr_of_mentions hfields fun y hy => h y (.part (.head _) hy)]
  | binary op x y =>
      have hx := x.eval_congr_of_mentions hfields fun z hz => h z (.part (.head _) hz)
      have hy := y.eval_congr_of_mentions hfields fun z hz => h z (.part (.tail _ (.head _)) hz)
      cases op <;> simp only [Expr.eval, hx, hy]
  | index x i =>
      have hx := x.eval_congr_of_mentions hfields fun z hz => h z (.part (.head _) hz)
      have hi := i.eval_congr_of_mentions hfields fun z hz => h z (.part (.tail _ (.head _)) hz)
      simp only [Expr.eval]
      rw [hx, hi]
  | composite ty elements =>
      simp only [Expr.eval]
      rw [evalAll_congr_of_mentions hfields elements fun e he y hy =>
        h y (.part (.tail _ (mem_exprParts he)) hy)]
  | star x =>
      cases hnew : x.isNew with
      | false => rw [eval_star_of_not_new hnew, eval_star_of_not_new hnew]
      | true =>
          obtain ⟨kept, args, spread, rfl⟩ := Expr.isNew_eq_true.mp hnew
          cases args <;> simp only [Expr.eval]
  | call fn args spread =>
      have hfn : ∀ y, fn.Mentions y → v'.local? y = v.local? y :=
        fun y hy => h y (.part (.head _) hy)
      have helements : ∀ e ∈ args, ∀ y, e.Mentions y → v'.local? y = v.local? y :=
        fun e he y hy => h y (.part (.tail _ (mem_exprParts he)) hy)
      have hargs := evalAll_congr_of_mentions hfields args helements
      cases fn with
      | ident f kept =>
          exact eval_callName_congr kept spread (View.name_congr (hfn f .here)) hargs
            (evalHead_congr_of_mentions hfields args helements)
      | sel x member =>
          have hx := x.eval_congr_of_mentions hfields fun y hy => hfn y (.part (.head _) hy)
          simp only [Expr.eval]
          rw [hargs, hx]
      | _ => simp [Expr.eval]
  | _ => simp [Expr.eval]

theorem evalAll_congr_of_mentions (hfields : v'.fields = v.fields) (es : List Expr)
    (h : ∀ e ∈ es, ∀ x, e.Mentions x → v'.local? x = v.local? x) :
    evalAll s v' es = evalAll s v es := by
  cases es with
  | nil => rfl
  | cons e es =>
      have he := e.eval_congr_of_mentions hfields (h e (.head _))
      have hes := evalAll_congr_of_mentions hfields es fun e' he' => h e' (.tail _ he')
      simp only [evalAll]
      rw [he, hes]

theorem evalHead_congr_of_mentions (hfields : v'.fields = v.fields) (es : List Expr)
    (h : ∀ e ∈ es, ∀ x, e.Mentions x → v'.local? x = v.local? x) :
    evalHead s v' es = evalHead s v es := by
  cases es with
  | nil => rfl
  | cons e es => exact e.eval_congr_of_mentions hfields (h e (.head _))

end

/-- The value of an expression depends on the fields and on what the names stand for. -/
theorem Expr.eval_congr (h : v'.Agrees v) (e : Expr) : e.eval s v' = e.eval s v :=
  e.eval_congr_of_mentions h.fields fun x _ => h.locals x

theorem evalAll_congr (h : v'.Agrees v) (es : List Expr) : evalAll s v' es = evalAll s v es :=
  evalAll_congr_of_mentions h.fields es fun _ _ x _ => h.locals x

theorem Expr.evalMulti_congr (h : v'.Agrees v) (e : Expr) : e.evalMulti s v' = e.evalMulti s v := by
  unfold Expr.evalMulti
  split
  · rename_i x _ _
    rw [x.eval_congr h]
  · rfl

theorem matchesAny_congr (h : v'.Agrees v) (tag : Value) (es : List Expr) :
    matchesAny s v' tag es = matchesAny s v tag es := by
  induction es with
  | nil => rfl
  | cons e es ih =>
      simp only [matchesAny]
      rw [e.eval_congr h, ih]

end Views

/-- The memory with more scopes around those that it has. -/
def Memory.over (fs : List Bindings) (m : Memory) : Memory := { m with frames := m.frames ++ fs }

/-- A result with more scopes around those that its memory has. -/
def overResult (fs : List Bindings) : EStateM.Result Fault Memory α → EStateM.Result Fault Memory α
  | .ok a m => .ok a (m.over fs)
  | .error e m => .error e (m.over fs)

/-- The names of the variables in each scope. -/
def Memory.outline (m : Memory) : List (List String) := m.frames.map (·.map Prod.fst)

/-- Whether no variables were added, apart from those in the innermost scope if it may
change. -/
def Keeps (opens : Bool) (m m' : Memory) : Prop :=
  if opens then m'.frames ≠ [] ∧ m'.outline.tail = m.outline.tail else m'.outline = m.outline

/-- Whether there is an innermost scope, if it may change. -/
def HasScope (opens : Bool) (m : Memory) : Prop := opens = true → m.frames ≠ []

theorem hasScope_false (m : Memory) : HasScope false m := fun h => absurd h Bool.false_ne_true

/-- Whether a computation does the same with more scopes around it, and adds variables at most
to the innermost scope. -/
structure Framed (fs : List Bindings) (opens : Bool) (x : Eff Memory α) : Prop where
  lifts : ∀ m : Memory, HasScope opens m → x (m.over fs) = overResult fs (x m)
  keeps : ∀ (m : Memory) (a : α) (m' : Memory), HasScope opens m → x m = .ok a m' →
    Keeps opens m m'

theorem Keeps.refl {opens : Bool} {m : Memory} (h : HasScope opens m) : Keeps opens m m := by
  cases opens with
  | false => exact rfl
  | true => exact ⟨h rfl, rfl⟩

theorem Memory.outline_ne_nil {m : Memory} : m.outline ≠ [] ↔ m.frames ≠ [] := by
  simp [Memory.outline]

theorem Keeps.hasScope {opens : Bool} {m m' : Memory} (h : Keeps opens m m') :
    HasScope opens m' := by
  cases opens with
  | true => exact fun _ => h.1
  | false => exact hasScope_false m'

theorem Keeps.weaken {m m' : Memory} (h : Keeps false m m') (hm : m.frames ≠ []) :
    Keeps true m m' := by
  have heq : m'.outline = m.outline := h
  refine ⟨?_, congrArg List.tail heq⟩
  rw [← Memory.outline_ne_nil, heq, Memory.outline_ne_nil]
  exact hm

theorem Keeps.trans {opens : Bool} {m m' m'' : Memory} (h : Keeps opens m m')
    (h' : Keeps opens m' m'') : Keeps opens m m'' := by
  cases opens with
  | true => exact ⟨h'.1, h'.2.trans h.2⟩
  | false => exact Eq.trans h' h

theorem inScope_apply (x : Eff Memory α) (m : Memory) :
    inScope x m =
      match x { m with frames := [] :: m.frames } with
      | .ok a m' => .ok a { m' with frames := m'.frames.tail }
      | .error e m' => .error e m' := by
  have hpush : inScope x m =
      (x >>= fun a => do
        modify fun m => { m with frames := m.frames.tail }
        pure a) { m with frames := [] :: m.frames } := rfl
  rw [hpush, eff_bind_apply]
  cases x { m with frames := [] :: m.frames } <;> rfl

namespace Framed

variable {fs : List Bindings} {opens : Bool}

theorem of_false {x : Eff Memory α} (h : Framed fs false x) : Framed fs opens x := by
  cases opens with
  | false => exact h
  | true =>
      exact ⟨fun m _ => h.lifts m (hasScope_false m),
        fun m a m' hm hx => (h.keeps m a m' (hasScope_false m) hx).weaken (hm rfl)⟩

theorem weaken {x : Eff Memory α} (h : Framed fs opens x) : Framed fs true x := by
  cases opens with
  | false => exact h.of_false
  | true => exact h

theorem pure (a : α) : Framed fs opens (Pure.pure a) where
  lifts _ _ := rfl
  keeps m b m' hm hx := by
    cases hx
    exact .refl hm

theorem throw (e : Fault) : Framed fs opens (throw e : Eff Memory α) where
  lifts _ _ := rfl
  keeps m b m' hm hx := by cases hx

theorem bind {x : Eff Memory α} {f : α → Eff Memory β} (hx : Framed fs opens x)
    (hf : ∀ a, Framed fs opens (f a)) : Framed fs opens (x >>= f) where
  lifts m hm := by
    rw [eff_bind_apply, eff_bind_apply, hx.lifts m hm]
    cases hres : x m with
    | error e m' => rfl
    | ok a m' => exact (hf a).lifts m' (hx.keeps m a m' hm hres).hasScope
  keeps m b m'' hm hres := by
    rw [eff_bind_apply] at hres
    cases hfirst : x m with
    | error e m' =>
        rw [hfirst] at hres
        cases hres
    | ok a m' =>
        rw [hfirst] at hres
        have hkeeps := hx.keeps m a m' hm hfirst
        exact hkeeps.trans ((hf a).keeps m' b m'' hkeeps.hasScope hres)

theorem discard {x : Eff Memory α} (h : Framed fs opens x) : Framed fs opens (discard x) := by
  have heq : Functor.discard x = x >>= fun _ => Pure.pure () := by
    funext m
    rw [eff_bind_apply]
    show EStateM.map _ x m = _
    unfold EStateM.map
    cases x m <;> rfl
  rw [heq]
  exact h.bind fun _ => .pure ()

theorem optional (stmt : Stmt) {x : Eff Memory Control} (h : Framed fs opens x) :
    Framed fs opens (optional stmt x) := by
  rw [optional_eq]
  split
  · exact .pure ()
  · exact h.discard

theorem otherwise (stmt : Stmt) {x : Eff Memory Control} (h : Framed fs opens x) :
    Framed fs opens (otherwise stmt x) := by
  rw [otherwise_eq]
  split
  · exact .pure _
  · exact h

/-- A scope of its own takes up the variables that are added. -/
theorem inScope {x : Eff Memory α} (h : Framed fs true x) : Framed fs opens (inScope x) := by
  refine of_false ⟨fun m _ => ?_, fun m a m' _ hres => ?_⟩
  · have hin := h.lifts { m with frames := [] :: m.frames } (by simp [HasScope])
    have hpush : ({ m.over fs with frames := [] :: (m.over fs).frames } : Memory) =
        Memory.over fs { m with frames := [] :: m.frames } := rfl
    rw [inScope_apply, inScope_apply, hpush, hin]
    cases hres : x { m with frames := [] :: m.frames } with
    | error e m' => rfl
    | ok a m' =>
        have hne := (h.keeps _ a m' (by simp [HasScope]) hres).1
        simp only [overResult, Memory.over, List.tail_append_of_ne_nil hne]
  · rw [inScope_apply] at hres
    cases hx : x { m with frames := [] :: m.frames } with
    | error e m₁ =>
        rw [hx] at hres
        cases hres
    | ok b m₁ =>
        rw [hx] at hres
        cases hres
        have htail := (h.keeps _ _ m₁ (by simp [HasScope]) hx).2
        simpa [Keeps, Memory.outline, List.map_tail] using htail

/-- Reading the variables and changing the heap. -/
theorem onHeap {f : View → Eff Heap α}
    (h : ∀ v, f { v with frames := v.frames ++ fs } = f v) : Framed fs opens (onHeap f) := by
  refine of_false ⟨fun m _ => ?_, fun m a m' _ hres => ?_⟩
  · have hview : f (m.over fs).view = f m.view := h m.view
    have hheap : (m.over fs).heap = m.heap := rfl
    simp only [YieldMachine.onHeap, hview, hheap]
    cases f m.view m.heap <;> rfl
  · unfold YieldMachine.onHeap at hres
    split at hres
    · cases hres
      rfl
    · cases hres

/-- Taking the turns of a loop. -/
theorem turns (label : String) {test : Eff Memory Bool} {body : Eff Memory Control}
    {post : Eff Memory Unit} (htest : Framed fs opens test) (hbody : Framed fs opens body)
    (hpost : Framed fs opens post) (n : Nat) :
    Framed fs opens (turns label test body post n) := by
  induction n with
  | zero => exact .throw _
  | succ n ih =>
      refine htest.bind fun more => ?_
      cases more with
      | false => exact .pure _
      | true =>
          refine hbody.bind fun ctl => ?_
          cases ctl.afterBody label with
          | some ctl => exact .pure _
          | none => exact hpost.bind fun _ => ih

end Framed

section Statements

variable {fs : List Bindings} {s : Session}

theorem findLocal_empty (hfs : ∀ f ∈ fs, f = []) (x : String) : findLocal fs x = none := by
  induction fs with
  | nil => rfl
  | cons f fs ih =>
      rw [findLocal_cons, hfs f (by simp), ih fun f hf => hfs f (by simp [hf])]
      rfl

theorem agrees_over (hfs : ∀ f ∈ fs, f = []) (v : View) :
    View.Agrees { v with frames := v.frames ++ fs } v where
  fields := rfl
  locals x := by
    rw [local?_eq_findLocal, findLocal_append, findLocal_empty hfs, Option.or_none]
    rfl

theorem eval_framed (hfs : ∀ f ∈ fs, f = []) {opens : Bool} (e : Expr) :
    Framed fs opens (onHeap fun v => e.eval s v) :=
  .onHeap fun v => e.eval_congr (agrees_over hfs v)

theorem assignFrames_over (hfs : ∀ f ∈ fs, f = []) (x : String) (value : Value)
    (frames : List Bindings) :
    assignFrames x value (frames ++ fs) = (assignFrames x value frames).map (· ++ fs) := by
  have hnone : assignFrames x value fs = none :=
    assignFrames_eq_none.mpr (findLocal_empty hfs x)
  rw [assignFrames_append, hnone]
  cases assignFrames x value frames <;> rfl

/-- Assigning adds no variables. -/
theorem names_assignFrames {x : String} {value : Value} {frames frames' : List Bindings}
    (h : assignFrames x value frames = some frames') :
    frames'.map (·.map Prod.fst) = frames.map (·.map Prod.fst) := by
  induction frames generalizing frames' with
  | nil => cases h
  | cons frame frames ih =>
      rw [assignFrames] at h
      split at h
      · cases h
        simp only [List.map_cons, Bindings.update, List.map_map]
        congr 2
        funext p
        simp only [Function.comp_apply]
        split <;> rfl
      · obtain ⟨rest, hrest, rfl⟩ := Option.map_eq_some_iff.mp h
        rw [List.map_cons, List.map_cons, ih hrest]

theorem assignLocal_framed (hfs : ∀ f ∈ fs, f = []) {opens : Bool} (x : String) (value : Value) :
    Framed fs opens (assignLocal x value) := by
  refine .of_false ⟨fun m _ => ?_, fun m a m' _ hres => ?_⟩
  · rw [assignLocal_apply, assignLocal_apply]
    simp only [Memory.over]
    rw [assignFrames_over hfs]
    cases assignFrames x value m.frames <;> rfl
  · rw [assignLocal_apply] at hres
    cases hframes : assignFrames x value m.frames with
    | none =>
        rw [hframes] at hres
        cases hres
    | some frames =>
        rw [hframes] at hres
        cases hres
        exact names_assignFrames hframes

theorem bindLocal_framed (x : String) (value : Value) : Framed fs true (bindLocal x value) where
  lifts m hm := by
    obtain ⟨fields, frames, heap⟩ := m
    cases frames with
    | nil => exact absurd rfl (hm rfl)
    | cons frame frames => rfl
  keeps m a m' hm hres := by
    obtain ⟨fields, frames, heap⟩ := m
    cases frames with
    | nil => exact absurd rfl (hm rfl)
    | cons frame frames =>
        cases hres
        exact ⟨by simp, rfl⟩

theorem assignField_framed {opens : Bool} (x : Expr) (member : String) (value : Value) :
    Framed fs opens (assignField s x member value) := by
  refine .of_false ⟨fun m _ => ?_, fun m a m' _ hres => ?_⟩
  · rw [assignField_eq, assignField_eq]
    have hname : (m.over fs).view.fieldName s x member = m.view.fieldName s x member := rfl
    rw [hname]
    cases m.view.fieldName s x member <;> rfl
  · rw [assignField_eq] at hres
    cases hname : m.view.fieldName s x member with
    | error e =>
        rw [hname] at hres
        cases hres
    | ok name =>
        rw [hname] at hres
        cases hres
        rfl

theorem store_framed (hfs : ∀ f ∈ fs, f = []) (define : Bool) (target : Expr) (value : Value) :
    Framed fs (define && target.name?.isSome) (store s define target value) := by
  cases target with
  | ident x kept =>
      by_cases hx : x = "_"
      · subst hx
        rw [store_blank]
        exact .pure ()
      · rw [store_name define hx]
        cases define with
        | false => exact assignLocal_framed hfs x value
        | true => exact bindLocal_framed x value
  | sel x member => exact assignField_framed x member value
  | index x i =>
      rw [store]
      refine .onHeap fun v => ?_
      rw [x.eval_congr (agrees_over hfs v), i.eval_congr (agrees_over hfs v)]
  | _ => exact .throw _

theorem storeAll_framed (hfs : ∀ f ∈ fs, f = []) (define : Bool) (targets : List Expr)
    (values : List Value) :
    Framed fs (define && !(targets.filterMap Expr.name?).isEmpty)
      (storeAll s define targets values) := by
  induction targets generalizing values with
  | nil =>
      simp only [storeAll]
      exact .pure ()
  | cons target targets ih =>
      cases values with
      | nil =>
          simp only [storeAll]
          exact .throw _
      | cons value values =>
          simp only [storeAll]
          have hfirst := store_framed (s := s) hfs define target value
          cases hname : target.name? with
          | none =>
              rw [hname] at hfirst
              simp only [Option.isSome_none, Bool.and_false] at hfirst
              rw [List.filterMap_cons_none hname]
              exact hfirst.of_false.bind fun _ => ih values
          | some x =>
              rw [hname] at hfirst
              rw [List.filterMap_cons_some hname]
              cases define with
              | false => exact hfirst.bind fun _ => ih values
              | true => exact hfirst.bind fun _ => (ih values).weaken

theorem execAssign_framed (hfs : ∀ f ∈ fs, f = []) (kind : AssignKind) (lhs rhs : List Expr) :
    Framed fs (kind == .define && !(lhs.filterMap Expr.name?).isEmpty)
      (execAssign s kind lhs rhs) := by
  rw [execAssign_eq]
  refine Framed.bind (.onHeap fun v => ?_) fun values => Framed.bind ?_ fun values =>
    storeAll_framed hfs _ lhs values
  · unfold rightValues
    split
    · rename_i e
      rw [e.evalMulti_congr (agrees_over hfs v), evalAll_congr (agrees_over hfs v)]
    · exact evalAll_congr (agrees_over hfs v) _
  · unfold updatedValues
    split
    · exact .pure _
    · refine .onHeap fun v => ?_
      split
      · rename_i target _ _ _
        rw [target.eval_congr (agrees_over hfs v)]
      · rfl

theorem declareNames_framed (hfs : ∀ f ∈ fs, f = []) (type : Expr) (names : List String)
    (values : List Expr) : Framed fs true (declareNames s type names values) := by
  induction names generalizing values with
  | nil =>
      simp only [declareNames]
      exact .pure ()
  | cons name names ih =>
      cases values with
      | nil => exact (bindLocal_framed name _).bind fun _ => ih []
      | cons e es =>
          exact (eval_framed hfs e).bind fun value =>
            (bindLocal_framed name value).bind fun _ => ih es

theorem declareSpecs_framed (hfs : ∀ f ∈ fs, f = []) (specs : List Spec) :
    Framed fs true (declareSpecs s specs) := by
  induction specs with
  | nil => exact .pure ()
  | cons spec specs ih =>
      cases spec with
      | value names type values =>
          exact (declareNames_framed hfs type names values).bind fun _ => ih
      | _ => exact ih

theorem condition_framed (hfs : ∀ f ∈ fs, f = []) {opens : Bool} (cond : Expr) :
    Framed fs opens (condition s cond) := by
  rw [condition_eq]
  split
  · exact .pure _
  · exact .onHeap fun v => by rw [cond.eval_congr (agrees_over hfs v)]

theorem matchingClause_congr {v v' : View} (h : v'.Agrees v) (tag : Value) (i : Nat)
    (clauses : List Clause) :
    matchingClause? s v' tag i clauses = matchingClause? s v tag i clauses := by
  induction clauses generalizing i with
  | nil => rfl
  | cons clause clauses ih =>
      cases clause with
      | default body => exact ih (i + 1)
      | case values body =>
          simp only [matchingClause?]
          rw [matchesAny_congr h, ih]

theorem chooseClause_framed (hfs : ∀ f ∈ fs, f = []) {opens : Bool} (tag : Expr)
    (clauses : List Clause) : Framed fs opens (chooseClause s tag clauses) := by
  rw [chooseClause_eq]
  refine .onHeap fun v => ?_
  have htag : tagValue s tag { v with frames := v.frames ++ fs } = tagValue s tag v := by
    unfold tagValue
    rw [tag.eval_congr (agrees_over hfs v)]
  simp only [htag, matchingClause_congr (agrees_over hfs v)]

theorem execLoop_framed (hfs : ∀ f ∈ fs, f = []) {opens : Bool} (n : Nat) (label : String)
    {init : Stmt} (cond : Expr) {post : Stmt} {body : List Stmt}
    (hinit : Framed fs true (init.exec s n)) (hpost : Framed fs true (post.exec s n))
    (hbody : Framed fs true (execAll s n body)) :
    Framed fs opens (execLoop s n label init cond post body) :=
  Framed.inScope ((hinit.optional init).bind fun _ =>
    .turns label (condition_framed hfs cond) hbody.inScope (hpost.optional post) n)

mutual

/-- Statements do the same with empty scopes around them, and those that bind nothing add no
variables. -/
theorem Stmt.exec_framed (hfs : ∀ f ∈ fs, f = []) (n : Nat) (stmt : Stmt) :
    Framed fs (!stmt.bound.isEmpty) (stmt.exec s n) := by
  cases stmt with
  | expr x => exact (eval_framed hfs x).bind fun _ => .pure _
  | assign kind lhs rhs =>
      have hassign := execAssign_framed (s := s) hfs kind lhs rhs
      simp only [Stmt.exec]
      cases kind with
      | define => exact hassign.bind fun _ => .pure _
      | _ => exact Framed.of_false (hassign.bind fun _ => .pure _)
  | incDec increment x =>
      refine Framed.bind (.onHeap fun v => ?_) fun value =>
        (store_framed hfs false x _).of_false.bind fun _ => .pure _
      rw [x.eval_congr (agrees_over hfs v)]
  | decl kind specs =>
      simp only [Stmt.exec]
      by_cases hbound : (Stmt.decl kind specs).bound = []
      · rw [declareSpecs_of_bound_nil hbound]
        exact Framed.bind (.pure ()) fun _ => .pure _
      · have hopens : (!(Stmt.decl kind specs).bound.isEmpty) = true := by simpa using hbound
        rw [hopens]
        exact (declareSpecs_framed hfs specs).bind fun _ => .pure _
  | block body => exact (execAll_framed hfs n body).inScope
  | ite init cond body other =>
      simp only [Stmt.exec]
      refine Framed.inScope (((init.exec_framed hfs n).weaken.optional init).bind fun _ => ?_)
      refine Framed.bind (.onHeap fun v => by rw [cond.eval_congr (agrees_over hfs v)])
        fun holds => ?_
      cases holds with
      | true => exact (execAll_framed hfs n body).inScope
      | false => exact (other.exec_framed hfs n).weaken.otherwise other
  | loop init cond post body =>
      rw [exec_loop]
      exact execLoop_framed hfs n "" cond (init.exec_framed hfs n).weaken
        (post.exec_framed hfs n).weaken (execAll_framed hfs n body)
  | labeled label stmt =>
      have hrest : stmt.isLoop = false →
          Framed fs (!stmt.bound.isEmpty) ((Stmt.labeled label stmt).exec s n) := by
        intro hloop
        rw [Stmt.exec_labeled s n label hloop]
        refine (stmt.exec_framed hfs n).bind fun ctl => ?_
        cases ctl <;> exact .pure _
      cases stmt with
      | loop init cond post body =>
          rw [exec_labeled_loop]
          exact execLoop_framed hfs n label cond (init.exec_framed hfs n).weaken
            (post.exec_framed hfs n).weaken (execAll_framed hfs n body)
      | _ => exact hrest rfl
  | switch init tag clauses =>
      simp only [Stmt.exec]
      refine Framed.inScope (((init.exec_framed hfs n).weaken.optional init).bind fun _ => ?_)
      refine (chooseClause_framed hfs tag clauses).bind fun choice => ?_
      cases choice with
      | none => exact .pure _
      | some i => exact execFrom_framed hfs n i clauses
  | branch kind label => cases kind <;> exact .pure _
  | empty => exact .pure _
  | _ => exact .throw _

theorem execAll_framed (hfs : ∀ f ∈ fs, f = []) (n : Nat) (stmts : List Stmt) :
    Framed fs true (execAll s n stmts) := by
  cases stmts with
  | nil => exact .pure _
  | cons stmt stmts =>
      simp only [execAll]
      refine (stmt.exec_framed hfs n).weaken.bind fun ctl => ?_
      cases ctl with
      | normal => exact execAll_framed hfs n stmts
      | _ => exact .pure _

theorem execFrom_framed (hfs : ∀ f ∈ fs, f = []) {opens : Bool} (n i : Nat)
    (clauses : List Clause) : Framed fs opens (execFrom s n i clauses) := by
  cases clauses with
  | nil =>
      simp only [execFrom]
      exact .pure _
  | cons clause clauses =>
      cases i with
      | succ i =>
          simp only [execFrom]
          exact execFrom_framed hfs n i clauses
      | zero =>
          simp only [execFrom]
          refine (clause.exec_framed hfs n).inScope.bind fun ctl => ?_
          cases ctl with
          | fall => exact execFrom_framed hfs n 0 clauses
          | _ => exact .pure _

theorem Clause.exec_framed (hfs : ∀ f ∈ fs, f = []) (n : Nat) (clause : Clause) :
    Framed fs true (clause.exec s n) := by
  cases clause with
  | case values body => exact execAll_framed hfs n body
  | default body => exact execAll_framed hfs n body

end

end Statements

end YieldMachine
