import YieldMachine.Proofs.Generated.Terminating
import YieldMachine.Proofs.Interp.Transfers
import YieldMachine.Proofs.Machine.Consumers

/-!
# Tables that never fall through

A table is stopped with a fault of its own when a state ends without a transfer.  Where every
state of every table in the heap ends in a transfer, no computation is ever stopped in this way,
and none of them adds a table of another kind to the heap.
-/

namespace YieldMachine

/-- Whether a fault says that a state ended without a transfer. -/
def Fault.isFall : Fault → Bool
  | .fellThrough _ => true
  | _ => false

/-- Whether a generator of the heap is no table, or one whose states all end in a transfer. -/
def HeapGenerator.Terminating : HeapGenerator → Prop
  | .items _ => True
  | .running table _ _ => ∀ ops ∈ table.states, opsTerminate ops = true

/-- Whether the states of all tables in the heap end in a transfer. -/
def Heap.Terminating (h : Heap) : Prop := ∀ g ∈ h.generators, g.Terminating

/-- Whether the states of all tables in the heap of a memory end in a transfer. -/
def Memory.Terminating (m : Memory) : Prop := m.heap.Terminating

/-- Whether a computation keeps an invariant, and is not stopped because a state ended without a
transfer. -/
def NeverFalls {σ α : Type} (I : σ → Prop) (x : Eff σ α) : Prop :=
  ∀ m, I m →
    match x m with
    | .ok _ m' => I m'
    | .error e m' => I m' ∧ e.isFall = false

/-- Whether asking for elements never falls through. -/
def Supply.NeverFalls {σ γ α : Type} (I : σ → Prop) (s : Supply σ γ α) : Prop :=
  ∀ g, YieldMachine.NeverFalls I (s.hasNext g) ∧ YieldMachine.NeverFalls I (s.next g)

namespace NeverFalls

variable {σ α β : Type} {I : σ → Prop}

theorem pure (a : α) : NeverFalls I (Pure.pure a) := fun _ hm => hm

theorem throw {e : Fault} (h : e.isFall = false) : NeverFalls I (throw e : Eff σ α) :=
  fun _ hm => ⟨hm, h⟩

theorem bind {x : Eff σ α} {f : α → Eff σ β} (hx : NeverFalls I x)
    (hf : ∀ a, NeverFalls I (f a)) : NeverFalls I (x >>= f) := by
  intro m hm
  have hres := hx m hm
  rw [eff_bind_apply]
  cases h : x m with
  | error e m' =>
      rw [h] at hres
      exact hres
  | ok a m' =>
      rw [h] at hres
      exact hf a m' hres

/-- A computation whose result says something of what follows. -/
theorem bind_ok {x : Eff σ α} {f : α → Eff σ β} (hx : NeverFalls I x)
    (hf : ∀ m a m', x m = .ok a m' → NeverFalls I (f a)) : NeverFalls I (x >>= f) := by
  intro m hm
  have hres := hx m hm
  rw [eff_bind_apply]
  cases h : x m with
  | error e m' =>
      rw [h] at hres
      exact hres
  | ok a m' =>
      rw [h] at hres
      exact hf m a m' h m' hres

/-- Reading the state before going on. -/
theorem get_bind {f : σ → Eff σ α} (hf : ∀ m, I m → NeverFalls I (f m)) :
    NeverFalls I (get >>= f) := fun m hm => hf m hm m hm

theorem set {m : σ} (h : I m) : NeverFalls I (MonadStateOf.set m : Eff σ Unit) := fun _ _ => h

theorem modify {f : σ → σ} (h : ∀ m, I m → I (f m)) :
    NeverFalls I (modify f : Eff σ Unit) := fun m hm => h m hm

theorem discard {x : Eff σ α} (h : NeverFalls I x) : NeverFalls I (discard x) := by
  intro m hm
  have hres := h m hm
  cases hx : x m <;> rw [hx] at hres <;>
    simpa [Functor.discard, Functor.mapConst, EStateM.map, hx] using hres

theorem optional (stmt : Stmt) {I : Memory → Prop} {x : Eff Memory Control}
    (h : NeverFalls I x) : NeverFalls I (optional stmt x) := by
  rw [optional_eq]
  split
  · exact .pure ()
  · exact h.discard

theorem otherwise (stmt : Stmt) {I : Memory → Prop} {x : Eff Memory Control}
    (h : NeverFalls I x) : NeverFalls I (otherwise stmt x) := by
  rw [otherwise_eq]
  split
  · exact .pure _
  · exact h

theorem onHeap {f : View → Eff Heap α} (h : ∀ v, NeverFalls Heap.Terminating (f v)) :
    NeverFalls Memory.Terminating (onHeap f) := by
  intro m hm
  have hres := h m.view m.heap hm
  unfold YieldMachine.onHeap
  cases hf : f m.view m.heap <;> rw [hf] at hres <;> exact hres

theorem inScope {x : Eff Memory α} (h : NeverFalls Memory.Terminating x) :
    NeverFalls Memory.Terminating (inScope x) :=
  .bind (.modify fun _ hm => hm) fun _ => .bind h fun _ =>
    .bind (.modify fun _ hm => hm) fun _ => .pure _

theorem turns (label : String) {I : Memory → Prop} {test : Eff Memory Bool}
    {body : Eff Memory Control} {post : Eff Memory Unit} (htest : NeverFalls I test)
    (hbody : NeverFalls I body) (hpost : NeverFalls I post) (n : Nat) :
    NeverFalls I (turns label test body post n) := by
  induction n with
  | zero => exact .throw rfl
  | succ n ih =>
      refine htest.bind fun more => ?_
      cases more with
      | false => exact .pure _
      | true =>
          refine hbody.bind fun ctl => ?_
          cases ctl.afterBody label with
          | some ctl => exact .pure _
          | none => exact hpost.bind fun _ => ih

end NeverFalls

section Values

variable {I : Heap → Prop}

theorem asBool_unfallen (v : Value) : NeverFalls I v.asBool := by
  cases v <;> first | exact .pure _ | exact .throw rfl

theorem asInt_unfallen (v : Value) : NeverFalls I v.asInt := by
  cases v <;> first | exact .pure _ | exact .throw rfl

theorem asList_unfallen (v : Value) : NeverFalls I v.asList := by
  cases v <;> first | exact .pure _ | exact .throw rfl

theorem asCursor_unfallen (v : Value) : NeverFalls I v.asCursor := by
  cases v <;> first | exact .pure _ | exact .throw rfl

theorem equals_unfallen (x y : Value) : NeverFalls I (x.equals y) := by
  unfold Value.equals
  split <;> first | exact .pure _ | exact .throw rfl

theorem intOperator_unfallen (op : BinaryOp) (x y : Int64) :
    NeverFalls I (intOperator op x y) := by
  unfold intOperator
  repeat' split
  all_goals first | exact .pure _ | exact .throw rfl

theorem applyOperator_unfallen (op : BinaryOp) (x y : Value) :
    NeverFalls I (applyOperator op x y) := by
  unfold applyOperator
  split
  · exact (equals_unfallen _ _).bind fun _ => .pure _
  · exact (equals_unfallen _ _).bind fun _ => .pure _
  · exact .pure _
  · exact .pure _
  · exact .pure _
  · exact (asInt_unfallen _).bind fun _ => (asInt_unfallen _).bind fun _ =>
      intOperator_unfallen _ _ _

theorem literal_unfallen (kind : LitKind) (text : String) : NeverFalls I (literal kind text) := by
  unfold literal
  repeat' split
  all_goals first | exact .pure _ | exact .throw rfl

theorem View.name_unfallen (v : View) (s : Session) (x : String) :
    NeverFalls I (v.name s x) := by
  unfold View.name
  repeat' split
  all_goals first | exact .pure _ | exact .throw rfl

theorem View.field_unfallen (v : View) (s : Session) (x : Expr) (member : String) :
    NeverFalls I (v.field s x member) := by
  unfold View.field View.fieldName
  split
  · exact .pure _
  · rename_i e he
    refine .throw ?_
    repeat' split at he
    all_goals cases he <;> rfl

theorem element_unfallen (list index : Value) : NeverFalls I (element list index) := by
  refine (asList_unfallen list).bind fun _ => (asInt_unfallen index).bind fun i =>
    .get_bind fun h _ => ?_
  repeat' split
  all_goals first | exact .pure _ | exact .throw rfl

end Values

section Evaluation

variable {s : Session}

/-- A change of the heap that leaves its generators. -/
theorem changeHeap_unfallen {f : Heap → Heap × Value}
    (h : ∀ heap, (f heap).1.generators = heap.generators) :
    NeverFalls Heap.Terminating (changeHeap f) := by
  intro heap hheap
  show Heap.Terminating (f heap).1
  rw [Heap.Terminating, h]
  exact hheap

theorem callHost_unfallen (name : String) (args : List Value) :
    NeverFalls Heap.Terminating (callHost s name args) := by
  refine .get_bind fun h _ => ?_
  split
  · exact .throw rfl
  · exact .bind (.modify fun _ hm => hm) fun _ => .pure _

theorem Heap.generators_append (h : Heap) (block length : Nat) (values : List Value) :
    (h.append block length values).1.generators = h.generators := by
  unfold Heap.append
  dsimp only
  split <;> rfl

theorem callAppend_unfallen (args : List Value) :
    NeverFalls Heap.Terminating (callAppend args) := by
  unfold callAppend
  split
  · exact .throw rfl
  · exact changeHeap_unfallen fun h => h.generators_append _ _ _
  · exact changeHeap_unfallen fun _ => rfl

theorem makeCursor_unfallen (name : String) (args : List Value) :
    NeverFalls Heap.Terminating (makeCursor name args) := by
  unfold makeCursor
  split <;> first | exact changeHeap_unfallen fun _ => rfl | exact .throw rfl

theorem setCursor_unfallen (id : Nat) (c : HeapCursor) :
    NeverFalls Heap.Terminating (setCursor id c) := .modify fun _ hm => hm

theorem cursorHasNext_unfallen (hs : s.around.generators.NeverFalls Heap.Terminating) (id : Nat) :
    NeverFalls Heap.Terminating (cursorHasNext s id) := by
  refine .get_bind fun h _ => ?_
  split
  · exact .throw rfl
  · exact .pure _
  · exact .pure _
  · exact .pure _
  · exact (hs _).1.bind fun _ => .pure _

theorem cursorNext_unfallen (hs : s.around.generators.NeverFalls Heap.Terminating) (id : Nat) :
    NeverFalls Heap.Terminating (cursorNext s id) := by
  refine .get_bind fun h _ => ?_
  split
  · exact .throw rfl
  · refine (setCursor_unfallen _ _).bind fun _ => ?_
    split
    · exact .pure _
    · exact .throw rfl
  · exact (setCursor_unfallen _ _).bind fun _ => .pure _
  · exact (setCursor_unfallen _ _).bind fun _ => .pure _
  · exact (hs _).2.bind fun _ => .pure _

section Forms

variable {v : View} {x y : Expr} {args : List Expr}

theorem unary_unfallen (op : UnaryOp) (hx : NeverFalls Heap.Terminating (x.eval s v)) :
    NeverFalls Heap.Terminating ((Expr.unary op x).eval s v) := by
  refine hx.bind fun value => ?_
  split
  · exact (asBool_unfallen _).bind fun _ => .pure _
  · exact (asInt_unfallen _).bind fun _ => .pure _
  · exact .throw rfl

theorem binary_unfallen (op : BinaryOp) (hx : NeverFalls Heap.Terminating (x.eval s v))
    (hy : NeverFalls Heap.Terminating (y.eval s v)) :
    NeverFalls Heap.Terminating ((Expr.binary op x y).eval s v) := by
  have hboth : NeverFalls Heap.Terminating (do
      let a ← x.eval s v
      let b ← y.eval s v
      applyOperator op a b) :=
    hx.bind fun _ => hy.bind fun _ => applyOperator_unfallen _ _ _
  cases op with
  | land =>
      refine hx.bind fun a => (asBool_unfallen a).bind fun holds => ?_
      split
      · exact hy.bind fun b => (asBool_unfallen b).bind fun _ => .pure _
      · exact .pure _
  | lor =>
      refine hx.bind fun a => (asBool_unfallen a).bind fun holds => ?_
      split
      · exact .pure _
      · exact hy.bind fun b => (asBool_unfallen b).bind fun _ => .pure _
  | _ => exact hboth

theorem star_unfallen (x : Expr) : NeverFalls Heap.Terminating ((Expr.star x).eval s v) := by
  cases hnew : x.isNew with
  | false =>
      rw [eval_star_of_not_new hnew]
      exact .throw rfl
  | true =>
      obtain ⟨kept, args, spread, rfl⟩ := Expr.isNew_eq_true.mp hnew
      cases args <;> first | exact .pure _ | exact .throw rfl

/-- A call of what the host declares under a name. -/
theorem callHostName_unfallen (f : String) (kept : Bool)
    (hargs : NeverFalls Heap.Terminating (evalAll s v args)) :
    NeverFalls Heap.Terminating (do
      match ← v.name s f with
      | .host fn => callHost s fn (← evalAll s v args)
      | _ => throw (.badCall (Expr.ident f kept).kind)) := by
  refine (v.name_unfallen s f).bind fun value => ?_
  cases value <;> first | exact hargs.bind fun _ => callHost_unfallen _ _ | exact .throw rfl

theorem callName_unfallen (f : String) (kept spread : Bool)
    (hargs : NeverFalls Heap.Terminating (evalAll s v args))
    (hhead : NeverFalls Heap.Terminating (evalHead s v args)) :
    NeverFalls Heap.Terminating ((Expr.call (.ident f kept) args spread).eval s v) := by
  by_cases hlen : f = "len"
  · subst hlen
    refine hhead.bind fun value => ?_
    split
    · exact .pure _
    · exact .pure _
    · exact callHostName_unfallen "len" kept hargs
  by_cases happend : f = "append"
  · subst happend
    exact hargs.bind fun _ => callAppend_unfallen _
  · rw [eval_call_ident hlen happend]
    exact callHostName_unfallen f kept hargs

theorem callMember_unfallen (hs : s.around.generators.NeverFalls Heap.Terminating) (member : String)
    (spread : Bool) (hx : NeverFalls Heap.Terminating (x.eval s v))
    (hargs : NeverFalls Heap.Terminating (evalAll s v args)) :
    NeverFalls Heap.Terminating ((Expr.call (.sel x member) args spread).eval s v) := by
  simp only [Expr.eval]
  split
  · exact hargs.bind fun _ => makeCursor_unfallen _ _
  · split
    · exact hx.bind fun value => (asCursor_unfallen value).bind fun _ =>
        (cursorHasNext_unfallen hs _).bind fun _ => .pure _
    · exact .throw rfl

end Forms

mutual

/-- Evaluating an expression never falls through. -/
theorem Expr.eval_unfallen (hs : s.around.generators.NeverFalls Heap.Terminating) (v : View)
    (e : Expr) :
    NeverFalls Heap.Terminating (e.eval s v) := by
  cases e with
  | lit kind text => exact literal_unfallen kind text
  | ident x kept => exact v.name_unfallen s x
  | sel x member => exact v.field_unfallen s x member
  | paren x => exact x.eval_unfallen hs v
  | unary op x => exact unary_unfallen op (x.eval_unfallen hs v)
  | binary op x y => exact binary_unfallen op (x.eval_unfallen hs v) (y.eval_unfallen hs v)
  | index x i =>
      exact (x.eval_unfallen hs v).bind fun list => (asList_unfallen list).bind fun _ =>
        (i.eval_unfallen hs v).bind fun _ => element_unfallen _ _
  | composite ty elements =>
      exact (evalAll_unfallen hs v elements).bind fun _ => changeHeap_unfallen fun _ => rfl
  | star x => exact star_unfallen x
  | call fn args spread =>
      have hargs := evalAll_unfallen hs v args
      cases fn with
      | ident f kept => exact callName_unfallen f kept spread hargs (evalHead_unfallen hs v args)
      | sel x member => exact callMember_unfallen hs member spread (x.eval_unfallen hs v) hargs
      | _ =>
          simp only [Expr.eval]
          exact .throw rfl
  | _ =>
      simp only [Expr.eval]
      exact .throw rfl

theorem evalAll_unfallen (hs : s.around.generators.NeverFalls Heap.Terminating) (v : View)
    (es : List Expr) : NeverFalls Heap.Terminating (evalAll s v es) := by
  cases es with
  | nil => exact .pure _
  | cons e es =>
      exact (e.eval_unfallen hs v).bind fun _ => (evalAll_unfallen hs v es).bind fun _ => .pure _

theorem evalHead_unfallen (hs : s.around.generators.NeverFalls Heap.Terminating) (v : View)
    (es : List Expr) : NeverFalls Heap.Terminating (evalHead s v es) := by
  cases es with
  | nil => exact .throw rfl
  | cons e es => exact e.eval_unfallen hs v

end

theorem Expr.evalMulti_unfallen (hs : s.around.generators.NeverFalls Heap.Terminating) (v : View)
    (e : Expr) : NeverFalls Heap.Terminating (e.evalMulti s v) := by
  unfold Expr.evalMulti
  split
  · exact (Expr.eval_unfallen hs v _).bind fun value => (asCursor_unfallen value).bind fun _ =>
      (cursorNext_unfallen hs _).bind fun _ => .pure _
  · exact .throw rfl

theorem matchesAny_unfallen (hs : s.around.generators.NeverFalls Heap.Terminating) (v : View)
    (tag : Value) (es : List Expr) : NeverFalls Heap.Terminating (matchesAny s v tag es) := by
  induction es with
  | nil => exact .pure _
  | cons e es ih =>
      refine (e.eval_unfallen hs v).bind fun value => (equals_unfallen _ _).bind fun same => ?_
      split
      · exact .pure _
      · exact ih

theorem matchingClause_unfallen (hs : s.around.generators.NeverFalls Heap.Terminating) (v : View)
    (tag : Value) (i : Nat) (clauses : List Clause) :
    NeverFalls Heap.Terminating (matchingClause? s v tag i clauses) := by
  induction clauses generalizing i with
  | nil => exact .pure _
  | cons clause clauses ih =>
      cases clause with
      | default body => exact ih (i + 1)
      | case values body =>
          refine (matchesAny_unfallen hs v tag values).bind fun found => ?_
          split
          · exact .pure _
          · exact ih (i + 1)

theorem chooseClause_unfallen (hs : s.around.generators.NeverFalls Heap.Terminating) (tag : Expr)
    (clauses : List Clause) :
    NeverFalls Memory.Terminating (chooseClause s tag clauses) := by
  rw [chooseClause_eq]
  refine .onHeap fun v => .bind ?_ fun value =>
    (matchingClause_unfallen hs v value 0 clauses).bind fun found => ?_
  · unfold tagValue
    split
    · exact .pure _
    · exact tag.eval_unfallen hs v
  · split <;> exact .pure _

end Evaluation

section Execution

variable {s : Session}

theorem bindLocal_unfallen (x : String) (value : Value) :
    NeverFalls Memory.Terminating (bindLocal x value) := by
  refine .modify fun m hm => ?_
  split <;> exact hm

theorem assignLocal_unfallen (x : String) (value : Value) :
    NeverFalls Memory.Terminating (assignLocal x value) := by
  refine .get_bind fun m hm => ?_
  split
  · exact .set hm
  · exact .throw rfl

theorem assignField_unfallen (x : Expr) (member : String) (value : Value) :
    NeverFalls Memory.Terminating (assignField s x member value) := by
  refine .get_bind fun m hm => ?_
  split
  · exact .set hm
  · rename_i e he
    refine .throw ?_
    unfold View.fieldName at he
    repeat' split at he
    all_goals cases he <;> rfl

theorem assignElement_unfallen (list index value : Value) :
    NeverFalls Heap.Terminating (assignElement list index value) := by
  refine (asList_unfallen list).bind fun _ => (asInt_unfallen index).bind fun i => ?_
  split
  · exact .modify fun _ hm => hm
  · exact .throw rfl

theorem store_unfallen (hs : s.around.generators.NeverFalls Heap.Terminating) (define : Bool)
    (target : Expr) (value : Value) :
    NeverFalls Memory.Terminating (store s define target value) := by
  unfold store
  split
  · exact .pure _
  · split
    · exact bindLocal_unfallen _ _
    · exact assignLocal_unfallen _ _
  · exact assignField_unfallen _ _ _
  · rename_i x i
    exact .onHeap fun v => (x.eval_unfallen hs v).bind fun list => (asList_unfallen list).bind
      fun _ => (i.eval_unfallen hs v).bind fun _ => assignElement_unfallen _ _ _
  · exact .throw rfl

theorem storeAll_unfallen (hs : s.around.generators.NeverFalls Heap.Terminating) (define : Bool)
    (targets : List Expr) (values : List Value) :
    NeverFalls Memory.Terminating (storeAll s define targets values) := by
  induction targets generalizing values with
  | nil =>
      simp only [storeAll]
      exact .pure _
  | cons target targets ih =>
      cases values with
      | nil => exact .throw rfl
      | cons value values => exact (store_unfallen hs define target value).bind fun _ => ih values

theorem execAssign_unfallen (hs : s.around.generators.NeverFalls Heap.Terminating)
    (kind : AssignKind)
    (lhs rhs : List Expr) : NeverFalls Memory.Terminating (execAssign s kind lhs rhs) := by
  rw [execAssign_eq]
  refine .bind (.onHeap fun v => ?_) fun values => .bind ?_ fun values =>
    storeAll_unfallen hs _ lhs values
  · unfold rightValues
    split
    · split
      · exact Expr.evalMulti_unfallen hs v _
      · exact evalAll_unfallen hs v _
    · exact evalAll_unfallen hs v _
  · unfold updatedValues
    split
    · exact .pure _
    · refine .onHeap fun v => ?_
      split
      · exact (Expr.eval_unfallen hs v _).bind fun _ => (applyOperator_unfallen _ _ _).bind
          fun _ => .pure _
      · exact .throw rfl

theorem declareNames_unfallen (hs : s.around.generators.NeverFalls Heap.Terminating) (type : Expr)
    (names : List String) (values : List Expr) :
    NeverFalls Memory.Terminating (declareNames s type names values) := by
  induction names generalizing values with
  | nil =>
      simp only [declareNames]
      exact .pure ()
  | cons name names ih =>
      cases values with
      | nil => exact (bindLocal_unfallen name _).bind fun _ => ih []
      | cons e es =>
          exact .bind (.onHeap fun v => e.eval_unfallen hs v) fun value =>
            (bindLocal_unfallen name value).bind fun _ => ih es

theorem declareSpecs_unfallen (hs : s.around.generators.NeverFalls Heap.Terminating)
    (specs : List Spec) : NeverFalls Memory.Terminating (declareSpecs s specs) := by
  induction specs with
  | nil => exact .pure ()
  | cons spec specs ih =>
      cases spec with
      | value names type values =>
          exact (declareNames_unfallen hs type names values).bind fun _ => ih
      | _ => exact ih

theorem truth_unfallen (hs : s.around.generators.NeverFalls Heap.Terminating) (cond : Expr) :
    NeverFalls Memory.Terminating (onHeap fun v => do (← cond.eval s v).asBool) :=
  .onHeap fun v => (cond.eval_unfallen hs v).bind fun value => asBool_unfallen value

theorem execLoop_unfallen (hs : s.around.generators.NeverFalls Heap.Terminating) (n : Nat)
    (label : String) {init : Stmt} (cond : Expr) {post : Stmt} {body : List Stmt}
    (hinit : NeverFalls Memory.Terminating (init.exec s n))
    (hpost : NeverFalls Memory.Terminating (post.exec s n))
    (hbody : NeverFalls Memory.Terminating (execAll s n body)) :
    NeverFalls Memory.Terminating (execLoop s n label init cond post body) := by
  refine .inScope ((hinit.optional init).bind fun _ =>
    .turns label ?_ hbody.inScope (hpost.optional post) n)
  rw [condition_eq]
  split
  · exact .pure _
  · exact truth_unfallen hs cond

mutual

/-- Executing a statement never falls through. -/
theorem Stmt.exec_unfallen (hs : s.around.generators.NeverFalls Heap.Terminating) (n : Nat)
    (stmt : Stmt) : NeverFalls Memory.Terminating (stmt.exec s n) := by
  cases stmt with
  | expr x => exact .bind (.onHeap fun v => x.eval_unfallen hs v) fun _ => .pure _
  | assign kind lhs rhs =>
      simp only [Stmt.exec]
      exact (execAssign_unfallen hs kind lhs rhs).bind fun _ => .pure _
  | incDec increment x =>
      exact .bind (.onHeap fun v => (x.eval_unfallen hs v).bind fun value =>
        asInt_unfallen value) fun _ => (store_unfallen hs _ _ _).bind fun _ => .pure _
  | decl kind specs => exact (declareSpecs_unfallen hs specs).bind fun _ => .pure _
  | block body => exact (execAll_unfallen hs n body).inScope
  | ite init cond body other =>
      refine .inScope (((init.exec_unfallen hs n).optional init).bind fun _ =>
        (truth_unfallen hs cond).bind fun holds => ?_)
      cases holds with
      | true => exact (execAll_unfallen hs n body).inScope
      | false => exact (other.exec_unfallen hs n).otherwise other
  | loop init cond post body =>
      rw [exec_loop]
      exact execLoop_unfallen hs n "" cond (init.exec_unfallen hs n) (post.exec_unfallen hs n)
        (execAll_unfallen hs n body)
  | labeled label stmt =>
      have hrest : stmt.isLoop = false →
          NeverFalls Memory.Terminating ((Stmt.labeled label stmt).exec s n) := by
        intro hloop
        rw [Stmt.exec_labeled s n label hloop]
        refine (stmt.exec_unfallen hs n).bind fun ctl => ?_
        cases ctl <;> exact .pure _
      cases stmt with
      | loop init cond post body =>
          rw [exec_labeled_loop]
          exact execLoop_unfallen hs n label cond (init.exec_unfallen hs n)
            (post.exec_unfallen hs n) (execAll_unfallen hs n body)
      | _ => exact hrest rfl
  | switch init tag clauses =>
      refine .inScope (((init.exec_unfallen hs n).optional init).bind fun _ =>
        (chooseClause_unfallen hs tag clauses).bind fun choice => ?_)
      cases choice with
      | none => exact .pure _
      | some i => exact execFrom_unfallen hs n i clauses
  | branch kind label => cases kind <;> exact .pure _
  | empty => exact .pure _
  | _ => exact .throw rfl

theorem execAll_unfallen (hs : s.around.generators.NeverFalls Heap.Terminating) (n : Nat)
    (stmts : List Stmt) : NeverFalls Memory.Terminating (execAll s n stmts) := by
  cases stmts with
  | nil => exact .pure _
  | cons stmt stmts =>
      refine (stmt.exec_unfallen hs n).bind fun ctl => ?_
      cases ctl with
      | normal => exact execAll_unfallen hs n stmts
      | _ => exact .pure _

theorem execFrom_unfallen (hs : s.around.generators.NeverFalls Heap.Terminating) (n i : Nat)
    (clauses : List Clause) : NeverFalls Memory.Terminating (execFrom s n i clauses) := by
  cases clauses with
  | nil =>
      simp only [execFrom]
      exact .pure _
  | cons clause clauses =>
      cases i with
      | succ i => exact execFrom_unfallen hs n i clauses
      | zero =>
          refine (clause.exec_unfallen hs n).inScope.bind fun ctl => ?_
          cases ctl with
          | fall => exact execFrom_unfallen hs n 0 clauses
          | _ => exact .pure _

theorem Clause.exec_unfallen (hs : s.around.generators.NeverFalls Heap.Terminating) (n : Nat)
    (clause : Clause) : NeverFalls Memory.Terminating (clause.exec s n) := by
  cases clause with
  | case values body => exact execAll_unfallen hs n body
  | default body => exact execAll_unfallen hs n body

end

end Execution

section Tables

variable {s : Session} {states : Array (List Op)}

theorem jumpTo_unfallen (hs : s.around.generators.NeverFalls Heap.Terminating) (goal : Nat)
    (value : Expr) : NeverFalls Memory.Terminating (jumpTo s states goal value) := by
  unfold jumpTo
  split
  · split
    · exact .pure _
    · exact .bind (.onHeap fun v => Expr.eval_unfallen hs v _) fun _ => .pure _
  · exact .throw rfl

mutual

/-- Running an operation never falls through, whether or not it ends in a transfer. -/
theorem Op.run_unfallen (hs : s.around.generators.NeverFalls Heap.Terminating) (n : Nat) (op : Op) :
    NeverFalls Memory.Terminating (op.run s states n) := by
  cases op with
  | exec stmt => exact (stmt.exec_unfallen hs n).inScope.bind fun _ => .pure _
  | jump goal value => exact (jumpTo_unfallen hs goal value).bind fun _ => .pure _
  | finish => exact .pure _
  | when cond ops =>
      refine (truth_unfallen hs cond).bind fun holds => ?_
      cases holds with
      | true => exact runOps_unfallen hs n ops
      | false => exact .pure _
  | choose cond ops others =>
      refine (truth_unfallen hs cond).bind fun holds => ?_
      cases holds with
      | true => exact runOps_unfallen hs n ops
      | false => exact runOps_unfallen hs n others
  | dispatch tag arms =>
      refine .bind (x := chooseArm s tag arms) ?_ fun choice => ?_
      · rw [chooseArm_eq]
        exact chooseClause_unfallen hs tag _
      · cases choice with
        | none => exact .pure _
        | some i => exact runArm_unfallen hs n i arms

theorem runOps_unfallen (hs : s.around.generators.NeverFalls Heap.Terminating) (n : Nat)
    (ops : List Op) : NeverFalls Memory.Terminating (runOps s states n ops) := by
  cases ops with
  | nil => exact .pure _
  | cons op ops =>
      refine (op.run_unfallen hs n).bind fun result => ?_
      cases result with
      | some b => exact .pure _
      | none => exact runOps_unfallen hs n ops

theorem runArm_unfallen (hs : s.around.generators.NeverFalls Heap.Terminating) (n i : Nat)
    (arms : List Arm) : NeverFalls Memory.Terminating (runArm s states n i arms) := by
  cases arms with
  | nil => cases i <;> exact .pure _
  | cons arm arms =>
      cases i with
      | succ i => exact runArm_unfallen hs n i arms
      | zero => exact arm.run_unfallen hs n

theorem Arm.run_unfallen (hs : s.around.generators.NeverFalls Heap.Terminating) (n : Nat)
    (arm : Arm) :
    NeverFalls Memory.Terminating (arm.run s states n) := by
  cases arm with
  | case values ops => exact runOps_unfallen hs n ops
  | default ops => exact runOps_unfallen hs n ops

end

/-- A step of a table whose states all end in a transfer: the state that it enters gives one. -/
theorem tableStep_unfallen (hs : s.around.generators.NeverFalls Heap.Terminating)
    (hstates : ∀ ops ∈ states, opsTerminate ops = true) (n : Nat) (t : TableStep) :
    NeverFalls Memory.Terminating (tableStep s states n t) := by
  cases t with
  | stop => exact .pure _
  | enter q =>
      rw [tableStep]
      split
      · exact .throw rfl
      · rename_i ops hops
        refine (runOps_unfallen hs n ops).bind_ok fun m result m' hrun => ?_
        have hsome := runOps_isSome (hstates ops (Array.mem_of_getElem? hops)) hrun
        cases result with
        | some b => exact .pure b
        | none => cases hsome

theorem trampoline_unfallen {σ τ α : Type} {I : σ → Prop} {step : τ → Eff σ (Bounce τ α)}
    (hstep : ∀ t, NeverFalls I (step t)) (n : Nat) (t : τ) :
    NeverFalls I (Bounce.trampoline step n t) := by
  induction n generalizing t with
  | zero => exact .throw rfl
  | succ n ih =>
      refine (hstep t).bind fun b => ?_
      split
      · exact ih _
      · exact .pure _

theorem sequenceStart_unfallen {σ τ α : Type} {I : σ → Prop} {step : τ → Eff σ (Bounce τ α)}
    (hstep : ∀ t, NeverFalls I (step t)) (n : Nat) (t : τ) :
    NeverFalls I (Sequence.start step n t) := by
  refine (trampoline_unfallen hstep n t).bind fun b => ?_
  split <;> exact .pure _

theorem sequenceNext_unfallen {σ τ α : Type} {I : σ → Prop} {step : τ → Eff σ (Bounce τ α)}
    (hstep : ∀ t, NeverFalls I (step t)) (n : Nat) (zero : α) (q : Sequence τ α) :
    NeverFalls I (q.next step n zero) := by
  unfold Sequence.next
  split
  · exact .pure _
  · exact (sequenceStart_unfallen hstep n _).bind fun _ => .pure _

theorem withFields_unfallen {α : Type} (fields : Bindings) {f : Eff Memory α}
    (h : NeverFalls Memory.Terminating f) : NeverFalls Heap.Terminating (withFields fields f) := by
  intro heap hheap
  have hres := h ⟨fields, [], heap⟩ hheap
  unfold withFields
  cases hf : f ⟨fields, [], heap⟩ <;> rw [hf] at hres <;> exact hres

/-- Replacing a generator by one whose states all end in a transfer. -/
theorem setGenerator_unfallen (id : Nat) {g : HeapGenerator} (hg : g.Terminating) :
    NeverFalls Heap.Terminating (setGenerator id g) := by
  refine .modify fun heap hheap g' hg' => ?_
  rcases Array.mem_or_eq_of_mem_setIfInBounds hg' with hmem | rfl
  · exact hheap g' hmem
  · exact hg

/-- Asking the generators of a heap never falls through. -/
theorem heapSupply_unfallen (host : Host) (n depth : Nat) :
    (heapSupply host n depth).NeverFalls Heap.Terminating := by
  induction depth with
  | zero => exact fun id => ⟨.throw rfl, .throw rfl⟩
  | succ depth ih =>
      refine fun id => ⟨.bind (.get_bind fun heap _ => ?_) fun _ => .pure _,
        .get_bind fun heap hheap => ?_⟩
      · split
        · exact .throw rfl
        · exact .pure _
        · exact .pure _
      · split
        · exact .throw rfl
        · exact .pure _
        · rename_i rest _
          have hrest : (HeapGenerator.items rest).Terminating := trivial
          exact (setGenerator_unfallen id hrest).bind fun _ => .pure _
        · rename_i table fields ahead hg
          have hstates := hheap _ (Array.mem_of_getElem? hg)
          refine (withFields_unfallen fields
            (sequenceNext_unfallen (fun t => tableStep_unfallen ih hstates n t) n .nil
              ahead)).bind ?_
          rintro ⟨⟨value, ahead'⟩, fields'⟩
          have hrun : (HeapGenerator.running table fields' ahead').Terminating := hstates
          exact (setGenerator_unfallen id hrun).bind fun _ => .pure _

/-- Starting a table whose states all end in a transfer. -/
theorem Holder.start_unfallen {h : Holder} (hstates : ∀ ops ∈ h.states, opsTerminate ops = true)
    (host : Host) (n depth : Nat) (args : Bindings) :
    NeverFalls Heap.Terminating (h.start host n depth args) := by
  have htable : ∀ ops ∈ h.table.states, opsTerminate ops = true := by
    simpa [Holder.table] using hstates
  refine (withFields_unfallen _ (sequenceStart_unfallen
    (fun t => tableStep_unfallen (heapSupply_unfallen host n depth) htable n t) n _)).bind ?_
  rintro ⟨ahead, fields⟩ heap hheap g hg
  rcases Array.mem_push.mp hg with hmem | rfl
  · exact hheap g hmem
  · exact htable

end Tables

end YieldMachine
