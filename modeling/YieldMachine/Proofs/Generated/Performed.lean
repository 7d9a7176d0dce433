import YieldMachine.Generated.Holder
import YieldMachine.Interp.Run
import YieldMachine.Proofs.Interp.Frames
import YieldMachine.Proofs.Interp.Stays
import YieldMachine.Proofs.Lowering.Quiet

/-!
# Performing the statements of a method

A state method is a list of statements that returns a transfer.  `performAll` runs such a list:
conditionals, switches and returns by their own rules, other statements as they are executed
anywhere.  It writes down which statements it executes and which expressions it evaluates, in
this order.
-/

namespace YieldMachine

variable {α β κ : Type}

/-- Something that a running method does. -/
inductive Act where
  | ran (stmt : Stmt)
  | evaluated (e : Expr)

/-- Computations that write down what they do. -/
abbrev Acting := StateT (List Act) (Eff Memory)

namespace Acting

/-- Does something that is written down. -/
def note (act : Act) (x : Eff Memory α) : Acting α := fun acts => do
  let a ← x
  pure (a, acts ++ [act])

/-- Does something that is not written down. -/
def quietly (x : Eff Memory α) : Acting α := fun acts => do
  let a ← x
  pure (a, acts)

/-- Runs a computation in a new innermost scope. -/
def inScope (x : Acting α) : Acting α := fun acts => YieldMachine.inScope (x acts)

/-- The value of an expression. -/
def value (s : Session) (e : Expr) : Acting Value :=
  note (.evaluated e) (onHeap fun v => e.eval s v)

/-- Whether a condition holds. -/
def truth (s : Session) (cond : Expr) : Acting Bool := do
  let value ← value s cond
  quietly (onHeap fun _ => value.asBool)

/-- Whether one of the values equals the tag; they are evaluated up to the first that does. -/
def lists (s : Session) (tag : Value) : List Expr → Acting Bool
  | [] => pure false
  | e :: es => do
    let value ← value s e
    if ← quietly (onHeap fun _ => value.equals tag) then pure true else lists s tag es

/-- The position of the first group of values that lists the tag.  A group that is not there
stands for all other values. -/
def firstListing (s : Session) (tag : Value) : Nat → List (Option (List Expr)) → Acting (Option Nat)
  | _, [] => pure none
  | i, none :: groups => firstListing s tag (i + 1) groups
  | i, some values :: groups => do
    if ← lists s tag values then pure (some i) else firstListing s tag (i + 1) groups

/-- The position of the group for all other values. -/
def remaining : Nat → List (Option (List Expr)) → Option Nat
  | _, [] => none
  | i, group :: groups =>
    match remaining (i + 1) groups with
    | some j => some j
    | none => if group.isNone then some i else none

/-- The tag of a switch; a missing one stands for truth. -/
def tagOf (s : Session) (tag : Expr) : Acting Value :=
  if tag.isMissing then pure (.bool true) else value s tag

/-- The position of the group that a switch chooses. -/
def choose (s : Session) (tag : Expr) (groups : List (Option (List Expr))) :
    Acting (Option Nat) := do
  let value ← tagOf s tag
  match ← firstListing s value 0 groups with
  | some i => pure (some i)
  | none => pure (remaining 0 groups)

/-- Executes the statement of a header, if one is written. -/
def header (s : Session) (fuel : Nat) (init : Stmt) : Acting Unit :=
  if init.isMissing then pure () else note (.ran init) (discard (init.exec s fuel))

end Acting

/-- How a state method ends.  It was called with a continuation, which is handed on. -/
inductive Transfer (κ : Type) where
  | goto (k : κ) (state : Nat)
  | emit (k : κ) (state : Nat) (value : Value)
  | finish (k : κ)

/-- The bounce of a transfer. -/
def Transfer.bounce : Transfer κ → Bounce TableStep Value
  | .goto _ state => .goto (.enter state)
  | .emit _ state value => .emit (.enter state) value
  | .finish _ => .goto .stop

/-- How a statement of a method ends. -/
inductive MethodExit (κ : Type) where
  | ended (c : Control)
  | returned (t : Transfer κ)

/-- The values that a clause lists; the default clause has none. -/
def Clause.values? : Clause → Option (List Expr)
  | .case values _ => some values
  | .default _ => none

/-- The values that an arm lists; the default arm has none. -/
def Arm.values? : Arm → Option (List Expr)
  | .case values _ => some values
  | .default _ => none

/-- The state among `size` ones whose method an expression names. -/
def methodState (s : Session) (size : Nat) : Expr → Acting Nat
  | .sel x member =>
    if x.isName s.recv then
      match (List.range size).find? fun (q : Nat) => stateMethod q == member with
      | some q => pure q
      | none => throw .invalid
    else throw .invalid
  | _ => throw .invalid

/-- The transfer that a call of the runtime package makes. -/
def transferOf (s : Session) (size : Nat) (k : κ) : Expr → Acting (Transfer κ)
  | .call (.index (.sel x fn) _) (resume :: args) _ =>
    if x.isName s.runtime && resume.isName continuationName then
      match fn, args with
      | "Finish", [] => pure (.finish k)
      | "Goto", [method] => do
        let state ← methodState s size method
        pure (.goto k state)
      | "Emit", [method, e] => do
        let state ← methodState s size method
        let value ← Acting.value s e
        pure (.emit k state value)
      | _, _ => throw .invalid
    else throw .invalid
  | _ => throw .invalid

mutual

/-- Performs a statement of a method that was called with `k`. -/
def perform (s : Session) (size fuel : Nat) (k : κ) : Stmt → Acting (MethodExit κ)
  | .ret [e] => do
    let t ← transferOf s size k e
    pure (.returned t)
  | .block body => .inScope (performAll s size fuel k body)
  | .ite init cond body other => .inScope do
    Acting.header s fuel init
    if ← Acting.truth s cond then .inScope (performAll s size fuel k body)
    else if other.isMissing then pure (.ended .normal)
    else perform s size fuel k other
  | .switch init tag clauses => .inScope do
    Acting.header s fuel init
    match ← Acting.choose s tag (clauses.map Clause.values?) with
    | none => pure (.ended .normal)
    | some i => performFrom s size fuel k i clauses
  | stmt => do
    let c ← Acting.note (.ran stmt) (stmt.exec s fuel)
    pure (.ended c)

/-- Performs statements until one of them returns or branches. -/
def performAll (s : Session) (size fuel : Nat) (k : κ) : List Stmt → Acting (MethodExit κ)
  | [] => pure (.ended .normal)
  | stmt :: stmts => do
    match ← perform s size fuel k stmt with
    | .ended .normal => performAll s size fuel k stmts
    | exit => pure exit

/-- Performs the clauses of a switch after the first `i`, as far as they fall through. -/
def performFrom (s : Session) (size fuel : Nat) (k : κ) : Nat → List Clause → Acting (MethodExit κ)
  | _, [] => pure (.ended .normal)
  | i + 1, _ :: clauses => performFrom s size fuel k i clauses
  | 0, clause :: clauses => do
    match ← Acting.inScope (clause.perform s size fuel k) with
    | .ended .fall => performFrom s size fuel k 0 clauses
    | .ended (.brk l) => pure (.ended (if l = "" then .normal else .brk l))
    | exit => pure exit

/-- Performs the statements of a clause. -/
def Clause.perform (s : Session) (size fuel : Nat) (k : κ) : Clause → Acting (MethodExit κ)
  | .case _ body => performAll s size fuel k body
  | .default body => performAll s size fuel k body

end

mutual

/-- Runs an operation of a table and writes down what it does. -/
def Op.act (s : Session) (size fuel : Nat) (k : κ) : Op → Acting (Option (Transfer κ))
  | .exec stmt => do
    let _ ← Acting.inScope (perform s size fuel k stmt)
    pure none
  | .jump goal value =>
    if goal < size then
      if value.isMissing then pure (some (.goto k goal))
      else do
        let value ← Acting.value s value
        pure (some (.emit k goal value))
    else throw .invalid
  | .finish => pure (some (.finish k))
  | .when cond ops => do
    if ← Acting.truth s cond then actOps s size fuel k ops else pure none
  | .choose cond ops others => do
    if ← Acting.truth s cond then actOps s size fuel k ops else actOps s size fuel k others
  | .dispatch tag arms => do
    match ← Acting.choose s tag (arms.map Arm.values?) with
    | some i => actArm s size fuel k i arms
    | none => pure none

/-- Runs operations up to the first transfer. -/
def actOps (s : Session) (size fuel : Nat) (k : κ) : List Op → Acting (Option (Transfer κ))
  | [] => pure none
  | op :: ops => do
    match ← op.act s size fuel k with
    | some t => pure (some t)
    | none => actOps s size fuel k ops

/-- Runs the arm at a position. -/
def actArm (s : Session) (size fuel : Nat) (k : κ) :
    Nat → List Arm → Acting (Option (Transfer κ))
  | _, [] => pure none
  | 0, arm :: _ => arm.act s size fuel k
  | i + 1, _ :: arms => actArm s size fuel k i arms

/-- Runs the operations of an arm. -/
def Arm.act (s : Session) (size fuel : Nat) (k : κ) : Arm → Acting (Option (Transfer κ))
  | .case _ ops => actOps s size fuel k ops
  | .default ops => actOps s size fuel k ops

end

/-- The result without what was written down. -/
def forget : EStateM.Result Fault Memory (α × List Act) → EStateM.Result Fault Memory α
  | .ok (a, _) m => .ok a m
  | .error e m => .error e m

/-- Whether a computation does the same as one that writes nothing down. -/
def Erases (x : Acting α) (y : Eff Memory α) : Prop := ∀ acts m, forget (x acts m) = y m

namespace Erases

theorem pure (a : α) : Erases (Pure.pure a) (Pure.pure a) := fun _ _ => rfl

theorem throw (e : Fault) : Erases (throw e : Acting α) (throw e) := fun _ _ => rfl

theorem bind {x : Acting α} {y : Eff Memory α} {f : α → Acting β} {g : α → Eff Memory β}
    (hx : Erases x y) (hf : ∀ a, Erases (f a) (g a)) : Erases (x >>= f) (y >>= g) := by
  intro acts m
  have h := hx acts m
  show forget ((x acts >>= fun p => f p.1 p.2) m) = _
  rw [eff_bind_apply, eff_bind_apply]
  cases hres : x acts m with
  | error e m' =>
      rw [hres] at h
      rw [← h]
      rfl
  | ok p m' =>
      obtain ⟨a, acts'⟩ := p
      rw [hres] at h
      rw [← h]
      exact hf a acts' m'

theorem note (act : Act) (x : Eff Memory α) : Erases (Acting.note act x) x := by
  intro acts m
  simp only [Acting.note, eff_bind_apply]
  cases x m <;> rfl

theorem quietly (x : Eff Memory α) : Erases (Acting.quietly x) x := by
  intro acts m
  simp only [Acting.quietly, eff_bind_apply]
  cases x m <;> rfl

theorem inScope {x : Acting α} {y : Eff Memory α} (h : Erases x y) :
    Erases (Acting.inScope x) (inScope y) := by
  intro acts m
  have hin := h acts { m with frames := [] :: m.frames }
  simp only [Acting.inScope]
  rw [inScope_apply, inScope_apply, ← hin]
  cases x acts { m with frames := [] :: m.frames } <;> rfl

theorem congr {x : Acting α} {y y' : Eff Memory α} (h : Erases x y) (heq : y = y') :
    Erases x y' := heq ▸ h

end Erases

/-- Steps that only change the heap see the same variables. -/
theorem onHeap_bind (f : View → Eff Heap α) (g : View → α → Eff Heap β) :
    (onHeap fun v => f v >>= g v) = (onHeap f >>= fun a => onHeap fun v => g v a) := by
  funext m
  rw [eff_bind_apply]
  simp only [onHeap, eff_bind_apply]
  cases f m.view m.heap <;> rfl

section Choices

variable {s : Session}

theorem value_erases (e : Expr) : Erases (Acting.value s e) (onHeap fun v => e.eval s v) :=
  .note _ _

theorem truth_erases (cond : Expr) :
    Erases (Acting.truth s cond) (onHeap fun v => do (← cond.eval s v).asBool) := by
  rw [onHeap_bind]
  exact (value_erases cond).bind fun _ => .quietly _

theorem lists_erases (tag : Value) (es : List Expr) :
    Erases (Acting.lists s tag es) (onHeap fun v => matchesAny s v tag es) := by
  induction es with
  | nil => exact .pure false
  | cons e es ih =>
      simp only [Acting.lists, matchesAny]
      rw [onHeap_bind]
      refine (value_erases e).bind fun value => ?_
      rw [onHeap_bind]
      refine (Erases.quietly _).bind fun equal => ?_
      cases equal with
      | true => exact .pure true
      | false => exact ih

/-- The position of the first group of values that lists the tag. -/
def listing? (s : Session) (v : View) (tag : Value) :
    Nat → List (Option (List Expr)) → Eff Heap (Option Nat)
  | _, [] => pure none
  | i, none :: groups => listing? s v tag (i + 1) groups
  | i, some values :: groups => do
    if ← matchesAny s v tag values then pure (some i) else listing? s v tag (i + 1) groups

theorem firstListing_erases (tag : Value) (i : Nat) (groups : List (Option (List Expr))) :
    Erases (Acting.firstListing s tag i groups) (onHeap fun v => listing? s v tag i groups) := by
  induction groups generalizing i with
  | nil => exact .pure none
  | cons group groups ih =>
      cases group with
      | none => exact ih (i + 1)
      | some values =>
          simp only [Acting.firstListing, listing?]
          rw [onHeap_bind]
          refine (lists_erases tag values).bind fun found => ?_
          cases found with
          | true => exact .pure _
          | false => exact ih (i + 1)

theorem choose_erases (tag : Expr) (groups : List (Option (List Expr))) :
    Erases (Acting.choose s tag groups) (onHeap fun v => do
      let value ← tagValue s tag v
      match ← listing? s v value 0 groups with
      | some i => pure (some i)
      | none => pure (Acting.remaining 0 groups)) := by
  rw [onHeap_bind]
  refine Erases.bind (x := Acting.tagOf s tag) ?_ fun value => ?_
  · unfold Acting.tagOf tagValue
    split
    · exact .pure _
    · exact value_erases tag
  · rw [onHeap_bind]
    refine (firstListing_erases value 0 groups).bind fun choice => ?_
    cases choice <;> exact .pure _

theorem matchingClause_eq (v : View) (tag : Value) (i : Nat) (clauses : List Clause) :
    matchingClause? s v tag i clauses = listing? s v tag i (clauses.map Clause.values?) := by
  induction clauses generalizing i with
  | nil => rfl
  | cons clause clauses ih =>
      cases clause with
      | default body => exact ih (i + 1)
      | case values body =>
          simp only [matchingClause?, ih]
          rfl

theorem defaultClause_eq (i : Nat) (clauses : List Clause) :
    defaultClause? i clauses = Acting.remaining i (clauses.map Clause.values?) := by
  induction clauses generalizing i with
  | nil => rfl
  | cons clause clauses ih =>
      simp only [defaultClause?, ih, List.map_cons, Acting.remaining]
      cases Acting.remaining (i + 1) (clauses.map Clause.values?) <;> cases clause <;> rfl

theorem matchingArm_eq (v : View) (tag : Value) (i : Nat) (arms : List Arm) :
    matchingArm? s v tag i arms = listing? s v tag i (arms.map Arm.values?) := by
  induction arms generalizing i with
  | nil => rfl
  | cons arm arms ih =>
      cases arm with
      | default ops => exact ih (i + 1)
      | case values ops =>
          simp only [matchingArm?, ih]
          rfl

theorem defaultArm_eq (i : Nat) (arms : List Arm) :
    defaultArm? i arms = Acting.remaining i (arms.map Arm.values?) := by
  induction arms generalizing i with
  | nil => rfl
  | cons arm arms ih =>
      simp only [defaultArm?, ih, List.map_cons, Acting.remaining]
      cases Acting.remaining (i + 1) (arms.map Arm.values?) <;> cases arm <;> rfl

theorem chooseClause_erases (tag : Expr) (clauses : List Clause) :
    Erases (Acting.choose s tag (clauses.map Clause.values?)) (chooseClause s tag clauses) := by
  rw [chooseClause_eq]
  simp only [matchingClause_eq, defaultClause_eq]
  exact choose_erases tag _

theorem chooseArm_erases (tag : Expr) (arms : List Arm) :
    Erases (Acting.choose s tag (arms.map Arm.values?)) (chooseArm s tag arms) := by
  have heq : chooseArm s tag arms = (onHeap fun v => do
      let value ← tagValue s tag v
      match ← matchingArm? s v value 0 arms with
      | some i => pure (some i)
      | none => pure (defaultArm? 0 arms)) := by
    cases tag <;> rfl
  rw [heq]
  simp only [matchingArm_eq, defaultArm_eq]
  exact choose_erases tag _

end Choices

section Erasure

variable {s : Session} {size fuel : Nat}

theorem header_erases (init : Stmt) :
    Erases (Acting.header s fuel init) (optional init (init.exec s fuel)) := by
  rw [optional_eq]
  unfold Acting.header
  split
  · exact .pure ()
  · exact .note _ _

/-- A statement of a method that ends without a return. -/
def ending (x : Eff Memory Control) : Eff Memory (MethodExit κ) := do
  let c ← x
  pure (.ended c)

theorem ending_bind (x : Eff Memory α) (f : α → Eff Memory Control) :
    (ending (x >>= f) : Eff Memory (MethodExit κ)) = x >>= fun a => ending (f a) := by
  simp [ending]

theorem ending_inScope (x : Eff Memory Control) :
    (ending (inScope x) : Eff Memory (MethodExit κ)) = inScope (ending x) := by
  simp [ending, inScope]

theorem perform_leaf_erases (k : κ) {stmt : Stmt}
    (h : perform s size fuel k stmt = (do
      let c ← Acting.note (.ran stmt) (stmt.exec s fuel)
      pure (.ended c))) :
    Erases (perform s size fuel k stmt) (ending (stmt.exec s fuel)) := by
  rw [h]
  exact (Erases.note _ _).bind fun c => .pure _

mutual

/-- A statement without a return is performed as it is executed. -/
theorem perform_erases (k : κ) (stmt : Stmt) (h : stmt.returns = false) :
    Erases (perform s size fuel k stmt) (ending (stmt.exec s fuel)) := by
  cases stmt with
  | ret results => cases h
  | block body =>
      simp only [perform, Stmt.exec]
      rw [ending_inScope]
      exact (performAll_erases k body h).inScope
  | ite init cond body other =>
      simp only [Stmt.returns, Bool.or_eq_false_iff] at h
      simp only [perform, Stmt.exec]
      rw [ending_inScope, ending_bind]
      refine Erases.inScope ((header_erases init).bind fun _ => ?_)
      rw [ending_bind]
      refine (truth_erases cond).bind fun holds => ?_
      cases holds with
      | true =>
          simp only [if_true]
          rw [ending_inScope]
          exact (performAll_erases k body h.1.2).inScope
      | false =>
          simp only [Bool.false_eq_true, if_false]
          rw [otherwise_eq]
          split
          · exact .pure _
          · exact perform_erases k other h.2
  | switch init tag clauses =>
      simp only [Stmt.returns, Bool.or_eq_false_iff] at h
      simp only [perform, Stmt.exec]
      rw [ending_inScope, ending_bind]
      refine Erases.inScope ((header_erases init).bind fun _ => ?_)
      rw [ending_bind]
      refine (chooseClause_erases tag clauses).bind fun choice => ?_
      cases choice with
      | none => exact .pure _
      | some i => exact performFrom_erases k i clauses h.2
  | _ => exact perform_leaf_erases k rfl

theorem performAll_erases (k : κ) (stmts : List Stmt) (h : stmtsReturn stmts = false) :
    Erases (performAll s size fuel k stmts) (ending (execAll s fuel stmts)) := by
  cases stmts with
  | nil => exact .pure _
  | cons stmt stmts =>
      simp only [stmtsReturn, Bool.or_eq_false_iff] at h
      simp only [performAll, execAll]
      have hfirst := (perform_erases k stmt h.1).bind (f := fun
        | .ended .normal => performAll s size fuel k stmts
        | exit => pure exit) (g := fun
        | .ended .normal => ending (execAll s fuel stmts)
        | exit => pure exit) fun exit => by
          rcases exit with c | t
          · cases c with
            | normal => exact performAll_erases k stmts h.2
            | _ => exact .pure _
          · exact .pure _
      refine hfirst.congr ?_
      rw [ending, bind_assoc, ending_bind]
      congr 1
      funext c
      cases c <;> rfl

theorem performFrom_erases (k : κ) (i : Nat) (clauses : List Clause)
    (h : clausesReturn clauses = false) :
    Erases (performFrom s size fuel k i clauses) (ending (execFrom s fuel i clauses)) := by
  cases clauses with
  | nil =>
      simp only [performFrom, execFrom]
      exact .pure _
  | cons clause clauses =>
      simp only [clausesReturn, Bool.or_eq_false_iff] at h
      cases i with
      | succ i =>
          simp only [performFrom, execFrom]
          exact performFrom_erases k i clauses h.2
      | zero =>
          simp only [performFrom, execFrom]
          have hfirst := (clause.perform_erases k h.1).inScope.bind (f := fun
            | .ended .fall => performFrom s size fuel k 0 clauses
            | .ended (.brk l) => pure (.ended (if l = "" then .normal else .brk l))
            | exit => pure exit) (g := fun
            | .ended .fall => ending (execFrom s fuel 0 clauses)
            | .ended (.brk l) => pure (.ended (if l = "" then .normal else .brk l))
            | exit => pure exit) fun exit => by
              rcases exit with c | t
              · cases c with
                | fall => exact performFrom_erases k 0 clauses h.2
                | _ => exact .pure _
              · exact .pure _
          refine hfirst.congr ?_
          rw [← ending_inScope, ending, bind_assoc, ending_bind]
          congr 1
          funext c
          cases c <;> rfl

theorem Clause.perform_erases (k : κ) (clause : Clause) (h : clause.returns = false) :
    Erases (clause.perform s size fuel k) (ending (clause.exec s fuel)) := by
  cases clause with
  | case values body => exact performAll_erases k body h
  | default body => exact performAll_erases k body h

end

end Erasure

/-- Whether a computation that writes down what it does is the same with more scopes around
it. -/
def Acting.Framed (fs : List Bindings) (opens : Bool) (x : Acting α) : Prop :=
  ∀ acts, YieldMachine.Framed fs opens (x acts)

namespace Acting.Framed

variable {fs : List Bindings} {opens : Bool}

theorem pure (a : α) : Acting.Framed fs opens (Pure.pure a) := fun acts => .pure (a, acts)

theorem throw (e : Fault) : Acting.Framed fs opens (throw e : Acting α) := fun _ => .throw e

theorem bind {x : Acting α} {f : α → Acting β} (hx : x.Framed fs opens)
    (hf : ∀ a, (f a).Framed fs opens) : Acting.Framed fs opens (x >>= f) :=
  fun acts => (hx acts).bind fun p => hf p.1 p.2

theorem note (act : Act) {x : Eff Memory α} (h : YieldMachine.Framed fs opens x) :
    (Acting.note act x).Framed fs opens :=
  fun acts => h.bind fun a => .pure (a, acts ++ [act])

theorem quietly {x : Eff Memory α} (h : YieldMachine.Framed fs opens x) :
    (Acting.quietly x).Framed fs opens :=
  fun acts => h.bind fun a => .pure (a, acts)

theorem inScope {x : Acting α} (h : x.Framed fs true) : (Acting.inScope x).Framed fs opens :=
  fun acts => (h acts).inScope

theorem weaken {x : Acting α} (h : x.Framed fs opens) : x.Framed fs true :=
  fun acts => (h acts).weaken

end Acting.Framed

section Frames

variable {fs : List Bindings} {opens : Bool} {s : Session} {size fuel : Nat}

theorem value_framed (hfs : ∀ f ∈ fs, f = []) (e : Expr) :
    (Acting.value s e).Framed fs opens := .note _ (eval_framed hfs e)

theorem truth_framed (hfs : ∀ f ∈ fs, f = []) (cond : Expr) :
    (Acting.truth s cond).Framed fs opens :=
  (value_framed hfs cond).bind fun _ => .quietly (.onHeap fun _ => rfl)

theorem lists_framed (hfs : ∀ f ∈ fs, f = []) (tag : Value) (es : List Expr) :
    (Acting.lists s tag es).Framed fs opens := by
  induction es with
  | nil => exact .pure false
  | cons e es ih =>
      refine (value_framed hfs e).bind fun value => ?_
      refine Acting.Framed.bind (.quietly (.onHeap fun _ => rfl)) fun equal => ?_
      cases equal with
      | true => exact .pure true
      | false => exact ih

theorem firstListing_framed (hfs : ∀ f ∈ fs, f = []) (tag : Value) (i : Nat)
    (groups : List (Option (List Expr))) :
    (Acting.firstListing s tag i groups).Framed fs opens := by
  induction groups generalizing i with
  | nil => exact .pure none
  | cons group groups ih =>
      cases group with
      | none => exact ih (i + 1)
      | some values =>
          refine (lists_framed hfs tag values).bind fun found => ?_
          cases found with
          | true => exact .pure _
          | false => exact ih (i + 1)

theorem choose_framed (hfs : ∀ f ∈ fs, f = []) (tag : Expr)
    (groups : List (Option (List Expr))) : (Acting.choose s tag groups).Framed fs opens := by
  refine Acting.Framed.bind (x := Acting.tagOf s tag) ?_ fun value => ?_
  · unfold Acting.tagOf
    split
    · exact .pure _
    · exact value_framed hfs tag
  · refine (firstListing_framed hfs value 0 groups).bind fun choice => ?_
    cases choice <;> exact .pure _

theorem header_framed (hfs : ∀ f ∈ fs, f = []) (init : Stmt) :
    (Acting.header s fuel init).Framed fs true := by
  unfold Acting.header
  split
  · exact .pure ()
  · exact .note _ (init.exec_framed hfs fuel).weaken.discard

theorem methodState_framed (e : Expr) : (methodState s size e).Framed fs opens := by
  unfold methodState
  split
  · split
    · split
      · exact .pure _
      · exact .throw _
    · exact .throw _
  · exact .throw _

theorem transferOf_framed (hfs : ∀ f ∈ fs, f = []) (k : κ) (e : Expr) :
    (transferOf s size k e).Framed fs opens := by
  unfold transferOf
  split
  · split
    · split
      · exact .pure _
      · exact (methodState_framed _).bind fun _ => .pure _
      · exact (methodState_framed _).bind fun _ => (value_framed hfs _).bind fun _ => .pure _
      · exact .throw _
    · exact .throw _
  · exact .throw _

theorem perform_leaf_framed (hfs : ∀ f ∈ fs, f = []) (k : κ) {stmt : Stmt}
    (h : perform s size fuel k stmt = (do
      let c ← Acting.note (.ran stmt) (stmt.exec s fuel)
      pure (.ended c))) :
    (perform s size fuel k stmt).Framed fs (!stmt.bound.isEmpty) := by
  rw [h]
  exact Acting.Framed.bind (.note _ (stmt.exec_framed hfs fuel)) fun _ => .pure _

mutual

/-- Statements are performed in the same way with empty scopes around them, and those that bind
nothing add no variables. -/
theorem perform_framed (hfs : ∀ f ∈ fs, f = []) (k : κ) (stmt : Stmt) :
    (perform s size fuel k stmt).Framed fs (!stmt.bound.isEmpty) := by
  cases stmt with
  | ret results =>
      match results with
      | [e] => exact (transferOf_framed hfs k e).bind fun _ => .pure _
      | [] => exact perform_leaf_framed hfs k rfl
      | _ :: _ :: _ => exact perform_leaf_framed hfs k rfl
  | block body => exact (performAll_framed hfs k body).inScope
  | ite init cond body other =>
      simp only [perform]
      refine Acting.Framed.inScope ((header_framed hfs init).bind fun _ => ?_)
      refine (truth_framed hfs cond).bind fun holds => ?_
      cases holds with
      | true => exact (performAll_framed hfs k body).inScope
      | false =>
          simp only [Bool.false_eq_true, if_false]
          split
          · exact .pure _
          · exact (perform_framed hfs k other).weaken
  | switch init tag clauses =>
      simp only [perform]
      refine Acting.Framed.inScope ((header_framed hfs init).bind fun _ => ?_)
      refine (choose_framed hfs tag _).bind fun choice => ?_
      cases choice with
      | none => exact .pure _
      | some i => exact performFrom_framed hfs k i clauses
  | _ => exact perform_leaf_framed hfs k rfl

theorem performAll_framed (hfs : ∀ f ∈ fs, f = []) (k : κ) (stmts : List Stmt) :
    (performAll s size fuel k stmts).Framed fs true := by
  cases stmts with
  | nil => exact .pure _
  | cons stmt stmts =>
      simp only [performAll]
      refine (perform_framed hfs k stmt).weaken.bind fun exit => ?_
      rcases exit with c | t
      · cases c with
        | normal => exact performAll_framed hfs k stmts
        | _ => exact .pure _
      · exact .pure _

theorem performFrom_framed (hfs : ∀ f ∈ fs, f = []) (k : κ) (i : Nat) (clauses : List Clause) :
    (performFrom s size fuel k i clauses).Framed fs true := by
  cases clauses with
  | nil =>
      simp only [performFrom]
      exact .pure _
  | cons clause clauses =>
      cases i with
      | succ i =>
          simp only [performFrom]
          exact performFrom_framed hfs k i clauses
      | zero =>
          simp only [performFrom]
          refine (clause.perform_framed hfs k).inScope.bind fun exit => ?_
          rcases exit with c | t
          · cases c with
            | fall => exact performFrom_framed hfs k 0 clauses
            | _ => exact .pure _
          · exact .pure _

theorem Clause.perform_framed (hfs : ∀ f ∈ fs, f = []) (k : κ) (clause : Clause) :
    (clause.perform s size fuel k).Framed fs true := by
  cases clause with
  | case values body => exact performAll_framed hfs k body
  | default body => exact performAll_framed hfs k body

end

end Frames

end YieldMachine
