import YieldMachine.Proofs.Lowering.Written
import YieldMachine.Proofs.Meaning.Parts

/-!
# The trees of loops and switches

The tree of a loop keeps in hidden variables what the loop of a generator body carries
along.  The clauses of a switch fall through where its cases run on, and need no final
break.  Given that the statements inside do the same on both sides, so do the loop and the
switch.
-/

namespace YieldMachine

/-- The tree of a statement that is no declaration declares nothing. -/
theorem Flow.binds_toStmt {p : Place} (flow : Flow) (hreg : flow.Regular p)
    (hdecl : flow.isDeclare = false) {stmt : Stmt} (h : flow.toStmt? = some stmt) :
    stmt.binds = [] := by
  cases flow.hasTree h with
  | declare => cases hdecl
  | lift => exact hreg.elim
  | simple => exact hreg.2.1
  | @labeled label inner stmt' h' =>
      have hbinds : stmt'.binds = [] := inner.binds_toStmt hreg.2.2 hreg.2.1 h'
      exact hbinds
  | _ => rfl

/-- The tree of a statement, with a label unless this is empty. -/
def Stmt.tagged (label : String) (stmt : Stmt) : Stmt :=
  if label = "" then stmt else .labeled label stmt

/-- How a statement with a label, or with none, ends. -/
def Ending.leaveTag (label : String) (c : Ending) : Ending :=
  if label = "" then c else c.leave label

theorem Stmt.rename_tagged (label : String) (stmt : Stmt) (r : Renames) :
    ((stmt.tagged label).rename receiverName r).1 =
      (stmt.rename receiverName r).1.tagged label := by
  unfold tagged
  split <;> rfl

theorem Ending.leaveTag_eq {label : String} {c : Ending} (h : c ≠ .brk "") :
    c.leaveTag label = c.leave label := by
  unfold leaveTag
  split
  · rename_i hl
    cases c with
    | brk l =>
        have : l ≠ "" := fun heq => h (by rw [heq])
        simp [leave, hl, this]
    | _ => rfl
  · rfl

/-- A loop with a label, or with none. -/
theorem exec_tagged_loop (s : Session) (n : Nat) (label : String) (init : Stmt) (cond : Expr)
    (post : Stmt) (body : List Stmt) :
    ((Stmt.loop init cond post body).tagged label).exec s n =
      execLoop s n label init cond post body := by
  unfold Stmt.tagged
  split
  · rename_i hl
    rw [hl, exec_loop]
  · rw [exec_labeled_loop]

/-- A label on anything but a loop. -/
theorem Mirrors.tagged {s : Session} {n : Nat} {R S : Memory → Memory → Prop} {x : Action Ending}
    {stmt : Stmt} (hloop : stmt.isLoop = false)
    (h : Mirrors R (fun c ctl m mt => c.control? = some ctl ∧ S m mt) x (stmt.exec s n))
    (label : String) :
    Mirrors R (fun c ctl m mt => (c.leaveTag label).control? = some ctl ∧ S m mt) x
      ((stmt.tagged label).exec s n) := by
  unfold Stmt.tagged Ending.leaveTag
  by_cases hl : label = ""
  · simpa [hl] using h
  · simp only [hl, if_false]
    rw [Stmt.exec_labeled s n label hloop]
    intro m mt hR
    have htracks := h m mt hR
    rw [eff_bind_apply]
    cases hx : x m <;> cases hy : stmt.exec s n mt <;> rw [hx, hy] at htracks <;>
      simp only [Tracks] at htracks ⊢
    · rename_i c m' ctl mt'
      obtain ⟨hctl, hS⟩ := htracks
      cases c with
      | finish => cases hctl
      | brk l =>
          obtain rfl : Control.brk l = ctl := Option.some.inj hctl
          by_cases hbrk : l = label <;> simp [Ending.leave, Ending.control?, hbrk, hS]
      | _ =>
          obtain rfl := Option.some.inj hctl
          exact ⟨rfl, hS⟩
    · exact htracks

/-- A change of the result of the table. -/
theorem Mirrors.map_right {α β δ : Type} {R : Memory → Memory → Prop}
    {R' : α → δ → Memory → Memory → Prop} {x : Action α} {y : Eff Memory β} {f : β → δ} :
    Mirrors R R' x (do let b ← y; Pure.pure (f b)) ↔
      Mirrors R (fun a b => R' a (f b)) x y := by
  have hresult : ∀ m mt, Tracks R' (x m) ((do let b ← y; Pure.pure (f b) : Eff Memory δ) mt) ↔
      Tracks (fun a b => R' a (f b)) (x m) (y mt) := by
    intro m mt
    rw [eff_bind_apply]
    cases x m <;> cases y mt <;> exact Iff.rfl
  exact ⟨fun h m mt hR => (hresult m mt).mp (h m mt hR),
    fun h m mt hR => (hresult m mt).mpr (h m mt hR)⟩

/-- A change of the result of the body. -/
theorem Mirrors.map_left {α β γ : Type} {R : Memory → Memory → Prop}
    {R' : γ → β → Memory → Memory → Prop} {x : Action α} {y : Eff Memory β} {f : α → γ}
    (h : Mirrors R (fun a b => R' (f a) b) x y) :
    Mirrors R R' (do let a ← x; Pure.pure (f a)) y := by
  intro m mt hR
  have htracks := h m mt hR
  rw [Action.bind_apply]
  cases hx : x m <;> cases hy : y mt <;> rw [hx, hy] at htracks <;> exact htracks

section Loops

variable {g : Ground} {shape : Nesting} {c : Visible} {r : Renames} {s : Session} {n : Nat}
  {labels : List String} {label : String} {Q : Ending → Prop} {body : Action Ending}
  {stmts : List Stmt}

/-- The rounds of a loop and the turns of its tree, up to the end of the scope that the
loop has in the table.  The variables of this scope may depend on what the rounds carry. -/
theorem rounds_closes {β : Type} {l : β → Local} {k : Nat} (hl : ∀ b, (l b).rows = k)
    {test : β → Eff Memory Bool} {test' : Eff Memory Bool} {body' : Eff Memory Control}
    {post : Eff Memory β} {post' : Eff Memory Unit}
    (htest : ∀ b, Sync (Linked g (l b :: shape)) (fun _ => Linked g (l b :: shape))
      (test b) test')
    (hbody : ∀ b, Mirrors (Linked g (l b :: shape))
      (fun c ctl m mt => (Q c ∧ c.control? = some ctl) ∧ Linked g (l b :: shape) m mt)
      body body')
    (hpost : ∀ b, Mirrors (Linked g (l b :: shape))
      (fun b' _ => Linked g (l b' :: shape)) (liftM post) post')
    (hlabels : ∀ l, l ≠ "" → Q (.cont l) → (l ∈ labels ↔ l = label)) (b : β) :
    Mirrors (Linked g (l b :: shape))
      (fun c ctl m mt => (c.leaveTag label).control? = some ctl ∧ Closes g shape k m mt)
      (rounds labels test body post n b) (turns label test' body' post' n) := by
  refine (rounds_mirrors (R := fun b => Linked g (l b :: shape)) (fun _ _ _ hm => hm.heap) htest
    (fun b => (hbody b).mono (fun _ _ hm => hm) fun _ _ _ _ hm => ⟨hm.1.1, hm.1.2, hm.2⟩)
    hpost hlabels n b).mono (fun _ _ hm => hm) ?_
  rintro c ctl m mt ⟨⟨hbrk, hctl⟩, b', hm⟩
  rw [Ending.leaveTag_eq hbrk, ← hl b']
  exact ⟨hctl, hm.closes⟩

/-- A loop with nothing but a condition. -/
theorem while_mirrors (hr : Resolves g shape c r) (hs : s.recv = receiverName)
    (hrun : c.runtime = s.runtime) {cond : Expr} (hcond : cond.Clear c)
    (hbody : Mirrors (Linked g (⟨1, [], []⟩ :: ⟨0, [], []⟩ :: shape))
      (fun c ctl m mt => (Q c ∧ c.control? = some ctl) ∧ Closes g (⟨0, [], []⟩ :: shape) 1 m mt)
      body (execAll s n stmts))
    (hlabels : ∀ l, l ≠ "" → Q (.cont l) → (l ∈ labels ↔ l = label)) :
    Mirrors (Linked g shape)
      (fun c ctl m mt => (c.leaveTag label).control? = some ctl ∧ Linked g shape m mt)
      (rounds labels (fun () => condition s cond) (.inScope body) (pure ()) n ())
      (execLoop s n label .missing (cond.rename receiverName r) .missing stmts) := by
  have hin : Resolves g (⟨0, [], []⟩ :: shape) c r := hr.push rfl
  exact Mirrors.inTable (rounds_closes (l := fun _ => ⟨0, [], []⟩) (fun _ => rfl)
    (fun _ => condition_sync hin hs hrun hcond) (fun _ => hbody.inScope)
    (fun _ => Mirrors.pure fun _ _ hm => hm) hlabels ())

/-- Names that are reserved can be declared without effect on the bindings. -/
theorem Resolves.shadow_reserved (hr : Resolves g shape c r) {x : String}
    (hx : x ∈ reservedNames) : Resolves g shape c (r.shadowAll [x]) := by
  refine Resolves.mono (hr.shadowAll_of_plain fun y hy f hfind => ?_) fun y hy =>
    ((Visible.mem_without c [x] y).mp hy).1
  obtain rfl : y = x := List.mem_singleton.mp hy
  exact (hr.field y _ hfind rfl).2.1 hx

theorem Resolves.rename_reserved (hr : Resolves g shape c r) {x : String}
    (hx : x ∈ reservedNames) : (Expr.name x).rename receiverName r = .name x :=
  hr.apply_of_reserved hx

/-- A step that the table takes after both sides have computed the same value. -/
theorem Mirrors.lift_then {α δ : Type} {R : Memory → Memory → Prop}
    {S : α → Memory → Memory → Prop} {R' : α → δ → Memory → Memory → Prop} {x y : Eff Memory α}
    {k : α → Eff Memory δ} (h : Sync R S x y)
    (hk : ∀ a m mt, S a m mt → ∃ b mt', k a mt = .ok b mt' ∧ R' a b m mt') :
    Mirrors R R' (liftM x) (y >>= k) := by
  intro m mt hR
  have hm := h m mt hR
  show Tracks _ (Course.ofResult (x m)) _
  rw [eff_bind_apply]
  cases hx : x m <;> cases hy : y mt <;> rw [hx, hy] at hm <;> simp only [Matches] at hm
  · obtain ⟨rfl, hS⟩ := hm
    obtain ⟨b, mt', hk, hR'⟩ := hk _ _ _ hS
    simp only [hk]
    exact hR'
  · exact hm

/-- A computation and a statement that ends normally. -/
theorem Mirrors.lift_normal {R S : Memory → Memory → Prop} {x : Eff Memory Unit}
    {y : Eff Memory Control} (h : Sync R (fun _ => S) (do x; Pure.pure Control.normal) y) :
    Mirrors R (fun _ ctl m mt => ctl = .normal ∧ S m mt) (liftM x) y := by
  intro m mt hR
  have hm := h m mt hR
  rw [eff_bind_apply] at hm
  show Tracks _ (Course.ofResult (x m)) (y mt)
  cases hx : x m <;> cases hy : y mt <;> rw [hx, hy] at hm <;> exact hm

/-- An assignment of one value in the header of a loop. -/
theorem optional_assign {kind : AssignKind} (hkind : kind.operator? = none) (target e : Expr) :
    optional (.assign kind [target] [e]) ((Stmt.assign kind [target] [e]).exec s n) = (do
      let value ← evaluate s e
      store s (kind == .define) target value) := by
  have hdiscard : ∀ x : Eff Memory Unit,
      (discard (do x; pure Control.normal) : Eff Memory Unit) = x := by
    intro x
    funext m
    show EStateM.map _ (x >>= _) m = _
    unfold EStateM.map
    rw [eff_bind_apply]
    cases x m <;> rfl
  rw [optional_eq, if_neg (by simp [Stmt.isMissing]), Stmt.exec, execAssign_single hkind]
  exact hdiscard _

/-- A hidden variable in the test of a loop. -/
theorem condition_hidden {b : Value} {m mt : Memory}
    (h : Linked g (⟨0, [], [(doName, b)]⟩ :: shape) m mt) :
    (Expr.name doName).eval s mt.view = pure b := by
  have hlocal := h.local_hidden (v := b) (by decide : doName ∈ hiddenNames) (by simp)
  exact View.name_of_local (by decide) hlocal

/-- A loop that tests its condition last. -/
theorem doWhile_mirrors (hr : Resolves g shape c r) (hs : s.recv = receiverName)
    (hrun : c.runtime = s.runtime) {cond : Expr} (hcond : cond.Clear c)
    (hbody : ∀ b, Mirrors (Linked g (⟨1, [], []⟩ :: ⟨0, [], [(doName, b)]⟩ :: shape))
      (fun c ctl m mt => (Q c ∧ c.control? = some ctl) ∧
        Closes g (⟨0, [], [(doName, b)]⟩ :: shape) 1 m mt)
      body (execAll s n stmts))
    (hlabels : ∀ l, l ≠ "" → Q (.cont l) → (l ∈ labels ↔ l = label)) :
    Mirrors (Linked g shape)
      (fun c ctl m mt => (c.leaveTag label).control? = some ctl ∧ Linked g shape m mt)
      (rounds labels (fun value => onHeap fun _ => Value.asBool value) (.inScope body)
        (if cond.isMissing then pure (.bool true) else evaluate s cond) n (.bool true))
      (execLoop s n label (.assign .define [.name doName] [.name "true"]) (.name doName)
        (.assign .set [.name doName]
          [(if cond.isMissing then .name "true" else cond).rename receiverName r]) stmts) := by
  refine Mirrors.inTable
    (Mirrors.stepTable (S := Linked g (⟨0, [], [(doName, .bool true)]⟩ :: shape))
    (b := ()) ?_ ?_)
  · intro m mt hm
    rw [optional_assign rfl]
    exact hm.bindHidden (by decide) (.bool true)
  · refine rounds_closes (l := fun b => ⟨0, [], [(doName, b)]⟩) (fun _ => rfl) (fun b => ?_)
      (fun b => (hbody b).inScope) (fun b => ?_) hlabels (.bool true)
    · have hcond : condition s (.name doName) =
          (onHeap fun v => do (← (Expr.name doName).eval s v).asBool) := rfl
      rw [hcond]
      refine Sync.onHeap_eq fun m mt hm => ?_
      rw [condition_hidden hm, pure_bind]
    · rw [optional_assign rfl]
      refine Mirrors.lift_then (S := fun _ => Linked g (⟨0, [], [(doName, b)]⟩ :: shape)) ?_ ?_
      · have hin : Resolves g (⟨0, [], [(doName, b)]⟩ :: shape) c r := hr.push rfl
        cases hm : cond.isMissing with
        | true =>
            simp only [if_true]
            rw [hin.rename_reserved (by decide)]
            exact Sync.pure fun _ _ hm => hm
        | false =>
            simp only [Bool.false_eq_true, if_false]
            exact Sync.onHeap_eq fun m mt hm => hm.eval_rename hin hs hrun cond hcond
      · intro v m mt hm
        obtain ⟨mt', hassign, hm'⟩ := hm.assignHidden (by decide) v
        exact ⟨(), mt', hassign, hm'⟩

/-- A loop with a full header. -/
theorem loop_mirrors {names : List String} {inner : Renames} {cond : Expr} {init post : Flow}
    {initRun : Action Ending} {init' post' : Stmt}
    (hinner : Resolves g (Nesting.bind (⟨1, [], []⟩ :: shape) names) c inner)
    (hs : s.recv = receiverName) (hrun : c.runtime = s.runtime) (hcond : cond.Clear c)
    (hinit : Mirrors (Linked g (⟨1, [], []⟩ :: shape))
      (fun _ _ => Linked g (Nesting.bind (⟨1, [], []⟩ :: shape) names)) (init.begin initRun)
      (optional init' (init'.exec s n)))
    (hpost : Sync (Linked g (Nesting.bind (⟨1, [], []⟩ :: shape) names))
      (fun _ => Linked g (Nesting.bind (⟨1, [], []⟩ :: shape) names)) (post.update s n)
      (optional post' (post'.exec s n)))
    (hbody : Mirrors (Linked g (⟨1, [], []⟩ :: Nesting.bind (⟨1, [], []⟩ :: shape) names))
      (fun c ctl m mt => (Q c ∧ c.control? = some ctl) ∧
        Closes g (Nesting.bind (⟨1, [], []⟩ :: shape) names) 1 m mt)
      body (execAll s n stmts))
    (hlabels : ∀ l, l ≠ "" → Q (.cont l) → (l ∈ labels ↔ l = label)) :
    Mirrors (Linked g shape)
      (fun c ctl m mt => (c.leaveTag label).control? = some ctl ∧ Linked g shape m mt)
      (.inScope do
        init.begin initRun
        rounds labels (fun () => condition s cond) (.inScope body) (post.update s n) n ())
      (execLoop s n label init' (cond.rename receiverName inner) post' stmts) := by
  refine Mirrors.inScope (hinit.bind fun _ _ => ?_)
  exact rounds_closes (l := fun _ => ⟨1, names ++ [], []⟩) (fun _ => rfl)
    (fun _ => condition_sync hinner hs hrun hcond) (fun _ => hbody.inScope)
    (fun _ => (Mirrors.lift hpost).mono (fun _ _ hm => hm) fun _ _ _ _ hm => hm.2) hlabels ()

/-- A loop over an iterator. -/
theorem walk_mirrors (hr : Resolves g shape c r) (hs : s.recv = receiverName)
    (hrun : c.runtime = s.runtime) (hruntime : s.runtime ≠ iteratorName) {w : Walk}
    (hreg : w.Regular) (hplain : w.Plain c)
    (hbody : ∀ it, Mirrors (Linked g (⟨2, w.names, []⟩ :: ⟨0, [], [(iteratorName, it)]⟩ :: shape))
      (fun c ctl m mt => (Q c ∧ c.control? = some ctl) ∧
        Closes g (⟨0, [], [(iteratorName, it)]⟩ :: shape) 2 m mt)
      body (execAll s n stmts))
    (hlabels : ∀ l, l ≠ "" → Q (.cont l) → (l ∈ labels ↔ l = label)) :
    Mirrors (Linked g shape)
      (fun c ctl m mt => (c.leaveTag label).control? = some ctl ∧ Linked g shape m mt)
      (do
        let it ← evaluate s w.x
        rounds labels (fun () => iteratorHasNext s it)
          (.inScope do
            w.advance s it
            .inScope body)
          (pure ()) n ())
      (execLoop s n label (.assign .define [.name iteratorName] [w.x.rename receiverName r])
        (((Expr.name iteratorName).method "HasNext").rename receiverName
          (r.shadowAll [iteratorName]))
        .missing
        ((w.take.rename receiverName (r.shadowAll [iteratorName])).1 :: stmts)) := by
  have hin : Resolves g (⟨0, [], []⟩ :: shape) c r := hr.push rfl
  have hafter : Resolves g shape c (r.shadowAll [iteratorName]) := hr.shadow_reserved (by decide)
  refine Mirrors.inTable ?_
  rw [optional_assign rfl, bind_assoc]
  refine Mirrors.bind (Mirrors.lift (P := fun _ => Linked g (⟨0, [], []⟩ :: shape)) ?_)
    fun it it' => ?_
  · exact Sync.onHeap_eq fun m mt hm => hm.eval_rename hin hs hrun w.x hplain.1
  · rintro m mt ⟨rfl, hm⟩
    revert m mt
    refine Mirrors.stepTable (b := ()) (fun m mt hm => hm.bindHidden (by decide) it') ?_
    refine rounds_closes (l := fun _ => ⟨0, [], [(iteratorName, it')]⟩) (fun _ => rfl)
      (fun _ => hasNext_sync hafter hruntime it') (fun _ => Mirrors.inScope ?_)
      (fun _ => Mirrors.pure fun _ _ hm => hm) hlabels ()
    have hinner : Resolves g (⟨1, [], []⟩ :: ⟨0, [], [(iteratorName, it')]⟩ :: shape) _ _ :=
      (hafter.push rfl).push rfl
    have htake := take_sync hinner hs hrun hreg hplain n
    simp only [execAll]
    refine Mirrors.bind (Mirrors.lift_normal htake) fun _ ctl => ?_
    rintro m mt ⟨rfl, hm⟩
    exact Mirrors.inRow rfl (hbody it') m mt hm

end Loops

section Switches

variable {s : Session} {n : Nat}

/-- What comes after statements that end normally. -/
def Control.orElse (ctl next : Control) : Control :=
  match ctl with
  | .normal => next
  | ctl => ctl

theorem execAll_branch (stmts : List Stmt) (kind : BranchKind) (next : Control)
    (hnext : (Stmt.branch kind none).exec s n = pure next) :
    execAll s n (stmts ++ [.branch kind none]) = (do
      let ctl ← execAll s n stmts
      pure (ctl.orElse next)) := by
  induction stmts with
  | nil =>
      simp only [List.nil_append, execAll, hnext, pure_bind, Control.orElse]
      cases next <;> rfl
  | cons stmt stmts ih =>
      simp only [List.cons_append, execAll, bind_assoc]
      congr 1
      funext ctl
      cases ctl with
      | normal => exact ih
      | _ =>
          simp only [pure_bind]
          rfl

theorem renameStmts_branch (r : Renames) (stmts : List Stmt) (kind : BranchKind) :
    renameStmts receiverName r (stmts ++ [.branch kind none]) =
      renameStmts receiverName r stmts ++ [.branch kind none] := by
  induction stmts generalizing r with
  | nil => rfl
  | cons stmt stmts ih =>
      simp only [List.cons_append, renameStmts, ih]

/-- The trees of statements that end in a plain break. -/
theorem toStmts?_endsInBreak {body : List Flow} {stmts : List Stmt} (h : toStmts? body = some stmts)
    (hbreak : endsInBreak body = true) : stmts = stmts.dropLast ++ [.branch .brk none] := by
  induction body generalizing stmts with
  | nil => cases hbreak
  | cons flow body ih =>
      obtain ⟨stmt, rest, hstmt, hrest, rfl⟩ := return_eq_some₂.mp h
      cases body with
      | nil =>
          obtain rfl := Option.some.inj hrest
          cases flow with
          | brk label =>
              obtain rfl : label = "" := by simpa [endsInBreak] using hbreak
              obtain rfl := Option.some.inj hstmt
              rfl
          | _ => simp [endsInBreak] at hbreak
      | cons next body =>
          have hne : rest ≠ [] := by
            rintro rfl
            obtain ⟨_, _, -, -, hnil⟩ := return_eq_some₂.mp hrest
            cases hnil
          have hlast := ih hrest (by simpa [endsInBreak] using hbreak)
          rw [List.dropLast_cons_of_ne_nil hne, List.cons_append, ← hlast]

/-- A case that leaves its switch on its own does not end normally. -/
theorem execFlows_endsCase {b : Bound} {body : List Flow} (hends : endsCase body = true)
    (hesc : anyEscapes b body = false) : (execFlows s n body).Ends fun c => c ≠ .normal := by
  induction body with
  | nil => cases hends
  | cons flow body ih =>
      simp only [anyEscapes, Bool.or_eq_false_iff] at hesc
      simp only [execFlows]
      cases body with
      | nil =>
          cases flow with
          | brk label => exact .pure (by simp)
          | cont label => exact .pure (by simp)
          | finish => simp [Flow.escapes] at hesc
          | yield value => simp [Flow.escapes] at hesc
          | _ => simp [endsCase] at hends
      | cons next body =>
          refine (Action.ends_any _).bind fun c _ => ?_
          cases c with
          | normal => exact ih (by simpa [endsCase] using hends) hesc.2
          | _ => exact .pure (by simp)

/-- How a case of a switch ends, and how its clause does. -/
def CaseEnd (last : Bool) (c : Ending) (ctl : Control) : Prop :=
  c = .normal ∧ ctl = (if last then .normal else .fall) ∨ c = .brk "" ∧ ctl = .normal ∨
    c ≠ .normal ∧ c.control? = some ctl

/-- The statements of a case and those of its clause. -/
theorem closeCase_mirrors {R S : Memory → Memory → Prop} {r : Renames} {b : Bound}
    {body : List Flow} {stmts : List Stmt} (hstmts : toStmts? body = some stmts)
    (hesc : anyEscapes b body = false)
    (h : Mirrors R (fun c ctl m mt => c.control? = some ctl ∧ S m mt) (execFlows s n body)
      (execAll s n (renameStmts receiverName r stmts))) (last : Bool) :
    Mirrors R (fun c ctl m mt => CaseEnd last c ctl ∧ S m mt) (execFlows s n body)
      (execAll s n (renameStmts receiverName r (closeCase body stmts last))) := by
  unfold closeCase
  split
  · rename_i hbreak
    rw [toStmts?_endsInBreak hstmts hbreak, renameStmts_branch,
      execAll_branch _ .brk (.brk "") (by rw [Stmt.exec]; rfl), Mirrors.map_right] at h
    refine h.mono (fun _ _ hR => hR) fun c ctl m mt hc => ⟨?_, hc.2⟩
    have hctl := hc.1
    cases ctl with
    | normal =>
        cases c <;> simp_all [CaseEnd, Control.orElse, Ending.control?]
    | _ =>
        refine .inr (.inr ⟨?_, hctl⟩)
        rintro rfl
        cases hctl
  · split
    · rename_i hbreak hlast
      by_cases hends : endsCase body = true
      · refine (h.withEnds (execFlows_endsCase hends hesc)).mono (fun _ _ hR => hR) ?_
        exact fun c ctl m mt hc => ⟨.inr (.inr ⟨hc.1, hc.2.1⟩), hc.2.2⟩
      · obtain rfl : last = true := by simpa [hends] using hlast
        refine h.mono (fun _ _ hR => hR) fun c ctl m mt hc => ⟨?_, hc.2⟩
        cases c with
        | normal => exact .inl ⟨rfl, (Option.some.inj hc.1).symm⟩
        | _ => exact .inr (.inr ⟨by simp, hc.1⟩)
    · rename_i hbreak hlast
      obtain rfl : last = false := by
        simp only [Bool.or_eq_true, not_or] at hlast
        simpa using hlast.2
      rw [renameStmts_branch, execAll_branch _ .fallthrough .fall (by rw [Stmt.exec]),
        Mirrors.map_right]
      refine h.mono (fun _ _ hR => hR) fun c ctl m mt hc => ⟨?_, hc.2⟩
      have hctl := hc.1
      cases c with
      | finish => cases hctl
      | _ =>
          obtain rfl := Option.some.inj hctl
          simp [CaseEnd, Control.orElse, Ending.control?]

/-- What a clause is for, without its statements. -/
def Clause.guard : Clause → Clause
  | .case values _ => .case values []
  | .default _ => .default []

theorem matchingClause?_guard (s : Session) (v : View) (value : Value) (i : Nat)
    (clauses : List Clause) :
    matchingClause? s v value i (clauses.map Clause.guard) =
      matchingClause? s v value i clauses := by
  induction clauses generalizing i with
  | nil => rfl
  | cons clause clauses ih =>
      cases clause <;> simp only [List.map_cons, Clause.guard, matchingClause?, ih]

theorem defaultClause?_guard (i : Nat) (clauses : List Clause) :
    defaultClause? i (clauses.map Clause.guard) = defaultClause? i clauses := by
  induction clauses generalizing i with
  | nil => rfl
  | cons clause clauses ih =>
      cases clause <;> simp only [List.map_cons, Clause.guard, defaultClause?, ih] <;>
        cases defaultClause? (i + 1) clauses <;> rfl

theorem toClauses?_guard {cases' : List FlowCase} {clauses : List Clause}
    (h : toClauses? cases' = some clauses) :
    clauses.map Clause.guard = cases'.map FlowCase.guard := by
  induction cases' generalizing clauses with
  | nil =>
      obtain rfl := Option.some.inj h
      rfl
  | cons c cs ih =>
      obtain ⟨clause, rest, hclause, hrest, rfl⟩ := return_eq_some₂.mp h
      have hguard : clause.guard = c.guard := by
        cases c <;> obtain ⟨stmts, -, rfl⟩ := return_eq_some.mp hclause <;> rfl
      rw [List.map_cons, List.map_cons, hguard, ih hrest]

/-- Which clause a switch starts at does not depend on the statements of the clauses. -/
theorem chooseClause_map_guard (s : Session) (tag : Expr) (clauses : List Clause) :
    chooseClause s tag (clauses.map Clause.guard) = chooseClause s tag clauses := by
  rw [chooseClause_eq, chooseClause_eq]
  simp only [matchingClause?_guard, defaultClause?_guard]

/-- A switch and its tree start at the same case. -/
theorem chooseClause_guard (s : Session) (tag : Expr) {cases' : List FlowCase}
    {clauses : List Clause} (h : toClauses? cases' = some clauses) :
    chooseClause s tag (cases'.map FlowCase.guard) = chooseClause s tag clauses := by
  rw [← toClauses?_guard h, chooseClause_map_guard]

theorem Clause.values_guard (clause : Clause) : clause.guard.values = clause.values := by
  cases clause <;> rfl

theorem values_clear_of_plain {runtime : String} {scopes : Scopes} {cases' : List FlowCase}
    (hplain : casesPlain runtime scopes cases') {clauses : List Clause}
    (h : toClauses? cases' = some clauses) :
    ∀ clause ∈ clauses, exprsClear (scopes.visible runtime) clause.values := by
  have hcases : ∀ c ∈ cases', exprsClear (scopes.visible runtime) c.guard.values := by
    clear h
    induction cases' with
    | nil => simp
    | cons c cs ih =>
        simp only [List.mem_cons, forall_eq_or_imp]
        refine ⟨?_, ih hplain.2⟩
        cases c with
        | case values body => exact hplain.1.1
        | default body => trivial
  intro clause hmem
  have hguard : clause.guard ∈ cases'.map FlowCase.guard := by
    rw [← toClauses?_guard h]
    exact List.mem_map_of_mem hmem
  obtain ⟨c, hc, heq⟩ := List.mem_map.mp hguard
  rw [← clause.values_guard, ← heq]
  exact hcases c hc

end Switches

section Labels

variable {s : Session} {n : Nat}

/-- The label of a loop does not matter when no branch of the body names it. -/
theorem turns_congr_label (label label' : String) {test : Eff Memory Bool}
    {body : Eff Memory Control} {post : Eff Memory Unit}
    (hbody : Gives (fun ctl => ctl.afterBody label = ctl.afterBody label') body) (k : Nat) :
    turns label test body post k = turns label' test body post k := by
  induction k with
  | zero => rfl
  | succ k ih =>
      simp only [turns]
      congr 1
      funext more
      cases more with
      | false => rfl
      | true =>
          simp only [if_true]
          refine hbody.bind_congr fun ctl hctl => ?_
          simp only [hctl, ih]

/-- A label on a statement that does not leave itself. -/
theorem Stmt.exec_tagged (label : String) {stmt : Stmt} (h : stmt.Stays .none) :
    (stmt.tagged label).exec s n = stmt.exec s n := by
  unfold tagged
  split
  · rfl
  · rename_i hlabel
    cases hloop : stmt.isLoop with
    | false =>
        rw [Stmt.exec_labeled s n label hloop]
        funext m
        rw [eff_bind_apply]
        cases hm : stmt.exec s n m with
        | error e m' => rfl
        | ok ctl m' =>
            obtain rfl := Stmt.exec_normal h hm
            rfl
    | true =>
        cases stmt with
        | loop init cond post body =>
            rw [exec_labeled_loop, exec_loop]
            unfold execLoop
            rw [turns_congr_label label ""]
            refine (execAll_gives s n body h).inScope.mono fun ctl hctl => ?_
            cases ctl with
            | normal => rfl
            | fall => rfl
            | brk l =>
                by_cases hl : l = ""
                · simp [Control.afterBody, hl]
                · simp [Reach.Allows, Reach.inLoop, Reach.none, hl] at hctl
            | cont l =>
                by_cases hl : l = ""
                · simp [Control.afterBody, hl]
                · simp [Reach.Allows, Reach.inLoop, Reach.none, hl] at hctl
        | _ => cases hloop

end Labels

end YieldMachine
