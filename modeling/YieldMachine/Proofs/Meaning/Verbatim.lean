import YieldMachine.Proofs.Meaning.Trees

/-!
# Statements that run inside one state

A statement that does not change the control flow of its generator is copied into a state
as one tree.  Running the statement and executing the renamed tree in linked memories
do the same, and breaks and continues find the same targets.
-/

namespace YieldMachine

variable {g : Ground} {s : Session} (n : Nat)

/-- Whether the labels that are attached to a statement are what the tree knows: of those
that a continue may name, the loop has the label of the tree and no other. -/
def Place.Attached (p : Place) (labels : List String) (label : String) (flow : Flow) : Prop :=
  ∀ l, l ≠ "" → p.labels.lookup l = some true →
    (l ∈ labels ↔ l = label) ∧ (l = label → flow.isLoop = true)

theorem Place.attached_nil (p : Place) (flow : Flow) : p.Attached [] "" flow :=
  fun _ hl _ => ⟨by simp [hl], fun heq => absurd heq hl⟩

/-- In a labelled statement, its label is the last one attached. -/
theorem Place.Attached.withLabel {p : Place} {labels : List String} {label l : String}
    {flow : Flow} (h : p.Attached labels label (.labeled l flow)) :
    (p.withLabel l flow.isLoop).Attached (labels ++ [l]) l flow := by
  intro k hk hlookup
  by_cases hkl : k = l
  · subst hkl
    have : flow.isLoop = true := by simpa [Place.withLabel] using hlookup
    simp [this]
  · have hne : (k == l) = false := by simpa using hkl
    rw [Place.withLabel, List.lookup_cons, hne] at hlookup
    obtain ⟨hmem, hloop⟩ := h k hk hlookup
    have hnot : k ≠ label := fun heq => by simpa [Flow.isLoop] using hloop heq
    simp [hkl, hmem, hnot]

/-- What is known of how the body of a loop ends. -/
theorem Mirrors.withAllows {R S : Memory → Memory → Prop} {p : Place} {fs : List Flow}
    {y : Eff Memory Control} (hreg : flowsRegular p fs)
    (h : Mirrors R (fun c ctl m mt => c.control? = some ctl ∧ S m mt) (execFlows s n fs) y) :
    Mirrors R (fun c ctl m mt => (p.Allows c ∧ c.control? = some ctl) ∧ S m mt)
      (execFlows s n fs) y :=
  (h.withEnds (execFlows_ends s n .none fs hreg)).mono (fun _ _ hR => hR)
    fun _ _ _ _ hc => ⟨⟨hc.1.1, hc.2.1⟩, hc.2.2⟩

/-- A continue that the body of a loop may end in names the loop where the tree does. -/
theorem Place.Attached.body {p p' : Place} {labels : List String} {label : String} {flow : Flow}
    (h : p.Attached labels label flow) (hp : p'.labels = p.labels) :
    ∀ l, l ≠ "" → p'.Allows (.cont l) → (l ∈ labels ↔ l = label) := by
  intro l hl hallow
  simp only [Place.Allows, hl, if_false, hp] at hallow
  exact (h l hl hallow).1

theorem VarDecl.isLoop_toStmt (d : VarDecl) : d.toStmt.isLoop = false := by
  unfold VarDecl.toStmt
  split <;> rfl

/-- The tree of a regular statement is written. -/
theorem Flow.isMissing_toStmt {p : Place} (flow : Flow) (hreg : flow.Regular p) {stmt : Stmt}
    (h : flow.toStmt? = some stmt) : stmt.isMissing = false := by
  cases flow.hasTree h with
  | lift => exact hreg.elim
  | declare => exact VarDecl.isMissing_toStmt _
  | simple => exact hreg.1
  | _ => rfl

theorem discard_eq {α : Type} (x : Eff Memory α) :
    (discard x : Eff Memory Unit) = (do let _ ← x; pure ()) := by
  funext m
  rw [eff_bind_apply]
  show EStateM.map _ x m = _
  unfold EStateM.map
  cases x m <;> rfl

/-- A simple statement, with a label or with none. -/
theorem simple_mirrors {shape : Nesting} {c : Visible} {r : Renames} (hr : Resolves g shape c r)
    (hs : s.recv = receiverName) (hrun : c.runtime = s.runtime) {stmt : Stmt}
    (hreg : stmt.Regular) (hclear : stmt.Clear c) (label : String) :
    Mirrors (Linked g shape) (fun _ ctl m mt => ctl = .normal ∧ Linked g shape m mt)
      (liftM (stmt.exec s n)) (((stmt.tagged label).rename receiverName r).1.exec s n) := by
  have htagged : (stmt.tagged label).Clear c ∧ (stmt.tagged label).binds = [] ∧
      (stmt.tagged label).bound = [] := by
    have hbound := Stmt.bound_eq_nil hreg.2.1
    unfold Stmt.tagged
    split
    · exact ⟨hclear, hreg.2.1, hbound⟩
    · exact ⟨hclear, hreg.2.1, hbound⟩
  have hsync := (stmt.tagged label).exec_rename_sync hr hs hrun n htagged.1 (.inl htagged.2.1)
  rw [Stmt.exec_tagged label hreg.2.2, htagged.2.2, Nesting.bind_nil] at hsync
  intro m mt hm
  have hmatch := hsync m mt hm
  show Tracks _ (Course.ofResult (stmt.exec s n m)) _
  cases hx : stmt.exec s n m <;>
    cases hy : ((stmt.tagged label).rename receiverName r).1.exec s n mt <;>
    rw [hx, hy] at hmatch <;> simp only [Matches] at hmatch
  · obtain ⟨rfl, hlinked⟩ := hmatch
    exact ⟨Stmt.exec_normal hreg.2.2 hx, hlinked⟩
  · exact hmatch

/-- The first part of a loop header is a regular statement. -/
theorem Flow.RegularInit.regular {p : Place} {init : Flow} (h : init.RegularInit p.scopes)
    (hm : init ≠ .missing) : init.Regular p := by
  cases init with
  | missing => exact absurd rfl hm
  | declare d => exact h
  | simple stmt => exact h
  | _ => exact h.elim

theorem Flow.PlainPart.plain {p : Place} {runtime : String} {init : Flow}
    (hreg : init.RegularInit p.scopes) (h : init.PlainPart (p.scopes.visible runtime)) :
    init.Plain runtime p.scopes := by
  cases init with
  | missing => trivial
  | declare d => exact h
  | simple stmt => exact h
  | _ => exact hreg.elim

theorem Flow.RegularInit.escapes {p : Place} {init : Flow} (h : init.RegularInit p.scopes)
    (b : Bound) : init.escapes b = false := by
  cases init with
  | missing => rfl
  | declare d => rfl
  | simple stmt => rfl
  | _ => exact h.elim

/-- The bindings after the tree of a regular statement. -/
theorem Resolves.after_flow {shape : Nesting} {l : Local} {r : Renames} {p : Place} {flow : Flow}
    (hr : Resolves g (l :: shape) (p.scopes.visible s.runtime) r) (hreg : flow.Regular p)
    (hscope : ∀ x ∈ p.scopes.headD [], x ∈ l.names) {stmt : Stmt}
    (hstmt : flow.toStmt? = some stmt) :
    Resolves g (Nesting.bind (l :: shape) flow.fresh)
      ((p.declare flow.fresh).scopes.visible s.runtime) (stmt.rename receiverName r).2 := by
  cases hdecl : flow.isDeclare with
  | true =>
      obtain ⟨d, rfl⟩ : ∃ d, flow = .declare d := by
        cases flow with
        | declare d => exact ⟨d, rfl⟩
        | _ => cases hdecl
      obtain rfl := Option.some.inj hstmt
      refine hr.after_declare fun x hx => ?_
      obtain ⟨-, -, hshape⟩ := hreg
      split at hshape
      · exact hscope x (hshape.2 x hx)
      · rw [hshape.1] at hx
        cases hx
  | false =>
      have hfresh : flow.fresh = [] := by
        cases flow with
        | declare d => cases hdecl
        | _ => rfl
      rw [Stmt.rename_snd, flow.binds_toStmt hreg hdecl hstmt, hfresh, Nesting.bind_nil]
      refine hr.mono fun x hx => ?_
      exact (Scopes.mem_declare p.scopes [] x).mpr (.inr hx)

/-- The first statement of a list, and the place of the others. -/
theorem flows_cons {p : Place} {runtime : String} {f : Flow} {fs : List Flow}
    (hreg : flowsRegular p (f :: fs)) (hplain : flowsPlain runtime p.scopes (f :: fs)) :
    ∃ p' : Place, f.Regular p ∧ f.Plain runtime p.scopes ∧ flowsRegular p' fs ∧
      flowsPlain runtime p'.scopes fs ∧
      (∀ x, x ∈ p'.scopes.flatten ↔ x ∈ (p.declare f.fresh).scopes.flatten) ∧
      ∀ x ∈ p'.scopes.headD [], x ∈ f.fresh ∨ x ∈ p.scopes.headD [] := by
  cases f with
  | declare d =>
      refine ⟨p.declare d.fresh, hreg.1, hplain.1, hreg.2, hplain.2, fun _ => Iff.rfl, ?_⟩
      intro x hx
      obtain ⟨scopes, brk, cont, labels⟩ := p
      cases scopes with
      | nil => exact .inl hx
      | cons scope outer => exact List.mem_append.mp hx
  | _ =>
      refine ⟨p, hreg.1, hplain.1, hreg.2, hplain.2, fun x => ?_, fun x hx => .inr hx⟩
      exact ((Scopes.mem_declare p.scopes [] x).trans (by simp)).symm

/-- Whether there is a scope in the table for what is declared at a place. -/
def Place.Room (p : Place) (shape : Nesting) : Prop :=
  ∃ l rest, shape = l :: rest ∧ 0 < l.rows ∧ ∀ x ∈ p.scopes.headD [], x ∈ l.names

theorem Place.room_inner (p : Place) (shape : Nesting) :
    p.inner.Room ((⟨1, [], []⟩ : Local) :: shape) :=
  ⟨_, _, rfl, Nat.one_pos, by simp [Place.inner]⟩

/-- Whether a statement at a place and its renamed tree, with a label or with none, do the
same. -/
def Flow.Mirrored (s : Session) (n : Nat) (p : Place) (flow : Flow) : Prop :=
  ∀ ⦃g : Ground⦄ ⦃shape : Nesting⦄ ⦃r : Renames⦄ ⦃stmt : Stmt⦄ ⦃labels : List String⦄
    ⦃label : String⦄, Resolves g shape (p.scopes.visible s.runtime) r →
    flow.toStmt? = some stmt → p.Attached labels label flow →
    (flow.isDeclare = true → p.Room shape) →
    Mirrors (Linked g shape)
      (fun c ctl m mt => (c.leaveTag label).control? = some ctl ∧
        Linked g (shape.bind flow.fresh) m mt)
      (flow.exec s n labels) (((stmt.rename receiverName r).1.tagged label).exec s n)

/-- Whether the statements of a scope and their renamed trees do the same. -/
def FlowsMirrored (s : Session) (n : Nat) (p : Place) (fs : List Flow) : Prop :=
  ∀ ⦃g : Ground⦄ ⦃shape : Nesting⦄ ⦃l : Local⦄ ⦃r : Renames⦄ ⦃stmts : List Stmt⦄,
    Resolves g (l :: shape) (p.scopes.visible s.runtime) r → toStmts? fs = some stmts →
    0 < l.rows → (∀ x ∈ p.scopes.headD [], x ∈ l.names) →
    Mirrors (Linked g (l :: shape))
      (fun c ctl m mt => c.control? = some ctl ∧ Closes g shape l.rows m mt)
      (execFlows s n fs) (execAll s n (renameStmts receiverName r stmts))

/-- Whether the cases of a switch, from any of them on, and their renamed clauses do the same. -/
def CasesMirrored (s : Session) (n : Nat) (p : Place) (cs : List FlowCase) : Prop :=
  ∀ ⦃g : Ground⦄ ⦃shape : Nesting⦄ ⦃r : Renames⦄ ⦃clauses : List Clause⦄ (i : Nat),
    Resolves g shape (p.scopes.visible s.runtime) r → toClauses? cs = some clauses →
    Mirrors (Linked g shape) (fun c ctl m mt => c.control? = some ctl ∧ Linked g shape m mt)
      (execCases s n i cs) (execFrom s n i (renameClauses receiverName r clauses))

section Statements

variable {n} {p : Place} {cond : Expr} {body : List Flow}

/-- The statements of a new scope of its own. -/
theorem FlowsMirrored.inner (h : FlowsMirrored s n p.inner body) {shape : Nesting} {r : Renames}
    (hr : Resolves g shape (p.scopes.visible s.runtime) r) {stmts : List Stmt}
    (hstmts : toStmts? body = some stmts) :
    Mirrors (Linked g (⟨1, [], []⟩ :: shape))
      (fun c ctl m mt => c.control? = some ctl ∧ Closes g shape 1 m mt)
      (execFlows s n body) (execAll s n (renameStmts receiverName r stmts)) :=
  h (hr.push rfl) hstmts Nat.one_pos (by simp [Place.inner])

theorem block_mirrored (hbody : FlowsMirrored s n p.inner body) :
    (Flow.block body).Mirrored s n p := by
  intro g shape r stmt labels label hr hstmt _ _
  cases Flow.hasTree hstmt with
  | block hstmts =>
      simp only [Flow.exec, Flow.fresh, Nesting.bind_nil]
      refine Mirrors.tagged rfl ?_ label
      simp only [Stmt.rename, Stmt.exec]
      exact (hbody.inner hr hstmts).inScope

theorem declare_mirrored (hs : s.recv = receiverName) {d : VarDecl}
    (hreg : (Flow.declare d).Regular p) (hplain : (Flow.declare d).Plain s.runtime p.scopes) :
    (Flow.declare d).Mirrored s n p := by
  intro g shape r stmt labels label hr hstmt _ hroom
  obtain rfl := Option.some.inj hstmt
  obtain ⟨l, rest, rfl, hl, hscope⟩ := hroom rfl
  simp only [Flow.exec, Flow.fresh]
  refine Mirrors.tagged (by rw [Stmt.isLoop_rename, d.isLoop_toStmt]) ?_ label
  refine Mirrors.map_left ((Mirrors.lift_normal
    (declare_sync hl hr hs rfl hreg hplain hscope n)).mono (fun _ _ hm => hm) ?_)
  rintro _ ctl m mt ⟨rfl, hm⟩
  exact ⟨rfl, hm⟩

theorem brk_mirrored (l : String) : (Flow.brk l).Mirrored s n p := by
  intro g shape r stmt labels label _ hstmt _ _
  obtain rfl := Option.some.inj hstmt
  simp only [Flow.exec, Flow.fresh, Nesting.bind_nil]
  refine Mirrors.tagged rfl ?_ label
  simp only [branchTo, Stmt.rename, Stmt.exec]
  refine Mirrors.pure fun m mt hm => ⟨?_, hm⟩
  by_cases hl : l = "" <;> simp [Ending.control?, hl]

theorem cont_mirrored (l : String) : (Flow.cont l).Mirrored s n p := by
  intro g shape r stmt labels label _ hstmt _ _
  obtain rfl := Option.some.inj hstmt
  simp only [Flow.exec, Flow.fresh, Nesting.bind_nil]
  refine Mirrors.tagged rfl ?_ label
  simp only [branchTo, Stmt.rename, Stmt.exec]
  refine Mirrors.pure fun m mt hm => ⟨?_, hm⟩
  by_cases hl : l = "" <;> simp [Ending.control?, hl]

theorem simple_mirrored (hs : s.recv = receiverName) {stmt : Stmt} (hreg : stmt.Regular)
    (hclear : stmt.Clear (p.scopes.visible s.runtime)) : (Flow.simple stmt).Mirrored s n p := by
  intro g shape r stmt labels label hr hstmt _ _
  obtain rfl := Option.some.inj hstmt
  simp only [Flow.exec, Flow.fresh, Nesting.bind_nil]
  rw [← Stmt.rename_tagged]
  refine Mirrors.map_left ((simple_mirrors n hr hs rfl hreg hclear label).mono
    (fun _ _ hm => hm) ?_)
  rintro _ ctl m mt ⟨rfl, hm⟩
  refine ⟨?_, hm⟩
  unfold Ending.leaveTag
  split <;> rfl

/-- A label passes a branch of its own on, and is the last one that is attached inside. -/
theorem labeled_mirrored {l : String} {inner : Flow} (hl : l ≠ "")
    (hdecl : inner.isDeclare = false)
    (hinner : inner.Mirrored s n (p.withLabel l inner.isLoop)) :
    (Flow.labeled l inner).Mirrored s n p := by
  intro g shape r stmt labels label hr hstmt hlabels _
  cases Flow.hasTree hstmt with
  | labeled hstmt' =>
      have h := hinner hr hstmt' hlabels.withLabel (by simp [hdecl])
      have hfresh : inner.fresh = [] := by
        cases inner with
        | declare d => cases hdecl
        | _ => rfl
      rw [hfresh] at h
      simp only [Flow.exec, Flow.fresh]
      refine Mirrors.tagged rfl (Mirrors.map_left ?_) label
      simpa [Stmt.tagged, Ending.leaveTag, hl, Stmt.rename] using h

theorem while_mirrored (hs : s.recv = receiverName)
    (hcond : cond.Clear (p.scopes.visible s.runtime)) (hreg : flowsRegular p.inLoop.inner body)
    (hbody : FlowsMirrored s n p.inLoop.inner body) : (Flow.while cond body).Mirrored s n p := by
  intro g shape r stmt labels label hr hstmt hlabels _
  cases Flow.hasTree hstmt with
  | «while» hstmts =>
      simp only [Flow.exec, Flow.fresh, Nesting.bind_nil, Stmt.rename]
      rw [exec_tagged_loop]
      exact while_mirrors hr hs rfl hcond
        ((FlowsMirrored.inner hbody (p := p.inLoop) (hr.push rfl) hstmts).withAllows n hreg)
        (hlabels.body rfl)

/-- The tree of a loop that tests last, with its hidden variable. -/
theorem rename_doWhile {c : Visible} {shape : Nesting} {r : Renames} (hr : Resolves g shape c r)
    (stmts : List Stmt) :
    ((Stmt.loop (.assign .define [.name doName] [.name "true"]) (.name doName)
      (.assign .set [.name doName] [if cond.isMissing then .name "true" else cond]) stmts).rename
        receiverName r).1 =
      .loop (.assign .define [.name doName] [.name "true"]) (.name doName)
        (.assign .set [.name doName] [(if cond.isMissing then .name "true" else cond).rename
          receiverName (r.shadowAll [doName])])
        (renameStmts receiverName (r.shadowAll [doName]) stmts) := by
  have htrue := hr.rename_reserved (by decide : "true" ∈ reservedNames)
  have hdo := (hr.shadow_reserved (by decide : doName ∈ reservedNames)).rename_reserved
    (by decide : doName ∈ reservedNames)
  have hdeclare : r.declareExprs [.name doName] = r.shadowAll [doName] := rfl
  simp only [Stmt.rename, renameExprs, htrue, hdeclare, hdo]

theorem doWhile_mirrored (hs : s.recv = receiverName)
    (hcond : cond.Clear (p.scopes.visible s.runtime)) (hreg : flowsRegular p.inLoop.inner body)
    (hbody : FlowsMirrored s n p.inLoop.inner body) : (Flow.doWhile body cond).Mirrored s n p := by
  intro g shape r stmt labels label hr hstmt hlabels _
  have hafter := hr.shadow_reserved (by decide : doName ∈ reservedNames)
  cases Flow.hasTree hstmt with
  | doWhile hstmts =>
      rw [rename_doWhile hr, exec_tagged_loop]
      simp only [Flow.exec, Flow.fresh, Nesting.bind_nil]
      exact doWhile_mirrors hafter hs rfl hcond (fun _ =>
        (FlowsMirrored.inner hbody (p := p.inLoop) (hafter.push rfl) hstmts).withAllows n hreg)
        (hlabels.body rfl)

/-- The first part of a loop header, if one is written. -/
theorem init_mirrors {init : Flow} {shape : Nesting} {r : Renames} {init' : Stmt}
    (hr : Resolves g shape (p.scopes.visible s.runtime) r) (hreg : init.RegularInit p.inner.scopes)
    (hinit : init ≠ .missing → init.Mirrored s n p.inner) (htree : init.part? = some init') :
    Mirrors (Linked g (⟨1, [], []⟩ :: shape))
      (fun _ _ => Linked g (Nesting.bind (⟨1, [], []⟩ :: shape) init.fresh))
      (init.begin (init.exec s n []))
      (optional (init'.rename receiverName r).1 ((init'.rename receiverName r).1.exec s n)) ∧
      Resolves g (Nesting.bind (⟨1, [], []⟩ :: shape) init.fresh)
        ((p.inner.declare init.fresh).scopes.visible s.runtime)
        (init'.rename receiverName r).2 := by
  have hin : Resolves g (⟨1, [], []⟩ :: shape) (p.inner.scopes.visible s.runtime) r := hr.push rfl
  by_cases hm : init = .missing
  · subst hm
    obtain rfl := Option.some.inj htree
    exact ⟨Mirrors.pure fun _ _ hm => hm, hin⟩
  · have hmissing : init.isMissing = false := by simpa [← Flow.isMissing_eq_true] using hm
    rw [Flow.part?_of_ne hm] at htree
    have hregular : init.Regular p.inner := hreg.regular hm
    have h := hinit hm hin htree (p.inner.attached_nil init)
      fun _ => p.room_inner shape
    refine ⟨?_, hin.after_flow hregular (by simp [Place.inner]) htree⟩
    rw [Flow.begin, hmissing, optional_eq, Stmt.isMissing_rename,
      init.isMissing_toStmt hregular htree, discard_eq]
    exact Mirrors.map_left (Mirrors.map_right.mpr (h.mono (fun _ _ hm => hm)
      fun _ _ _ _ hc => hc.2))

/-- The last part of a loop header, if one is written. -/
theorem post_sync (hs : s.recv = receiverName) {post : Flow} {l : Local} {shape : Nesting}
    {r : Renames} {post' : Stmt} (hr : Resolves g (l :: shape) (p.scopes.visible s.runtime) r)
    (hreg : post.RegularPost) (hplain : post.PlainPart (p.scopes.visible s.runtime))
    (htree : post.part? = some post') :
    Sync (Linked g (l :: shape)) (fun _ => Linked g (l :: shape)) (post.update s n)
      (optional (post'.rename receiverName r).1 ((post'.rename receiverName r).1.exec s n)) ∧
      (post'.rename receiverName r).2 = r := by
  cases post with
  | missing =>
      obtain rfl := Option.some.inj htree
      exact ⟨Sync.pure fun _ _ hm => hm, rfl⟩
  | simple stmt =>
      obtain rfl := Option.some.inj htree
      refine ⟨?_, by rw [Stmt.rename_snd, hreg.2.1]; rfl⟩
      have h := stmt.exec_rename_sync hr hs rfl n hplain (.inl hreg.2.1)
      rw [Stmt.bound_eq_nil hreg.2.1, Nesting.bind_nil] at h
      rw [optional_eq, Stmt.isMissing_rename, hreg.1]
      exact h.discard
  | _ => exact hreg.elim

theorem loop_mirrored (hs : s.recv = receiverName) {init post : Flow}
    (hreg : (Flow.loop init cond post body).Regular p)
    (hplain : (Flow.loop init cond post body).Plain s.runtime p.scopes)
    (hinit : init ≠ .missing → init.Mirrored s n p.inner)
    (hbody : FlowsMirrored s n (p.inner.declare init.fresh).inLoop.inner body) :
    (Flow.loop init cond post body).Mirrored s n p := by
  intro g shape r stmt labels label hr hstmt hlabels _
  obtain ⟨hregInit, hregPost, hregBody⟩ := hreg
  obtain ⟨-, hcond, hplainPost, -⟩ := hplain
  cases Flow.hasTree hstmt with
  | loop hinit' hpost' hstmts =>
      obtain ⟨hbegin, hinner⟩ := init_mirrors hr hregInit hinit hinit'
      obtain ⟨hupdate, hlast⟩ := post_sync hs hinner hregPost hplainPost hpost'
      simp only [Flow.exec, Flow.fresh, Nesting.bind_nil, Stmt.rename, hlast]
      rw [exec_tagged_loop]
      exact loop_mirrors hinner hs rfl hcond hbegin hupdate
        ((FlowsMirrored.inner hbody (p := (p.inner.declare init.fresh).inLoop) hinner
          hstmts).withAllows n hregBody) (hlabels.body rfl)

theorem walk_mirrored (hs : s.recv = receiverName) (hruntime : s.runtime ≠ iteratorName)
    {header : Walk} (hreg : (Flow.walk header body).Regular p)
    (hplain : (Flow.walk header body).Plain s.runtime p.scopes)
    (hbody : FlowsMirrored s n (p.inner.declare header.names).inLoop.inner body) :
    (Flow.walk header body).Mirrored s n p := by
  intro g shape r stmt labels label hr hstmt hlabels _
  have hafter := hr.shadow_reserved (by decide : iteratorName ∈ reservedNames)
  cases Flow.hasTree hstmt with
  | walk hstmts =>
      simp only [Flow.exec, Flow.fresh, Nesting.bind_nil, Stmt.rename, renameStmts, renameExprs]
      rw [exec_tagged_loop]
      refine walk_mirrors (Q := (p.inner.declare header.names).inLoop.inner.Allows) hr hs rfl
        hruntime hreg.1 hplain.1 (fun it => ?_) (hlabels.body rfl)
      have hin : Resolves g (⟨2, header.names, []⟩ :: ⟨0, [], [(iteratorName, it)]⟩ :: shape)
          ((p.inner.declare header.names).scopes.visible s.runtime)
          (header.take.rename receiverName (r.shadowAll [iteratorName])).2 :=
        Resolves.after_take p.inner.scopes (l := ⟨1, [], []⟩) ((hafter.push rfl).push rfl) rfl
      exact (hbody hin hstmts Nat.two_pos (by simp [Place.inner])).withAllows n hreg.2

/-- The else part of a conditional, if one is written. -/
theorem else_mirrors {other : Flow} {shape : Nesting} {r : Renames} {other' : Stmt}
    (hr : Resolves g shape (p.scopes.visible s.runtime) r)
    (hreg : other.isMissing = false → other.Regular p.inner)
    (hother : other.isMissing = false → other.Mirrored s n p.inner)
    (htree : other.part? = some other') :
    Mirrors (Linked g (⟨0, [], []⟩ :: shape))
      (fun c ctl m mt => c.control? = some ctl ∧ Closes g shape 0 m mt)
      (if other.isMissing then pure .normal else .inScope (other.exec s n []))
      (otherwise (other'.rename receiverName r).1 ((other'.rename receiverName r).1.exec s n)) := by
  rw [otherwise_eq, Stmt.isMissing_rename]
  cases hm : other.isMissing with
  | true =>
      rw [Flow.part?, if_pos hm] at htree
      obtain rfl := Option.some.inj htree
      exact Mirrors.pure fun _ _ hm => ⟨rfl, hm.closes⟩
  | false =>
      rw [Flow.part?, if_neg (by simp [hm])] at htree
      simp only [other.isMissing_toStmt (hreg hm) htree, Bool.false_eq_true, if_false]
      refine Mirrors.inRow rfl ?_
      exact (hother hm (hr.push rfl) htree (p.inner.attached_nil other)
        fun _ => p.room_inner shape).mono (fun _ _ hm => hm)
          fun _ _ _ _ hc => ⟨hc.1, hc.2.closes⟩

theorem ite_mirrored (hs : s.recv = receiverName) {other : Flow}
    (hcond : cond.Clear (p.scopes.visible s.runtime))
    (hreg : other.isMissing = false → other.Regular p.inner)
    (hbody : FlowsMirrored s n p.inner body)
    (hother : other.isMissing = false → other.Mirrored s n p.inner) :
    (Flow.ite cond body other).Mirrored s n p := by
  intro g shape r stmt labels label hr hstmt _ _
  have hin : Resolves g (⟨0, [], []⟩ :: shape) (p.scopes.visible s.runtime) r := hr.push rfl
  cases Flow.hasTree hstmt with
  | ite hstmts hother' =>
      simp only [Flow.exec, Flow.fresh, Nesting.bind_nil]
      refine Mirrors.tagged rfl ?_ label
      simp only [Stmt.rename, Stmt.exec, optional, pure_bind]
      refine Mirrors.inTable (Mirrors.bind (Mirrors.lift
        (P := fun _ => Linked g (⟨0, [], []⟩ :: shape)) ?_) fun holds holds' => ?_)
      · exact Sync.onHeap_eq fun m mt hm => by rw [hm.eval_rename hin hs rfl cond hcond]
      · rintro m mt ⟨rfl, hm⟩
        cases holds' with
        | true =>
            exact (hbody.inner hin hstmts).inScope.mono (fun _ _ hm => hm)
              (fun _ _ _ _ hc => ⟨hc.1, hc.2.closes⟩) m mt hm
        | false => exact else_mirrors hr hreg hother hother' m mt hm

theorem switch_mirrored (hs : s.recv = receiverName) {tag : Expr} {cs : List FlowCase}
    (htag : tag.Clear (p.scopes.visible s.runtime)) (hplain : casesPlain s.runtime p.scopes cs)
    (hcases : CasesMirrored s n p.inSwitch cs) : (Flow.switch tag cs).Mirrored s n p := by
  intro g shape r stmt labels label hr hstmt _ _
  have hin : Resolves g (⟨0, [], []⟩ :: shape) (p.scopes.visible s.runtime) r := hr.push rfl
  cases Flow.hasTree hstmt with
  | switch hclauses =>
      simp only [Flow.exec, Flow.fresh, Nesting.bind_nil]
      refine Mirrors.tagged rfl ?_ label
      simp only [Stmt.rename, Stmt.exec, optional, pure_bind]
      rw [chooseClause_guard s tag hclauses]
      refine Mirrors.inTable (Mirrors.bind (Mirrors.lift (chooseClause_sync hin hs rfl htag
        (values_clear_of_plain hplain hclauses))) fun choice choice' => ?_)
      rintro m mt ⟨rfl, hm⟩
      cases choice' with
      | none => exact ⟨rfl, hm.closes⟩
      | some i =>
          exact (hcases i hin hclauses).mono (fun _ _ hm => hm)
            (fun _ _ _ _ hc => ⟨hc.1, hc.2.closes⟩) m mt hm

theorem flows_nil_mirrored : FlowsMirrored s n p [] := by
  intro g shape l r stmts _ hstmts _ _
  obtain rfl := Option.some.inj hstmts
  exact Mirrors.pure fun _ _ hm => ⟨rfl, hm.closes⟩

theorem flows_cons_mirrored {p' : Place} {f : Flow} {fs : List Flow} (hreg : f.Regular p)
    (hvisible : ∀ x, x ∈ p'.scopes.flatten ↔ x ∈ (p.declare f.fresh).scopes.flatten)
    (hhead : ∀ x ∈ p'.scopes.headD [], x ∈ f.fresh ∨ x ∈ p.scopes.headD [])
    (hf : f.Mirrored s n p) (hfs : FlowsMirrored s n p' fs) : FlowsMirrored s n p (f :: fs) := by
  intro g shape l r stmts hr hstmts hl hscope
  obtain ⟨stmt, rest, hstmt, hrest, rfl⟩ := return_eq_some₂.mp hstmts
  simp only [execFlows, renameStmts, execAll]
  refine Mirrors.bind (hf hr hstmt (p.attached_nil f)
    fun _ => ⟨l, shape, rfl, hl, hscope⟩) fun c ctl => ?_
  rintro m mt ⟨hctl, hm⟩
  have hctl : c.control? = some ctl := hctl
  cases c with
  | finish => cases hctl
  | normal =>
      obtain rfl := Option.some.inj hctl
      refine hfs (l := { l with names := f.fresh ++ l.names }) ?_ hrest hl ?_ m mt hm
      · exact (hr.after_flow hreg hscope hstmt).mono fun x hx => (hvisible x).mpr hx
      · intro x hx
        rcases hhead x hx with hfresh | hold
        · exact List.mem_append_left _ hfresh
        · exact List.mem_append_right _ (hscope x hold)
  | _ =>
      obtain rfl := Option.some.inj hctl
      exact ⟨rfl, hm.closes⟩

/-- A case of a switch and its clause. -/
theorem FlowCase.exec_mirrors {c : FlowCase} {b : Bound} (hesc : c.escapes b = false)
    (hbody : FlowsMirrored s n p.inner c.body) {shape : Nesting} {r : Renames}
    (hr : Resolves g shape (p.scopes.visible s.runtime) r) {last : Bool} {clause : Clause}
    (hclause : c.toClause? last = some clause) :
    Mirrors (Linked g (⟨1, [], []⟩ :: shape))
      (fun c ctl m mt => CaseEnd last c ctl ∧ Closes g shape 1 m mt)
      (c.exec s n) ((clause.rename receiverName r).exec s n) := by
  cases c with
  | case values body =>
      obtain ⟨stmts, hstmts, rfl⟩ := return_eq_some.mp hclause
      exact closeCase_mirrors hstmts hesc (hbody.inner hr hstmts) last
  | default body =>
      obtain ⟨stmts, hstmts, rfl⟩ := return_eq_some.mp hclause
      exact closeCase_mirrors hstmts hesc (hbody.inner hr hstmts) last

theorem cases_nil_mirrored : CasesMirrored s n p [] := by
  intro g shape r clauses i _ hclauses
  obtain rfl := Option.some.inj hclauses
  simp only [execCases, renameClauses, execFrom]
  exact Mirrors.pure fun _ _ hm => ⟨rfl, hm⟩

theorem cases_cons_mirrored {c : FlowCase} {cs : List FlowCase} {b : Bound}
    (hesc : c.escapes b = false) (hbody : FlowsMirrored s n p.inner c.body)
    (hcs : CasesMirrored s n p cs) : CasesMirrored s n p (c :: cs) := by
  intro g shape r clauses i hr hclauses
  obtain ⟨clause, rest, hclause, hrest, rfl⟩ := return_eq_some₂.mp hclauses
  cases i with
  | succ i =>
      simp only [execCases, renameClauses, execFrom]
      exact hcs i hr hrest
  | zero =>
      simp only [execCases, renameClauses, execFrom]
      refine Mirrors.bind (FlowCase.exec_mirrors hesc hbody hr hclause).inScope fun e ctl => ?_
      rintro m mt ⟨⟨rfl, rfl⟩ | ⟨rfl, rfl⟩ | ⟨hne, hctl⟩, hm⟩
      · -- the case runs on, into a clause that falls through or into the end
        cases cs with
        | nil =>
            simp only [execCases]
            exact ⟨rfl, hm⟩
        | cons c' cs => exact hcs 0 hr hrest m mt hm
      · exact ⟨rfl, hm⟩
      · cases e with
        | normal => exact absurd rfl hne
        | finish => cases hctl
        | cont l =>
            obtain rfl := Option.some.inj hctl
            exact ⟨rfl, hm⟩
        | brk l =>
            obtain rfl := Option.some.inj hctl
            refine ⟨?_, hm⟩
            by_cases hl : l = "" <;> simp [Ending.leave, Ending.control?, hl]

end Statements

section Recursion

variable {n}

mutual

/-- A statement that does not leave itself and its renamed tree, with a label or with none, do
the same. -/
theorem Flow.mirrored {p : Place} {b : Bound} (hs : s.recv = receiverName)
    (hruntime : s.runtime ≠ iteratorName) (flow : Flow) (hreg : flow.Regular p)
    (hplain : flow.Plain s.runtime p.scopes) (hesc : flow.escapes b = false) :
    flow.Mirrored s n p := by
  cases flow with
  | missing => exact hreg.elim
  | lift d => exact hreg.elim
  | yield value => cases hesc
  | finish => cases hesc
  | block body => exact block_mirrored (flows_mirrored hs hruntime body hreg hplain hesc)
  | declare d => exact declare_mirrored hs hreg hplain
  | brk l => exact brk_mirrored l
  | cont l => exact cont_mirrored l
  | simple stmt => exact simple_mirrored hs hreg hplain
  | ite cond body other =>
      simp only [Flow.escapes, Bool.or_eq_false_iff] at hesc
      exact ite_mirrored hs hplain.1 hreg.2
        (flows_mirrored hs hruntime body hreg.1 hplain.2.1 hesc.1)
        fun hm => other.mirrored hs hruntime (hreg.2 hm) hplain.2.2 hesc.2
  | «while» cond body =>
      exact while_mirrored hs hplain.1 hreg (flows_mirrored hs hruntime body hreg hplain.2 hesc)
  | doWhile body cond =>
      exact doWhile_mirrored hs hplain.1 hreg (flows_mirrored hs hruntime body hreg hplain.2 hesc)
  | loop init cond post body =>
      have hbody := flows_mirrored hs hruntime body hreg.2.2 hplain.2.2.2 hesc
      exact loop_mirrored hs hreg hplain (fun hm => init.mirrored hs hruntime (hreg.1.regular hm)
        (hplain.1.plain (p := p.inner) hreg.1) (hreg.1.escapes b)) hbody
  | walk header body =>
      exact walk_mirrored hs hruntime hreg hplain
        (flows_mirrored hs hruntime body hreg.2 hplain.2 hesc)
  | switch tag cases =>
      exact switch_mirrored hs hplain.1 hplain.2
        (cases_mirrored hs hruntime cases hreg hplain.2 hesc)
  | labeled l inner =>
      exact labeled_mirrored hreg.1 hreg.2.1
        (inner.mirrored hs hruntime hreg.2.2 hplain hesc)

theorem flows_mirrored {p : Place} {b : Bound} (hs : s.recv = receiverName)
    (hruntime : s.runtime ≠ iteratorName) (fs : List Flow) (hreg : flowsRegular p fs)
    (hplain : flowsPlain s.runtime p.scopes fs) (hesc : anyEscapes b fs = false) :
    FlowsMirrored s n p fs := by
  cases fs with
  | nil => exact flows_nil_mirrored
  | cons f fs =>
      simp only [anyEscapes, Bool.or_eq_false_iff] at hesc
      obtain ⟨p', hf, hpf, hfs, hpfs, hvisible, hhead⟩ := flows_cons hreg hplain
      exact flows_cons_mirrored hf hvisible hhead (f.mirrored hs hruntime hf hpf hesc.1)
        (flows_mirrored hs hruntime fs hfs hpfs hesc.2)

theorem cases_mirrored {p : Place} {b : Bound} (hs : s.recv = receiverName)
    (hruntime : s.runtime ≠ iteratorName) (cs : List FlowCase) (hreg : casesRegular p cs)
    (hplain : casesPlain s.runtime p.scopes cs) (hesc : anyCaseEscapes b cs = false) :
    CasesMirrored s n p cs := by
  cases cs with
  | nil => exact cases_nil_mirrored
  | cons c cs =>
      simp only [anyCaseEscapes, Bool.or_eq_false_iff] at hesc
      exact cases_cons_mirrored hesc.1
        (c.body_mirrored hs hruntime hreg.1 hplain.1 hesc.1)
        (cases_mirrored hs hruntime cs hreg.2 hplain.2 hesc.2)

theorem FlowCase.body_mirrored {p : Place} {b : Bound} (hs : s.recv = receiverName)
    (hruntime : s.runtime ≠ iteratorName) (c : FlowCase) (hreg : c.Regular p)
    (hplain : c.Plain s.runtime p.scopes) (hesc : c.escapes b = false) :
    FlowsMirrored s n p.inner c.body := by
  cases c with
  | case values body => exact flows_mirrored hs hruntime body hreg hplain.2 hesc
  | default body => exact flows_mirrored hs hruntime body hreg hplain hesc

end

/-- A statement that does not leave itself and its renamed tree do the same, wherever there is a
scope for what it declares. -/
theorem Flow.exec_mirrors {p : Place} {b : Bound} {shape : Nesting} {r : Renames}
    (hr : Resolves g shape (p.scopes.visible s.runtime) r) (hs : s.recv = receiverName)
    (hruntime : s.runtime ≠ iteratorName) (flow : Flow) (hreg : flow.Regular p)
    (hplain : flow.Plain s.runtime p.scopes) (hesc : flow.escapes b = false) {stmt : Stmt}
    (hstmt : flow.toStmt? = some stmt) (hroom : flow.isDeclare = true → p.Room shape) :
    Mirrors (Linked g shape)
      (fun c ctl m mt => c.control? = some ctl ∧ Linked g (shape.bind flow.fresh) m mt)
      (flow.exec s n []) ((stmt.rename receiverName r).1.exec s n) :=
  flow.mirrored hs hruntime hreg hplain hesc hr hstmt (p.attached_nil flow) hroom

end Recursion

end YieldMachine
