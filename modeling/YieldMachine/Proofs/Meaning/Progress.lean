/-!
# Progress of computations over a store

A domain names what the programs of a language compute with: values, the places where
variables are kept, and a store with whatever they share.  `Progress` says what a computation
over such a store does until it ends, for generators: it hands over values, and each time waits
for the store with which it is resumed.
-/

namespace YieldMachine

/-- What the programs of a language compute with. -/
structure Domain where
  Value : Type
  /-- where a variable is kept -/
  Place : Type
  Store : Type
  Fault : Type
  /-- how far a walk over the elements of a value has come -/
  Walk : Type

/-- Why a computation stops before its end. -/
inductive Stop (φ : Type) where
  /-- the bound on the number of turns is used up -/
  | unfinished
  /-- the language gives a statement no meaning -/
  | meaningless
  | fault (e : φ)
  deriving DecidableEq, Repr

/-- Computations over the store of a domain that hand over nothing. -/
abbrev Domain.Eff (D : Domain) (α : Type) : Type := EStateM (Stop D.Fault) D.Store α

/-- The variables in scope with their places, the innermost first. -/
abbrev Domain.Names (D : Domain) : Type := List (String × D.Place)

/-- How a computation goes on: it ends with a result, stops, or hands over a value and is
resumed with a store. -/
inductive Progress (D : Domain) (α : Type) where
  | done (a : α) (s : D.Store)
  | halted (e : Stop D.Fault) (s : D.Store)
  | handed (value : D.Value) (s : D.Store) (resume : D.Store → Progress D α)

namespace Progress

variable {D : Domain} {α β : Type}

/-- Goes on with `f` where a computation ends. -/
def bind : Progress D α → (α → D.Store → Progress D β) → Progress D β
  | .done a s, f => f a s
  | .halted e s, _ => .halted e s
  | .handed value s resume, f => .handed value s fun u => (resume u).bind f

/-- The progress of a computation that hands over nothing. -/
def ofResult : EStateM.Result (Stop D.Fault) D.Store α → Progress D α
  | .ok a s => .done a s
  | .error e s => .halted e s

end Progress

/-- Computations over the store of a domain that may hand over values. -/
def Domain.Action (D : Domain) (α : Type) : Type := D.Store → Progress D α

namespace Domain.Action

variable {D : Domain} {α β γ : Type}

instance : Monad D.Action where
  pure a := fun s => .done a s
  bind x f := fun s => (x s).bind f

instance : MonadLift D.Eff D.Action := ⟨fun x s => .ofResult (x s)⟩

/-- Stops. -/
def halt (e : Stop D.Fault) : D.Action α := fun s => .halted e s

/-- Hands over a value. -/
def hand (value : D.Value) : D.Action Unit := fun s => .handed value s fun u => .done () u

/-- Runs a computation that ends in some way with other variables in scope, and forgets these
variables. -/
def within {ε : Type} (names : D.Names) (x : D.Action (ε × D.Names)) : D.Action (ε × D.Names) := do
  let (e, _) ← x
  return (e, names)

theorem bind_pure (x : D.Action α) : (x >>= Pure.pure) = x := by
  funext s
  show (x s).bind (fun a t => .done a t) = x s
  induction x s with
  | done a t => rfl
  | halted e t => rfl
  | handed value t resume ih =>
      simp only [Progress.bind, ih]

theorem bind_assoc (x : D.Action α) (f : α → D.Action β) (g : β → D.Action γ) :
    (x >>= f) >>= g = x >>= fun a => f a >>= g := by
  funext s
  show ((x s).bind f).bind g = (x s).bind fun a t => (f a t).bind g
  induction x s with
  | done a t => rfl
  | halted e t => rfl
  | handed value t resume ih =>
      simp only [Progress.bind, ih]

theorem lift_bind (x : D.Eff α) (f : α → D.Eff β) :
    (liftM (x >>= f) : D.Action β) = liftM x >>= fun a => liftM (f a) := by
  funext s
  show Progress.ofResult (EStateM.bind x f s) =
    (Progress.ofResult (x s)).bind fun a t => .ofResult (f a t)
  unfold EStateM.bind
  cases x s <;> rfl

end Domain.Action

/-- What a consumer sees of a generator: an element, the end, or a stop, each with the store at
that moment. -/
inductive Observed (D : Domain) where
  | element (value : D.Value) (s : D.Store)
  | finished (s : D.Store)
  | stopped (e : Stop D.Fault) (s : D.Store)

/-- The value of an element. -/
def Observed.value? {D : Domain} : Observed D → Option D.Value
  | .element value _ => some value
  | _ => none

/-- What a consumer sees that changes the store before each resumption as the list says, and
leaves after the last one.  It sees nothing when the bound on the number of turns is used up. -/
def Progress.events {D : Domain} {α : Type} :
    Progress D α → List (D.Store → D.Store) → Option (List (Observed D))
  | .done _ s, _ => some [.finished s]
  | .halted .unfinished _, _ => none
  | .halted e s, _ => some [.stopped e s]
  | .handed value s _, [] => some [.element value s]
  | .handed value s resume, change :: changes =>
    ((resume (change s)).events changes).map (.element value s :: ·)

/-- Takes the turns of a loop, at most as many as the bound says.  `next?` says of the way in
which a body ended whether the loop ends there as well, and how. -/
def Domain.turns {D : Domain} {ε σ : Type} (result : ε) (next? : ε → Option ε)
    (test : σ → D.Eff Bool) (body : σ → D.Action (ε × σ)) (post : σ → D.Action σ) :
    Nat → σ → D.Action ε
  | 0, _ => .halt .unfinished
  | bound + 1, state => do
    if ← test state then
      let (e, state) ← body state
      match next? e with
      | some e => pure e
      | none => Domain.turns result next? test body post bound (← post state)
    else pure result

/-- Whether two computations make the same progress, up to a relation of their results. -/
inductive Progress.Alike {D : Domain} {α β : Type} (R : α → β → Prop) :
    Progress D α → Progress D β → Prop where
  | done {a : α} {b : β} (h : R a b) (s : D.Store) : Alike R (.done a s) (.done b s)
  | halted (e : Stop D.Fault) (s : D.Store) : Alike R (.halted e s) (.halted e s)
  | handed (value : D.Value) (s : D.Store) {f : D.Store → Progress D α}
      {g : D.Store → Progress D β} (h : ∀ u, Alike R (f u) (g u)) :
      Alike R (.handed value s f) (.handed value s g)

namespace Progress.Alike

variable {D : Domain} {α β γ δ : Type} {R : α → β → Prop} {S : γ → δ → Prop}
  {p : Progress D α} {q : Progress D β}

theorem bind (h : p.Alike R q) {f : α → D.Store → Progress D γ} {g : β → D.Store → Progress D δ}
    (hfg : ∀ a b, R a b → ∀ s, (f a s).Alike S (g b s)) : (p.bind f).Alike S (q.bind g) := by
  induction h with
  | done h s => exact hfg _ _ h s
  | halted e s => exact .halted e s
  | handed value s h ih => exact .handed value s ih

theorem mono (h : p.Alike R q) {R' : α → β → Prop} (hR : ∀ a b, R a b → R' a b) :
    p.Alike R' q := by
  induction h with
  | done h s => exact .done (hR _ _ h) s
  | halted e s => exact .halted e s
  | handed value s h ih => exact .handed value s ih

theorem events_eq (h : p.Alike R q) (changes : List (D.Store → D.Store)) :
    p.events changes = q.events changes := by
  induction h generalizing changes with
  | done h s => rfl
  | halted e s => cases e <;> rfl
  | handed value s h ih =>
      cases changes with
      | nil => rfl
      | cons change changes => simp only [Progress.events, ih]

theorem refl (p : Progress D α) : p.Alike Eq p := by
  induction p with
  | done a s => exact .done rfl s
  | halted e s => exact .halted e s
  | handed value s resume ih => exact .handed value s ih

theorem eq_of_eq {p q : Progress D α} (h : p.Alike Eq q) : p = q := by
  induction h with
  | done h s => rw [h]
  | halted e s => rfl
  | handed value s h ih => rw [funext ih]

end Progress.Alike

/-- Whether two computations make the same progress on every store. -/
def Domain.Alike {D : Domain} {α β : Type} (R : α → β → Prop) (x : D.Action α)
    (y : D.Action β) : Prop := ∀ s, (x s).Alike R (y s)

namespace Domain.Alike

variable {D : Domain} {α β γ δ ε ε' σ σ' : Type} {R : α → β → Prop} {S : γ → δ → Prop}
  {x : D.Action α} {y : D.Action β}

theorem pure {a : α} {b : β} (h : R a b) : Domain.Alike (D := D) R (Pure.pure a) (Pure.pure b) :=
  fun s => .done h s

theorem halt (e : Stop D.Fault) : Domain.Alike R (.halt e) (.halt e) := fun s => .halted e s

theorem mono (h : Domain.Alike R x y) {R' : α → β → Prop} (hR : ∀ a b, R a b → R' a b) :
    Domain.Alike R' x y :=
  fun s => (h s).mono hR

theorem bind (h : Domain.Alike R x y) {f : α → D.Action γ} {g : β → D.Action δ}
    (hfg : ∀ a b, R a b → Domain.Alike S (f a) (g b)) : Domain.Alike S (x >>= f) (y >>= g) :=
  fun s => (h s).bind fun a b hab t => hfg a b hab t

/-- The same first step on both sides. -/
theorem first (x : D.Eff α) {f : α → D.Action γ} {g : α → D.Action δ}
    (hfg : ∀ a, Domain.Alike S (f a) (g a)) :
    Domain.Alike S (liftM x >>= f) (liftM x >>= g) := by
  intro s
  show (Progress.bind (.ofResult (x s)) f).Alike S (Progress.bind (.ofResult (x s)) g)
  cases x s with
  | ok a t => exact hfg a t
  | error e t => exact .halted e t

theorem refl (x : D.Action α) : Domain.Alike Eq x x := fun s => .refl (x s)

theorem hand (value : D.Value) : Domain.Alike Eq (.hand value : D.Action Unit) (.hand value) :=
  fun s => .handed value s fun u => .done rfl u

/-- Loops make the same progress if their states are related, their tests agree, and so do their
bodies where the tests hold. -/
theorem turns {Q : ε → ε' → Prop} {T : σ → σ' → Prop} {result : ε} {result' : ε'}
    {next? : ε → Option ε} {next?' : ε' → Option ε'} (hresult : Q result result')
    (hnext : ∀ e e', Q e e' → (next? e = none ∧ next?' e' = none) ∨
      ∃ c c', next? e = some c ∧ next?' e' = some c' ∧ Q c c')
    {test : σ → D.Eff Bool} {test' : σ' → D.Eff Bool} (htest : ∀ a b, T a b → test a = test' b)
    {body : σ → D.Action (ε × σ)} {body' : σ' → D.Action (ε' × σ')}
    (hbody : ∀ a b, T a b → ∀ s t, test a s = .ok true t →
      (body a t).Alike (fun r r' => Q r.1 r'.1 ∧ T r.2 r'.2) (body' b t))
    {post : σ → D.Action σ} {post' : σ' → D.Action σ'}
    (hpost : ∀ a b, T a b → Domain.Alike T (post a) (post' b)) (bound : Nat) {a : σ} {b : σ'}
    (hab : T a b) :
    Domain.Alike Q (D.turns result next? test body post bound a)
      (D.turns result' next?' test' body' post' bound b) := by
  induction bound generalizing a b with
  | zero => exact halt _
  | succ bound ih =>
      intro s
      simp only [Domain.turns, ← htest a b hab]
      show (Progress.bind (.ofResult (test a s)) _).Alike Q (Progress.bind (.ofResult (test a s)) _)
      cases hs : test a s with
      | error e t => exact .halted e t
      | ok again t =>
          cases again with
          | false => exact .done hresult t
          | true =>
              refine (hbody a b hab s t hs).bind fun r r' hr u => ?_
              obtain ⟨e, state⟩ := r
              obtain ⟨e', state'⟩ := r'
              obtain ⟨hend, hstate⟩ := hr
              obtain ⟨hc, hc'⟩ | ⟨c, c', hc, hc', hresult⟩ := hnext e e' hend
              · simp only [hc, hc']
                exact (hpost state state' hstate u).bind fun _ _ h u => ih h u
              · simp only [hc, hc']
                exact .done hresult u

end Domain.Alike

end YieldMachine
