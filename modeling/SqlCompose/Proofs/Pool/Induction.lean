import SqlCompose.Pool.Run

/-!
# Induction over runs

Every action of a run is put together from six operations of the pool.  A
property that each of them preserves (`Pool.Preserved`) holds at the end of a
run if it holds at its beginning (`Preserved.run`).  `PreservedBy` is the same
for operations that name certain handles only, so that it can be said what
everybody but the holder of a handle leaves alone.  The lemmas on the way are
about a call, a body, a call inside a transaction of a client, a transaction
around a body, and one action.

Two operations can leave a transaction behind that was not ended: it is
dropped, or its last statement fails.  `Abandons` and `Abandoned` say that an
action or a run does so, and a property may hold only as long as it is told of
all of them.
-/

namespace SqlCompose

namespace Pool

/-- The statements that end a transaction. -/
def IsEnding (sql : Text) : Prop := sql = "COMMIT" ∨ sql = "ROLLBACK"

/-- An action that gives up the transaction of a handle on a connection without ending it:
the transaction is dropped, or it cannot be committed or rolled back. -/
inductive Abandons (s : Server) (p : Pool) (h : Handle) (c : Connection) : Action → Prop
  | drop (hh : p.holding? h = some (.transaction c)) : Abandons s p h c (.drop h)
  | commit {e : Error} (hh : p.holding? h = some (.transaction c))
      (he : (p.commit s h).1 = .error e) : Abandons s p h c (.commit h)
  | rollback {e : Error} (hh : p.holding? h = some (.transaction c))
      (he : (p.rollback s h).1 = .error e) : Abandons s p h c (.rollback h)
  | transaction_commit {calls : List Call} {answers : List Answer} {p₁ p₂ : Pool} {e : Error}
      (hbegin : p.begin s = (.ok h, p₁))
      (hbody : (Body.ofCalls calls).run s h p₁ = (.ok answers, p₂))
      (hh : p₂.holding? h = some (.transaction c)) (he : (p₂.commit s h).1 = .error e) :
      Abandons s p h c (.transaction calls)
  | transaction_rollback {calls : List Call} {p₁ p₂ : Pool} {e e' : Error}
      (hbegin : p.begin s = (.ok h, p₁))
      (hbody : (Body.ofCalls calls).run s h p₁ = (.error e', p₂))
      (hh : p₂.holding? h = some (.transaction c)) (he : (p₂.rollback s h).1 = .error e) :
      Abandons s p h c (.transaction calls)

/-- A run in which some action gives up the transaction of a handle on a connection. -/
inductive Abandoned (s : Server) (h : Handle) (c : Connection) : Pool → List Action → Prop
  | now {p : Pool} {action : Action} {rest : List Action} (ha : Abandons s p h c action) :
      Abandoned s h c p (action :: rest)
  | later {p : Pool} {action : Action} {rest : List Action}
      (ha : Abandoned s h c (p.act s action).2 rest) : Abandoned s h c p (action :: rest)

/-! ## Transactions around a body -/

variable {s : Server} {p p₁ p₂ : Pool} {h : Handle}

theorem transaction_of_ok {α : Type} {body : Body α} {value : α}
    (hbegin : p.begin s = (.ok h, p₁)) (hbody : body.run s h p₁ = (.ok value, p₂)) :
    (p.transaction s body).2 = (p₂.commit s h).2 := by
  rw [transaction, hbegin]
  dsimp only
  rw [hbody]
  dsimp only
  rcases p₂.commit s h with ⟨e | done, p₃⟩ <;> rfl

theorem transaction_of_error {α : Type} {body : Body α} {e : Error}
    (hbegin : p.begin s = (.ok h, p₁)) (hbody : body.run s h p₁ = (.error e, p₂)) :
    (p.transaction s body).2 = (p₂.rollback s h).2 := by
  rw [transaction, hbegin]
  dsimp only
  rw [hbody]
  dsimp only
  rcases p₂.rollback s h with ⟨e' | done, p₃⟩ <;> rfl

/-! ## Properties that statements preserve -/

section Statements

variable {I : Pool → Prop}

theorem call_of_statement {target : Target}
    (hI : ∀ {p : Pool} (sql : Text), I p → I (p.statement s target sql).2) (call : Call)
    (hp : I p) : I (p.call s target call).2 := by
  rw [Pool.call]
  cases call.plan with
  | error e => exact hp
  | ok plan => exact hI plan.sql hp

variable (hI : ∀ {p : Pool} (sql : Text), I p → I (p.statement s (.handle h) sql).2)

include hI

theorem body_of_statement {α : Type} (body : Body α) (hp : I p) : I (body.run s h p).2 := by
  induction body generalizing p with
  | done result => exact hp
  | statement sql next ih => exact ih _ (hI sql hp)

theorem callInside_of_statement (call : Call) (hp : I p) : I (p.callInside s h call).2 := by
  rw [Pool.callInside]
  have hstart := hI "START TRANSACTION" hp
  generalize p.statement s (.handle h) "START TRANSACTION" = started at hstart ⊢
  obtain ⟨e | set, p₁⟩ := started
  · exact hI "ROLLBACK" hstart
  · have hcall := call_of_statement hI call hstart
    dsimp only
    generalize p₁.call s (.handle h) call = called at hcall ⊢
    obtain ⟨e | answer, p₂⟩ := called
    · exact hI "ROLLBACK" hcall
    · have hcommit := hI "COMMIT" hcall
      dsimp only
      generalize p₂.statement s (.handle h) "COMMIT" = ended at hcommit ⊢
      obtain ⟨e | set', p₃⟩ := ended <;> exact hcommit

end Statements

/-! ## Preserved properties -/

/-- The handle that a target names, if it names one. -/
def Target.handle? : Target → Option Handle
  | pool => none
  | handle h => some h

end Pool

/-- The handle that an action names, if it names one. -/
def Action.handle? : Action → Option Handle
  | commit h | rollback h | drop h | callInside h _ => some h
  | call target _ => target.handle?
  | get | begin | close | transaction _ => none

namespace Pool

/-- A property of pools that the operations on a pool preserve which name certain handles
only, where `known` has the transactions that were given up without being ended. -/
structure PreservedBy (s : Server) (allowed : Handle → Prop) (known : Handle → Connection → Prop)
    (I : Pool → Prop) : Prop where
  /-- What is begun is allowed, too. -/
  fresh : ∀ {p p' : Pool} {h : Handle}, I p → p.begin s = (.ok h, p') → allowed h
  get : ∀ {p : Pool}, I p → I (p.get s).2
  begin : ∀ {p : Pool}, I p → I (p.begin s).2
  finish : ∀ {p : Pool} {sql : Text} {h : Handle}, allowed h → IsEnding sql → I p →
    (∀ c e, p.holding? h = some (.transaction c) → (p.finish s sql h).1 = .error e → known h c) →
    I (p.finish s sql h).2
  drop : ∀ {p : Pool} {h : Handle}, allowed h → I p →
    (∀ c, p.holding? h = some (.transaction c) → known h c) → I (p.drop h)
  close : ∀ {p : Pool}, I p → I p.close
  statement : ∀ {p : Pool} {target : Target} (sql : Text),
    (∀ h, target.handle? = some h → allowed h) → I p → I (p.statement s target sql).2

/-- A property of pools that all operations on a pool preserve. -/
structure Preserved (s : Server) (known : Handle → Connection → Prop) (I : Pool → Prop) :
    Prop where
  get : ∀ {p : Pool}, I p → I (p.get s).2
  begin : ∀ {p : Pool}, I p → I (p.begin s).2
  finish : ∀ {p : Pool} {sql : Text} {h : Handle}, IsEnding sql → I p →
    (∀ c e, p.holding? h = some (.transaction c) → (p.finish s sql h).1 = .error e → known h c) →
    I (p.finish s sql h).2
  drop : ∀ {p : Pool} {h : Handle}, I p →
    (∀ c, p.holding? h = some (.transaction c) → known h c) → I (p.drop h)
  close : ∀ {p : Pool}, I p → I p.close
  statement : ∀ {p : Pool} (target : Target) (sql : Text), I p → I (p.statement s target sql).2

variable {allowed : Handle → Prop} {known : Handle → Connection → Prop} {I : Pool → Prop}

namespace PreservedBy

theorem handle (hI : PreservedBy s allowed known I) (hallowed : allowed h) (sql : Text)
    (hp : I p) : I (p.statement s (.handle h) sql).2 := by
  refine hI.statement sql ?_ hp
  intro k hk
  exact Option.some.inj hk ▸ hallowed

/-- What is left when a body has run in a transaction of its own. -/
theorem ran {α : Type} {body : Body α} {result : Except Error α}
    (hI : PreservedBy s allowed known I) (hp : I p) (hbegin : p.begin s = (.ok h, p₁))
    (hbody : body.run s h p₁ = (result, p₂)) : I p₂ := by
  have hp₁ := hI.begin hp
  rw [hbegin] at hp₁
  have hp₂ := body_of_statement (hI.handle (hI.fresh hp hbegin)) body hp₁
  rwa [hbody] at hp₂

theorem transaction (hI : PreservedBy s allowed known I) (calls : List Call) (hp : I p)
    (hknown : ∀ h c, Abandons s p h c (.transaction calls) → known h c) :
    I (p.transaction s (Body.ofCalls calls)).2 := by
  rcases hbegin : p.begin s with ⟨e | h, p₁⟩
  · have hp₁ := hI.begin hp
    rw [hbegin] at hp₁
    rwa [Pool.transaction, hbegin]
  · have hallowed := hI.fresh hp hbegin
    rcases hbody : (Body.ofCalls calls).run s h p₁ with ⟨e | answers, p₂⟩
    · rw [transaction_of_error hbegin hbody]
      exact hI.finish hallowed (.inr rfl) (hI.ran hp hbegin hbody) fun c e' hh he =>
        hknown h c (.transaction_rollback hbegin hbody hh he)
    · rw [transaction_of_ok hbegin hbody]
      exact hI.finish hallowed (.inl rfl) (hI.ran hp hbegin hbody) fun c e' hh he =>
        hknown h c (.transaction_commit hbegin hbody hh he)

/-- One action preserves what the operations preserve. -/
theorem act (hI : PreservedBy s allowed known I) {action : Action}
    (hallowed : ∀ h, action.handle? = some h → allowed h) (hp : I p)
    (hknown : ∀ h c, Abandons s p h c action → known h c) : I (p.act s action).2 := by
  cases action with
  | get => exact hI.get hp
  | begin => exact hI.begin hp
  | commit h =>
    exact hI.finish (hallowed h rfl) (.inl rfl) hp fun c e hh he => hknown h c (.commit hh he)
  | rollback h =>
    exact hI.finish (hallowed h rfl) (.inr rfl) hp fun c e hh he => hknown h c (.rollback hh he)
  | drop h => exact hI.drop (hallowed h rfl) hp fun c hh => hknown h c (.drop hh)
  | close => exact hI.close hp
  | call target call => exact call_of_statement (fun sql => hI.statement sql hallowed) call hp
  | callInside h call => exact callInside_of_statement (hI.handle (hallowed h rfl)) call hp
  | transaction calls => exact hI.transaction calls hp hknown

end PreservedBy

namespace Preserved

theorem toPreservedBy (hI : Preserved s known I) : PreservedBy s (fun _ => True) known I where
  fresh _ _ := trivial
  get := hI.get
  begin := hI.begin
  finish _ := hI.finish
  drop _ := hI.drop
  close := hI.close
  statement sql _ := hI.statement _ sql

/-- What is left when a body has run in a transaction of its own. -/
theorem ran {α : Type} {body : Body α} {result : Except Error α} (hI : Preserved s known I)
    (hp : I p) (hbegin : p.begin s = (.ok h, p₁)) (hbody : body.run s h p₁ = (result, p₂)) :
    I p₂ :=
  hI.toPreservedBy.ran hp hbegin hbody

/-- One action preserves what the operations preserve. -/
theorem act (hI : Preserved s known I) {action : Action} (hp : I p)
    (hknown : ∀ h c, Abandons s p h c action → known h c) : I (p.act s action).2 :=
  hI.toPreservedBy.act (fun _ _ => trivial) hp hknown

/-- What the operations preserve holds at the end of a run. -/
theorem run (hI : Preserved s known I) {actions : List Action} (hp : I p)
    (hknown : ∀ h c, Abandoned s h c p actions → known h c) : I (p.run s actions) := by
  induction actions generalizing p with
  | nil => exact hp
  | cons action rest ih =>
    have hnext := hI.act hp fun h c ha => hknown h c (.now ha)
    exact ih hnext fun h c ha => hknown h c (.later ha)

end Preserved

end Pool

end SqlCompose
