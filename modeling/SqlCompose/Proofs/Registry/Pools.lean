import SqlCompose.Proofs.Pool.Induction
import SqlCompose.Registry.Run

/-!
# The pools of a registry

A pool that was made keeps its number, its engine, its URL and its time limit for good,
and what becomes of it is what those do with it who act on it.  So the pool behind a
number is in a run of its own, whatever else is asked of the registry: `pool?_run` says
it about a pool that there is, and `reached_run` about every pool from its making on.

`PoolConfig.rejection?` is the reason why a configuration is rejected and
`SharedPool.MadeFrom` is what a pool takes from one that is not.  `create_cases` and
`init_cases` are what making a pool comes to.
-/

namespace SqlCompose

namespace Pool

theorem run_append (s : Server) (p : Pool) (earlier later : List Action) :
    p.run s (earlier ++ later) = (p.run s earlier).run s later := by
  induction earlier generalizing p with
  | nil => rfl
  | cons action rest ih => exact ih _

end Pool

/-! ## Configurations -/

/-- Why no pool is made from a configuration: because of its engine, or else because of its
URL. -/
def PoolConfig.rejection? (urls : UrlReader) (config : PoolConfig) : Option Error :=
  let engine := config.engine.trim.lower
  if engine = "postgres" ∨ engine = "postgresql" ∨ engine = "pg" then
    (urls.rejection? config.url).map .connection
  else some (.unsupportedEngine config.engine)

/-- A pool as it is made from a configuration: open, with every slot free, and not connected to
anything. -/
structure SharedPool.MadeFrom (config : PoolConfig) (shared : SharedPool) : Prop where
  engine : shared.engine = .postgres
  url : shared.url = config.url
  waitTimeoutMs : shared.waitTimeoutMs = config.waitTimeoutMs
  capacity : shared.pool.capacity = config.maxSize
  freeSlots : shared.pool.freeSlots = config.maxSize
  closed : shared.pool.closed = false
  size : shared.pool.size = 0
  idle : shared.pool.idle = []
  broken : shared.pool.broken = []
  attempts : shared.pool.attempts = 0
  handles : shared.pool.handles = 0
  held : shared.pool.held = []
  log : shared.pool.log = []

/-- The pool that is made from a configuration. -/
def SharedPool.fresh (config : PoolConfig) : SharedPool where
  engine := .postgres
  url := config.url
  waitTimeoutMs := config.waitTimeoutMs
  pool := .ofCapacity config.maxSize

theorem SharedPool.madeFrom_fresh (config : PoolConfig) : MadeFrom config (fresh config) := by
  constructor <;> rfl

/-- The one pool that is made from a configuration, or the reason why there is none. -/
theorem SharedPool.ofConfig_eq (urls : UrlReader) (config : PoolConfig) :
    ofConfig urls config =
      match config.rejection? urls with
      | some e => .error e
      | none => .ok (fresh config) := by
  rw [ofConfig, PoolConfig.rejection?, Engine.ofText]
  generalize config.engine.trim.lower = engine
  by_cases hengine : engine = lit "postgres" ∨ engine = lit "postgresql" ∨ engine = lit "pg"
  · rw [if_pos hengine, if_pos hengine]
    cases urls.rejection? config.url <;> rfl
  · rw [if_neg hengine, if_neg hengine]
    rfl

/-! ## Requests to one pool -/

/-- What a request does with the pool behind a number. -/
def Request.actionOn? (id : PoolId) : Request → Option Action
  | act id' action => if id' = id then some action else none
  | create _ | init _ _ | lookup _ | remove _ => none

/-- What requests do with the pool behind a number, in order. -/
def actionsOn (id : PoolId) (requests : List Request) : List Action :=
  requests.filterMap (Request.actionOn? id)

namespace Registry

variable {urls : UrlReader} {servers : PoolId → Server} {r : Registry} {id : PoolId}
  {shared : SharedPool} {config : PoolConfig} {name : Text}

/-! ## Making pools -/

theorem create_of_accepted (h : config.rejection? urls = none) (r : Registry) :
    r.create urls config =
      (.ok r.pools.length, { r with pools := r.pools ++ [.fresh config] }) := by
  rw [create, SharedPool.ofConfig_eq, h]

theorem create_of_rejected {e : Error} (h : config.rejection? urls = some e) (r : Registry) :
    r.create urls config = (.error e, r) := by
  rw [create, SharedPool.ofConfig_eq, h]

/-- A pool is made, with the next number, or its configuration is rejected. -/
theorem create_cases (urls : UrlReader) (config : PoolConfig) (r : Registry) :
    (∃ e, config.rejection? urls = some e ∧ r.create urls config = (.error e, r)) ∨
      config.rejection? urls = none ∧ r.create urls config =
        (.ok r.pools.length, { r with pools := r.pools ++ [.fresh config] }) := by
  cases h : config.rejection? urls with
  | some e => exact .inl ⟨e, rfl, create_of_rejected h r⟩
  | none => exact .inr ⟨rfl, create_of_accepted h r⟩

/-- An open pool is given whatever the configuration. -/
theorem init_of_open (hname : r.lookup name = some id) (hopen : r.isOpen id = true)
    (urls : UrlReader) (config : PoolConfig) : r.init urls name config = (.ok id, r) := by
  rw [init, hname, Option.filter_some, if_pos hopen]

/-- Where no pool is open, one is made from a configuration that is not rejected. -/
theorem init_of_accepted (hclosed : ∀ id, r.lookup name = some id → r.isOpen id = false)
    (h : config.rejection? urls = none) :
    r.init urls name config = (.ok r.pools.length,
      enter name r.pools.length { r with pools := r.pools ++ [.fresh config] }) := by
  have hnone : (r.lookup name).filter r.isOpen = none :=
    Option.filter_eq_none_iff.2 fun id hname => by simp [hclosed id hname]
  rw [init, hnone]
  dsimp only
  rw [create_of_accepted h]

/-- Where no pool is open and none can be made, nothing is changed. -/
theorem init_of_rejected {e : Error}
    (hclosed : ∀ id, r.lookup name = some id → r.isOpen id = false)
    (h : config.rejection? urls = some e) : r.init urls name config = (.error e, r) := by
  have hnone : (r.lookup name).filter r.isOpen = none :=
    Option.filter_eq_none_iff.2 fun id hname => by simp [hclosed id hname]
  rw [init, hnone]
  dsimp only
  rw [create_of_rejected h]

/-- Who asks for a pool by name gets the open one, a new one, or the reason why there is none. -/
theorem init_cases (urls : UrlReader) (name : Text) (config : PoolConfig) (r : Registry) :
    (∃ id, r.lookup name = some id ∧ r.isOpen id = true ∧
        r.init urls name config = (.ok id, r)) ∨
      (∀ id, r.lookup name = some id → r.isOpen id = false) ∧
        ((∃ e, config.rejection? urls = some e ∧ r.init urls name config = (.error e, r)) ∨
          config.rejection? urls = none ∧ r.init urls name config =
            (.ok r.pools.length,
              enter name r.pools.length { r with pools := r.pools ++ [.fresh config] })) := by
  by_cases hopen : ∃ id, r.lookup name = some id ∧ r.isOpen id = true
  · obtain ⟨id, hname, hopen⟩ := hopen
    exact .inl ⟨id, hname, hopen, init_of_open hname hopen urls config⟩
  · have hclosed : ∀ id, r.lookup name = some id → r.isOpen id = false :=
      fun id hname => Bool.eq_false_iff.2 fun h => hopen ⟨id, hname, h⟩
    refine .inr ⟨hclosed, ?_⟩
    cases h : config.rejection? urls with
    | some e => exact .inl ⟨e, rfl, init_of_rejected hclosed h⟩
    | none => exact .inr ⟨rfl, init_of_accepted hclosed h⟩

theorem pool?_append_self (r : Registry) (shared : SharedPool) :
    ({ r with pools := r.pools ++ [shared] } : Registry).pool? r.pools.length = some shared :=
  List.getElem?_concat_length

theorem pool?_append (made : SharedPool) (h : r.pool? id = some shared) :
    ({ r with pools := r.pools ++ [made] } : Registry).pool? id = some shared := by
  obtain ⟨hlt, -⟩ := List.getElem?_eq_some_iff.1 h
  exact (List.getElem?_append_left hlt).trans h

/-- The next number is that of no pool. -/
theorem pool?_length (r : Registry) : r.pool? r.pools.length = none :=
  List.getElem?_eq_none (Nat.le_refl _)

/-! ## One request -/

/-- What happens to a pool: what is done with it. -/
theorem pool?_act (s : Server) (action : Action) (id' : PoolId) (h : r.pool? id = some shared) :
    (r.act s id' action).2.pool? id =
      some { shared with
        pool := if id' = id then (shared.pool.act s action).2 else shared.pool } := by
  rw [Registry.act]
  by_cases heq : id' = id
  · subst heq
    rw [h, if_pos rfl]
    obtain ⟨hlt, -⟩ := List.getElem?_eq_some_iff.1 h
    exact List.getElem?_set_self hlt
  · rw [if_neg heq]
    cases hother : r.pool? id' with
    | none => exact h
    | some other => exact (List.getElem?_set_ne heq).trans h

theorem pool?_step (urls : UrlReader) (servers : PoolId → Server) (request : Request)
    (h : r.pool? id = some shared) :
    (r.step urls servers request).2.pool? id =
      some { shared with pool := shared.pool.run (servers id) (request.actionOn? id).toList } := by
  cases request with
  | create config =>
    rcases create_cases urls config r with ⟨e, -, hcreate⟩ | ⟨-, hcreate⟩
    · rw [step, hcreate]
      exact h
    · rw [step, hcreate]
      exact pool?_append _ h
  | init name config =>
    rcases init_cases urls name config r with
      ⟨id', -, -, hinit⟩ | ⟨-, ⟨e, -, hinit⟩ | ⟨-, hinit⟩⟩
    · rw [step, hinit]
      exact h
    · rw [step, hinit]
      exact h
    · rw [step, hinit]
      exact pool?_append _ h
  | lookup name => exact h
  | remove name => exact h
  | act id' action =>
    rw [step, Request.actionOn?]
    refine (pool?_act (servers id') action id' h).trans ?_
    by_cases heq : id' = id
    · subst heq
      rw [if_pos rfl, if_pos rfl]
      rfl
    · rw [if_neg heq, if_neg heq]
      rfl

/-- A pool that there was not is one that was made just now. -/
theorem fresh_of_pool?_step {request : Request} (hnone : r.pool? id = none)
    (h : (r.step urls servers request).2.pool? id = some shared) :
    ∃ config, shared = .fresh config := by
  have hmade : ∀ {made : SharedPool},
      ({ r with pools := r.pools ++ [made] } : Registry).pool? id = some shared →
        shared = made := by
    intro made hpool
    have hle : r.pools.length ≤ id := List.getElem?_eq_none_iff.1 hnone
    have hlast : [made][id - r.pools.length]? = some shared :=
      (List.getElem?_append_right hle).symm.trans hpool
    exact List.mem_singleton.1 (List.mem_of_getElem? hlast)
  have hold : ∀ {q : Registry}, q.pools = r.pools → q.pool? id ≠ some shared := by
    intro q hq hpool
    rw [pool?, hq] at hpool
    exact absurd (hnone.symm.trans hpool) (by simp)
  cases request with
  | create config =>
    rcases create_cases urls config r with ⟨e, -, hcreate⟩ | ⟨-, hcreate⟩
    · rw [step, hcreate] at h
      exact absurd h (hold rfl)
    · rw [step, hcreate] at h
      exact ⟨config, hmade h⟩
  | init name config =>
    rcases init_cases urls name config r with
      ⟨id', -, -, hinit⟩ | ⟨-, ⟨e, -, hinit⟩ | ⟨-, hinit⟩⟩
    · rw [step, hinit] at h
      exact absurd h (hold rfl)
    · rw [step, hinit] at h
      exact absurd h (hold rfl)
    · rw [step, hinit] at h
      exact ⟨config, hmade h⟩
  | lookup name => exact absurd h (hold rfl)
  | remove name => exact absurd h (hold rfl)
  | act id' action =>
    rw [step, Registry.act] at h
    cases hother : r.pool? id' with
    | none =>
      rw [hother] at h
      exact absurd h (hold rfl)
    | some other =>
      rw [hother] at h
      have hlength : r.pools.length ≤ id := List.getElem?_eq_none_iff.1 hnone
      have hsome : (r.pools.set id' _)[id]? = some shared := h
      rw [List.getElem?_eq_none (by rwa [List.length_set])] at hsome
      cases hsome

/-! ## Runs -/

theorem run_append (urls : UrlReader) (servers : PoolId → Server) (r : Registry)
    (earlier later : List Request) :
    r.run urls servers (earlier ++ later) =
      (r.run urls servers earlier).run urls servers later := by
  induction earlier generalizing r with
  | nil => rfl
  | cons request rest ih => exact ih _

/-- What becomes of a pool is what is done with it. -/
theorem pool?_run (urls : UrlReader) (servers : PoolId → Server) (requests : List Request)
    (h : r.pool? id = some shared) :
    (r.run urls servers requests).pool? id =
      some { shared with pool := shared.pool.run (servers id) (actionsOn id requests) } := by
  induction requests generalizing r shared with
  | nil => exact h
  | cons request rest ih =>
    refine (ih (pool?_step urls servers request h)).trans ?_
    dsimp only
    rw [← Pool.run_append]
    cases haction : request.actionOn? id with
    | none => rw [actionsOn, actionsOn, List.filterMap_cons_none haction]; rfl
    | some action => rw [actionsOn, actionsOn, List.filterMap_cons_some haction]; rfl

/-- Every pool is in a run of its own. -/
def Reached (servers : PoolId → Server) (r : Registry) : Prop :=
  ∀ id shared, r.pool? id = some shared →
    ∃ n actions, shared.pool = (Pool.ofCapacity n).run (servers id) actions

theorem Reached.step (hr : Reached servers r) (request : Request) :
    Reached servers (r.step urls servers request).2 := by
  intro id shared h
  cases hbefore : r.pool? id with
  | none =>
    obtain ⟨config, rfl⟩ := fresh_of_pool?_step hbefore h
    exact ⟨config.maxSize, [], rfl⟩
  | some earlier =>
    obtain ⟨n, actions, hpool⟩ := hr id earlier hbefore
    rw [pool?_step urls servers request hbefore] at h
    obtain rfl := Option.some.inj h
    exact ⟨n, actions ++ _, by rw [Pool.run_append, ← hpool]⟩

theorem reached_run (urls : UrlReader) (servers : PoolId → Server) (requests : List Request) :
    Reached servers (run urls servers {} requests) := by
  have hrun : ∀ {r : Registry}, Reached servers r →
      Reached servers (r.run urls servers requests) := by
    induction requests with
    | nil => exact id
    | cons request rest ih => exact fun hr => ih (hr.step request)
  refine hrun ?_
  intro id shared h
  cases h

end Registry

end SqlCompose
