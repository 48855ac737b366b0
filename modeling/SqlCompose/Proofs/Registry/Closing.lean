import SqlCompose.Proofs.Pool.Closing
import SqlCompose.Proofs.Registry.Pools

/-!
# Shared pools that were closed

All who have a pool have the same one, however they came by it, so who closes it
closes it for all.  `Final` is what there is to know about a pool of a registry that
was closed once: `Pool.Shut` for what is left of it, and what the registry says to
those who go on asking.  `run_final` says this about every run.
-/

namespace SqlCompose

namespace Registry

variable {urls : UrlReader} {servers : PoolId → Server} {r : Registry} {id : PoolId}
  {shared : SharedPool} {action : Action} {outcome : Outcome}

/-- What users may count on who share a pool that was closed when it was `shared`, after
these requests. -/
structure Final (urls : UrlReader) (servers : PoolId → Server) (id : PoolId)
    (shared : SharedPool) (after : List Request) (r : Registry) : Prop where
  /-- The pool is there and shut, and those who hold a handle keep it until they give it back. -/
  pool : ∃ p, r.pool? id = some { shared with pool := p } ∧
    Pool.Shut (servers id) shared.pool p ∧
    ∀ h holding, shared.pool.holding? h = some holding →
      (∀ action ∈ actionsOn id after, ¬Pool.GivesBack h action) → p.holding? h = some holding
  closed : r.isOpen id = false
  get : r.step urls servers (.act id .get) = (.acted (some (.failed .poolClosed)), r)
  begin : r.step urls servers (.act id .begin) = (.acted (some (.failed .poolClosed)), r)
  transaction : ∀ calls, r.step urls servers (.act id (.transaction calls)) =
    (.acted (some (.failed .poolClosed)), r)
  call : ∀ call plan, call.plan = .ok plan →
    r.step urls servers (.act id (.call .pool call)) = (.acted (some (.failed .poolClosed)), r)
  uncompiled : ∀ call cause reading, call.Builds (.error cause) reading →
    r.step urls servers (.act id (.call .pool call)) = (.acted (some (.failed (.table cause))), r)
  /-- Nobody gets the pool any more who asks for an open one. -/
  replaced : ∀ name config, (r.init urls name config).1 ≠ .ok id

/-- Where nothing happens to a pool, nothing happens to the registry. -/
theorem step_act_of_unchanged (h : r.pool? id = some shared)
    (hact : shared.pool.act (servers id) action = (outcome, shared.pool)) :
    r.step urls servers (.act id action) = (.acted (some outcome), r) := by
  have hset : r.pools.set id shared = r.pools := by
    obtain ⟨hlt, hget⟩ := List.getElem?_eq_some_iff.1 h
    rw [← hget, List.set_getElem_self]
  rw [step, act, h]
  dsimp only
  rw [hact]
  dsimp only
  rw [hset]

theorem init_ne_of_closed (h : r.pool? id = some shared) (hclosed : r.isOpen id = false)
    (urls : UrlReader) (name : Text) (config : PoolConfig) :
    (r.init urls name config).1 ≠ .ok id := by
  intro hgiven
  rcases init_cases urls name config r with
    ⟨id', -, hopen, hinit⟩ | ⟨-, ⟨e, -, hinit⟩ | ⟨-, hinit⟩⟩
  · rw [hinit] at hgiven
    obtain rfl := Except.ok.inj hgiven
    exact absurd hopen (by rw [hclosed]; simp)
  · rw [hinit] at hgiven
    cases hgiven
  · rw [hinit] at hgiven
    obtain rfl := Except.ok.inj hgiven
    exact absurd ((pool?_length r).symm.trans h) (by simp)

/-- What a shut pool is for those who share it. -/
theorem final_of_shut {p : Pool} {after : List Request}
    (hpool : r.pool? id = some { shared with pool := p })
    (hshut : Pool.Shut (servers id) shared.pool p)
    (hkept : ∀ h holding, shared.pool.holding? h = some holding →
      (∀ action ∈ actionsOn id after, ¬Pool.GivesBack h action) → p.holding? h = some holding) :
    Final urls servers id shared after r := by
  have hclosed : r.isOpen id = false := by
    rw [isOpen, hpool]
    exact congrArg (!·) hshut.ended.closed
  refine ⟨⟨p, hpool, hshut, hkept⟩, hclosed, ?_, ?_, ?_, ?_, ?_,
    init_ne_of_closed hpool hclosed urls⟩
  · refine step_act_of_unchanged hpool ?_
    rw [Pool.act, hshut.get]
    rfl
  · refine step_act_of_unchanged hpool ?_
    rw [Pool.act, hshut.begin]
    rfl
  · intro calls
    refine step_act_of_unchanged hpool ?_
    rw [Pool.act, hshut.transaction]
    rfl
  · intro call plan hplan
    refine step_act_of_unchanged hpool ?_
    rw [Pool.act, hshut.call call plan hplan]
    rfl
  · intro call cause reading hcall
    refine step_act_of_unchanged hpool ?_
    rw [Pool.act, hshut.uncompiled call cause reading hcall]
    rfl

/-- Closing is final and shared, whatever is asked of the registry and done with its pools before
and afterwards, against every server. -/
theorem run_final (urls : UrlReader) (servers : PoolId → Server) (before after : List Request)
    (h : (run urls servers {} before).pool? id = some shared) :
    Final urls servers id shared after
      (run urls servers {} (before ++ .act id .close :: after)) := by
  obtain ⟨n, actions, hreached⟩ := reached_run urls servers before id shared h
  have hclose := pool?_step urls servers (.act id .close) h
  rw [Request.actionOn?, if_pos rfl] at hclose
  have hafter := pool?_run urls servers after hclose
  rw [run_append]
  obtain ⟨hshut, hkept⟩ := Pool.run_shut (servers id) n actions (actionsOn id after)
  rw [← hreached] at hshut hkept
  exact final_of_shut hafter hshut hkept

/-- A pool is closed while a transaction is open, which is committed afterwards, and the name
gets another pool, but not for a URL that the driver rejects. -/
theorem run_final_openTransaction :
    let urls : UrlReader := .scripted [("postgres://db:x", "invalid connection string")]
    let servers : PoolId → Server := fun _ => .scripted [] []
    let before : List Request := [.init "main" (.ofUrl "postgres://db/a"), .act 0 .begin]
    let after : List Request := [.act 0 .get, .init "main" (.ofUrl "postgres://db:x"),
      .init "main" (.ofUrl "postgres://db/b"), .act 0 (.commit 0)]
    let shared : SharedPool :=
      { engine := .postgres, url := "postgres://db/a",
        pool := (Pool.ofCapacity 16).run (servers 0) [.begin] }
    (run urls servers {} before).pool? 0 = some shared ∧
      Final urls servers 0 shared after
        (run urls servers {} (before ++ .act 0 .close :: after)) ∧
      (run urls servers {} (before ++ .act 0 .close :: after)).lookup "main" = some 1 := by
  intro urls servers before after shared
  have h : (run urls servers {} before).pool? 0 = some shared := rfl
  exact ⟨h, run_final urls servers before after h, by decide⟩

end Registry

end SqlCompose
