import SqlCompose.Proofs.Pool.Slots
import SqlCompose.Proofs.Registry.Pools

/-!
# The names of a registry

What a name stands for can be told from the answers that a registry has given:
`registered` is the pool that was last given out under the name by `init` and has
not been removed since.  It does not look into the registry, and `lookup_run` says
that it is what the registry has.

`Faithful` is what users may count on: who gets which pool, what is made of which
configuration and what is left alone.  A name is `Steady` while requests leave it as
it is, and as long as it is, all get one pool.  `run_faithful` says this about every
run, whatever URLs the driver rejects and however the servers behave.
-/

namespace SqlCompose

/-- The pool under a name, after an exchange. -/
def entered (name : Text) (current : Option PoolId) : Request × Response → Option PoolId
  | (.init name' _, .handed (.ok id)) => if name' = name then some id else current
  | (.remove name', _) => if name' = name then none else current
  | _ => current

/-- The pool that was last registered under a name and not removed since. -/
def registered (name : Text) (past : List (Request × Response)) : Option PoolId :=
  past.foldl (entered name) none

/-- The pool that an exchange hands out under a name. -/
def handed? (name : Text) : Request × Response → Option PoolId
  | (.init name' _, .handed (.ok id)) => if name' = name then some id else none
  | (.lookup name', .named id) => if name' = name then id else none
  | _ => none

/-- The name that a request is about, if it is about one. -/
def Request.name? : Request → Option Text
  | init name _ | lookup name | remove name => some name
  | create _ | act _ _ => none

namespace Registry

variable {urls : UrlReader} {servers : PoolId → Server} {r : Registry} {id : PoolId}
  {config : PoolConfig} {name name' : Text} {request : Request}

/-- A name that requests leave as it is. -/
def Steady (urls : UrlReader) (servers : PoolId → Server) (name : Text) :
    Registry → List Request → Prop
  | _, [] => True
  | r, request :: rest =>
    (r.step urls servers request).2.lookup name = r.lookup name ∧
      Steady urls servers name (r.step urls servers request).2 rest

/-! ## One request -/

theorem lookup_without (names : List (Text × PoolId)) (name name' : Text) :
    (without name names).lookup name' = if name = name' then none else names.lookup name' := by
  induction names with
  | nil => simp [without]
  | cons entry rest ih =>
    obtain ⟨key, id⟩ := entry
    rw [without] at ih ⊢
    by_cases hkey : key = name
    · rw [List.filter_cons_of_neg (by simp [hkey]), ih]
      by_cases hname : name = name'
      · rw [if_pos hname, if_pos hname]
      · rw [if_neg hname, if_neg hname, List.lookup_cons,
          beq_false_of_ne fun heq => hname (hkey ▸ heq.symm)]
    · rw [List.filter_cons_of_pos (by simp [hkey]), List.lookup_cons, List.lookup_cons, ih]
      by_cases hname' : name' = key
      · rw [hname', beq_self_eq_true]
        exact (if_neg fun heq => hkey heq.symm).symm
      · rw [beq_false_of_ne hname']

theorem lookup_remove (name name' : Text) (r : Registry) :
    (r.remove name).2.lookup name' = if name = name' then none else r.lookup name' :=
  lookup_without r.names name name'

theorem lookup_enter (name name' : Text) (id : PoolId) (r : Registry) :
    (r.enter name id).lookup name' = if name = name' then some id else r.lookup name' := by
  rw [lookup, enter, List.lookup_cons]
  by_cases hname : name = name'
  · rw [if_pos hname, hname, beq_self_eq_true]
  · rw [if_neg hname, beq_false_of_ne fun heq => hname heq.symm]
    exact (lookup_without r.names name name').trans (if_neg hname)

/-- Acting on a pool has nothing to do with names. -/
theorem lookup_act (s : Server) (id : PoolId) (action : Action) (name : Text) (r : Registry) :
    (r.act s id action).2.lookup name = r.lookup name := by
  rw [act]
  split <;> rfl

/-- A request changes a name as its answer tells. -/
theorem lookup_step (urls : UrlReader) (servers : PoolId → Server) (r : Registry)
    (request : Request) (name : Text) :
    (r.step urls servers request).2.lookup name =
      entered name (r.lookup name) (request, (r.step urls servers request).1) := by
  cases request with
  | create config =>
    rcases create_cases urls config r with ⟨e, -, hcreate⟩ | ⟨-, hcreate⟩ <;>
      rw [step, hcreate] <;> rfl
  | init name' config =>
    rcases init_cases urls name' config r with
      ⟨id, hname, -, hinit⟩ | ⟨-, ⟨e, -, hinit⟩ | ⟨-, hinit⟩⟩
    · rw [step, hinit]
      show r.lookup name = if name' = name then some id else r.lookup name
      split
      · rename_i heq
        rw [← heq, hname]
      · rfl
    · rw [step, hinit]
      rfl
    · rw [step, hinit]
      exact lookup_enter name' name _ _
  | lookup name' => rfl
  | remove name' => exact lookup_remove name' name r
  | act id action => exact lookup_act _ id action name r

/-- A request about another name, or about none, leaves a name as it is. -/
theorem lookup_step_of_ne (urls : UrlReader) (servers : PoolId → Server) (r : Registry)
    (hne : request.name? ≠ some name) :
    (r.step urls servers request).2.lookup name = r.lookup name := by
  rw [lookup_step]
  cases request with
  | create config => rfl
  | init name' config =>
    have hname : name' ≠ name := fun heq => hne (congrArg some heq)
    rcases (r.step urls servers (.init name' config)).1 with (e | id) | id | outcome
    · rfl
    · exact if_neg hname
    · rfl
    · rfl
  | lookup name' => rfl
  | remove name' => exact if_neg fun heq => hne (congrArg some heq)
  | act id action => rfl

/-- Whoever asks for a pool by name gets the pool that the name has when the request is done. -/
theorem lookup_step_of_handed?
    (h : handed? name (request, (r.step urls servers request).1) = some id) :
    (r.step urls servers request).2.lookup name = some id := by
  rw [lookup_step]
  cases request with
  | create config => cases h
  | init name' config =>
    generalize (r.step urls servers (.init name' config)).1 = response at h
    rcases response with (e | id') | id' | outcome
    · cases h
    · have hif : (if name' = name then some id' else none) = some id := h
      show (if name' = name then some id' else r.lookup name) = some id
      split at hif
      · rw [if_pos ‹_›, hif]
      · cases hif
    · cases h
    · cases h
  | lookup name' =>
    have hif : (if name' = name then r.lookup name' else none) = some id := h
    show r.lookup name = some id
    split at hif
    · rename_i heq
      rw [← heq, hif]
    · cases hif
  | remove name' => cases h
  | act id action => cases h

/-! ## Runs -/

/-- A name stands for what the answers tell. -/
theorem lookup_run (urls : UrlReader) (servers : PoolId → Server) (requests : List Request)
    (name : Text) :
    (r.run urls servers requests).lookup name =
      (r.transcript urls servers requests).foldl (entered name) (r.lookup name) := by
  induction requests generalizing r with
  | nil => rfl
  | cons request rest ih =>
    rw [run, ih, lookup_step]
    rfl

/-- A name stands for a pool that there is. -/
def Known (r : Registry) : Prop :=
  ∀ name id, r.lookup name = some id → ∃ shared, r.pool? id = some shared

theorem Known.step (hk : r.Known) (urls : UrlReader) (servers : PoolId → Server)
    (request : Request) : (r.step urls servers request).2.Known := by
  intro name id h
  have hkept : r.lookup name = some id →
      ∃ shared, (r.step urls servers request).2.pool? id = some shared := by
    intro hname
    obtain ⟨shared, hpool⟩ := hk name id hname
    exact ⟨_, pool?_step urls servers request hpool⟩
  cases request with
  | create config =>
    exact hkept ((lookup_step_of_ne urls servers r (by simp [Request.name?])).symm.trans h)
  | init name' config =>
    rcases init_cases urls name' config r with
      ⟨id', hname, -, hinit⟩ | ⟨-, ⟨e, -, hinit⟩ | ⟨-, hinit⟩⟩
    · rw [Registry.step, hinit] at h
      exact hkept h
    · rw [Registry.step, hinit] at h
      exact hkept h
    · rw [Registry.step, hinit] at h hkept ⊢
      have hif := (lookup_enter name' name _ _).symm.trans h
      split at hif
      · obtain rfl := Option.some.inj hif
        exact ⟨_, pool?_append_self r _⟩
      · exact hkept hif
  | lookup name' => exact hk name id h
  | remove name' =>
    have hif := (lookup_remove name' name r).symm.trans h
    split at hif
    · cases hif
    · exact hk name id hif
  | act id' action => exact hkept ((lookup_act _ id' action name r).symm.trans h)

theorem known_run (urls : UrlReader) (servers : PoolId → Server) (requests : List Request) :
    (run urls servers {} requests).Known := by
  have hrun : ∀ {r : Registry}, r.Known → (r.run urls servers requests).Known := by
    induction requests with
    | nil => exact id
    | cons request rest ih => exact fun hk => ih (hk.step urls servers request)
  refine hrun ?_
  intro name id h
  cases h

/-- While a name is steady, it stands for one pool, and that is the pool which all get. -/
theorem Steady.handed {middle : List Request} (hs : Steady urls servers name r middle) :
    (r.run urls servers middle).lookup name = r.lookup name ∧
      ∀ exchange ∈ r.transcript urls servers middle, ∀ id, handed? name exchange = some id →
        r.lookup name = some id := by
  induction middle generalizing r with
  | nil => exact ⟨rfl, fun exchange h => by cases h⟩
  | cons request rest ih =>
    obtain ⟨hsame, hrest⟩ := hs
    obtain ⟨hrun, hhanded⟩ := ih hrest
    refine ⟨hrun.trans hsame, ?_⟩
    intro exchange hexchange id hid
    rcases List.mem_cons.1 hexchange with rfl | hexchange
    · exact hsame.symm.trans (lookup_step_of_handed? hid)
    · exact hsame.symm.trans (hhanded exchange hexchange id hid)

/-- Closing a pool closes it for all who have it. -/
theorem isOpen_close (urls : UrlReader) (servers : PoolId → Server) (r : Registry)
    (id : PoolId) : (r.step urls servers (.act id .close)).2.isOpen id = false := by
  rw [isOpen]
  cases h : r.pool? id with
  | none =>
    rw [step, Registry.act, h]
    dsimp only
    rw [h]
  | some shared =>
    rw [pool?_step urls servers (.act id .close) h, Request.actionOn?, if_pos rfl]
    exact congrArg (!·) (Pool.closed_close shared.pool).1

/-- What users of a registry may count on, who have seen these exchanges. -/
structure Faithful (urls : UrlReader) (servers : PoolId → Server)
    (past : List (Request × Response)) (r : Registry) : Prop where
  lookup : ∀ name, r.lookup name = registered name past
  /-- What is registered is there. -/
  known : ∀ name id, registered name past = some id → ∃ shared, r.pool? id = some shared
  /-- An open pool is given whatever the configuration, and nothing is changed. -/
  kept : ∀ name config id, registered name past = some id → r.isOpen id = true →
    r.init urls name config = (.ok id, r)
  /-- Only an open pool is given again. -/
  kept_iff : ∀ name config id, registered name past = some id →
    ((r.init urls name config).1 = .ok id ↔ r.isOpen id = true)
  /-- Else a pool is made from the configuration that there was not before, and is registered. -/
  made : ∀ name config,
    (∀ id, registered name past = some id → r.isOpen id = false) →
    config.rejection? urls = none →
    ∃ id shared r', r.init urls name config = (.ok id, r') ∧ r.pool? id = none ∧
      shared.MadeFrom config ∧ r'.pools = r.pools ++ [shared] ∧ r'.pool? id = some shared ∧
      r'.isOpen id = true ∧ r'.lookup name = some id
  /-- Where the configuration is rejected, the reason is told and everything is as it was. -/
  rejected : ∀ name config e,
    (∀ id, registered name past = some id → r.isOpen id = false) →
    config.rejection? urls = some e → r.init urls name config = (.error e, r)
  /-- A pool without a name is made from every configuration that is not rejected. -/
  created : ∀ config, config.rejection? urls = none →
    ∃ id shared r', r.create urls config = (.ok id, r') ∧ r.pool? id = none ∧
      shared.MadeFrom config ∧ r'.pools = r.pools ++ [shared] ∧ r'.pool? id = some shared ∧
      r'.isOpen id = true ∧ r'.names = r.names
  uncreated : ∀ config e, config.rejection? urls = some e →
    r.create urls config = (.error e, r)
  get : ∀ name, r.step urls servers (.lookup name) = (.named (registered name past), r)
  /-- To remove a name does nothing to the pools. -/
  remove : ∀ name, (r.remove name).1 = registered name past ∧
    (r.remove name).2.lookup name = none ∧ (r.remove name).2.pools = r.pools
  /-- Requests about another name, or about pools, leave a name alone. -/
  elsewhere : ∀ request name, request.name? ≠ some name →
    (r.step urls servers request).2.lookup name = r.lookup name
  /-- Between two changes of a name all get one pool, and closing it closes it for all. -/
  one : ∀ name middle, Steady urls servers name r middle →
    ∀ exchange ∈ r.transcript urls servers middle,
      ∀ exchange' ∈ r.transcript urls servers middle,
        ∀ id id', handed? name exchange = some id → handed? name exchange' = some id' →
          id = id' ∧ registered name past = some id ∧
            ((r.run urls servers middle).step urls servers (.act id .close)).2.isOpen id' = false

theorem isOpen_of_fresh (h : r.pool? id = some (.fresh config)) : r.isOpen id = true := by
  rw [isOpen, h]
  rfl

/-- A pool is given again only while it is open. -/
theorem Known.isOpen_of_init (hk : r.Known) (hname : r.lookup name = some id)
    (hinit : (r.init urls name config).1 = .ok id) : r.isOpen id = true := by
  rcases init_cases urls name config r with
    ⟨id', hname', hopen, -⟩ | ⟨-, ⟨e, -, hrejected⟩ | ⟨-, hmade⟩⟩
  · rwa [Option.some.inj (hname.symm.trans hname')]
  · rw [hrejected] at hinit
    cases hinit
  · -- The number of a new pool is that of no pool that is known.
    rw [hmade] at hinit
    obtain rfl := Except.ok.inj hinit
    obtain ⟨shared, hpool⟩ := hk name _ hname
    exact absurd ((pool?_length r).symm.trans hpool) (by simp)

/-- A registry whose names stand for what the answers tell is faithful to them. -/
theorem Known.faithful {past : List (Request × Response)} (hk : r.Known)
    (hlookup : ∀ name, r.lookup name = registered name past) (urls : UrlReader)
    (servers : PoolId → Server) : Faithful urls servers past r where
  lookup := hlookup
  known name id h := hk name id ((hlookup name).trans h)
  kept name config id h hopen := init_of_open ((hlookup name).trans h) hopen urls config
  kept_iff name config id h := by
    have hname := (hlookup name).trans h
    refine ⟨hk.isOpen_of_init hname, fun hopen => ?_⟩
    rw [init_of_open hname hopen]
  made name config hclosed hconfig := by
    have hinit := init_of_accepted (fun id h => hclosed id ((hlookup name).symm.trans h)) hconfig
    have hpool := pool?_append_self r (.fresh config)
    exact ⟨_, _, _, hinit, pool?_length r, SharedPool.madeFrom_fresh config, rfl, hpool,
      isOpen_of_fresh hpool, (lookup_enter name name _ _).trans (if_pos rfl)⟩
  rejected name config e hclosed hconfig :=
    init_of_rejected (fun id h => hclosed id ((hlookup name).symm.trans h)) hconfig
  created config hconfig := by
    have hpool := pool?_append_self r (.fresh config)
    exact ⟨_, _, _, create_of_accepted hconfig r, pool?_length r, SharedPool.madeFrom_fresh config,
      rfl, hpool, isOpen_of_fresh hpool, rfl⟩
  uncreated config e hconfig := create_of_rejected hconfig r
  get name := by rw [Registry.step, hlookup]
  remove name := ⟨hlookup name, (lookup_remove name name r).trans (if_pos rfl), rfl⟩
  elsewhere request name hne := lookup_step_of_ne urls servers r hne
  one name middle hs exchange hexchange exchange' hexchange' id id' hid hid' := by
    obtain ⟨-, hhanded⟩ := hs.handed
    have hname := hhanded exchange hexchange id hid
    have hname' := hhanded exchange' hexchange' id' hid'
    obtain rfl : id = id' := Option.some.inj (hname.symm.trans hname')
    exact ⟨rfl, (hlookup name).symm.trans hname, isOpen_close urls servers _ id⟩

/-- A registry is faithful to the answers that it has given, in every run. -/
theorem run_faithful (urls : UrlReader) (servers : PoolId → Server) (requests : List Request) :
    Faithful urls servers (transcript urls servers {} requests)
      (run urls servers {} requests) :=
  (known_run urls servers requests).faithful
    (fun name => lookup_run urls servers requests name) urls servers

end Registry

end SqlCompose
