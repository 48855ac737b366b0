import SqlCompose.Registry

/-!
# Runs of a registry

Those who share pools ask the registry for them, and act on the pools that it has handed
out.  Requests come from anywhere and are taken one after the other.  One database driver
reads all URLs, and there is a server behind each pool.
-/

namespace SqlCompose

/-- Something that is asked of a registry, or done with a pool that it knows. -/
inductive Request where
  | create (config : PoolConfig)
  | init (name : Text) (config : PoolConfig)
  | lookup (name : Text)
  | remove (name : Text)
  | act (id : PoolId) (action : Action)

/-- What comes of a request. -/
inductive Response where
  /-- A pool, or why there is none. -/
  | handed (result : Except Error PoolId)
  /-- The pool under a name. -/
  | named (id : Option PoolId)
  /-- The outcome of an action, if there is such a pool. -/
  | acted (outcome : Option Outcome)

namespace Registry

/-- Takes one request. -/
def step (urls : UrlReader) (servers : PoolId → Server) (r : Registry) :
    Request → Response × Registry
  | .create config => let (result, r) := r.create urls config; (.handed result, r)
  | .init name config => let (result, r) := r.init urls name config; (.handed result, r)
  | .lookup name => (.named (r.lookup name), r)
  | .remove name => let (id, r) := r.remove name; (.named id, r)
  | .act id action => let (outcome, r) := r.act (servers id) id action; (.acted outcome, r)

/-- Takes requests one after the other. -/
def run (urls : UrlReader) (servers : PoolId → Server) : Registry → List Request → Registry
  | r, [] => r
  | r, request :: rest => run urls servers (r.step urls servers request).2 rest

/-- Requests with what comes of each. -/
def transcript (urls : UrlReader) (servers : PoolId → Server) :
    Registry → List Request → List (Request × Response)
  | _, [] => []
  | r, request :: rest =>
    let (response, r) := r.step urls servers request
    (request, response) :: transcript urls servers r rest

end Registry

end SqlCompose
