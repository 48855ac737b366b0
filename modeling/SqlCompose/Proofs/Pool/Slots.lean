import SqlCompose.Proofs.Pool.Operations

/-!
# Slots

No slot is lost.  Those that are in use are those of the clients and the
transactions that have not been given back, whatever the server replies.

`Pool.ledger` is the part of a pool that slots are counted with.  There is one
lemma for each operation that says what becomes of it, and everything else is
counting.  `Balanced` is the invariant of runs, `Accounted` has what it comes to
in one state, and `run_accounted` says it about every state that a run reaches
without the pool being closed.
-/

namespace SqlCompose

/-- Whether it is a client that holds the connection. -/
def Holding.isClient : Holding → Bool
  | client _ => true
  | transaction _ => false

namespace Pool

/-- The number of slots that are in use. -/
def inUse (p : Pool) : Nat := p.capacity - p.freeSlots

/-- The number of clients that have not been given back. -/
def clients (p : Pool) : Nat := p.held.countP fun entry => entry.2.isClient

/-- The number of transactions that have been neither finished nor dropped. -/
def transactions (p : Pool) : Nat := p.held.countP fun entry => !entry.2.isClient

/-- What the slots of a pool are counted with. -/
structure Ledger where
  capacity : Nat
  closed : Bool
  freeSlots : Nat
  held : List (Handle × Holding)

namespace Ledger

/-- One more slot is taken. -/
def take (l : Ledger) : Ledger := { l with freeSlots := l.freeSlots - 1 }

/-- One more slot is free. -/
def free (l : Ledger) : Ledger := { l with freeSlots := l.freeSlots + 1 }

/-- A handle holds something. -/
def enter (l : Ledger) (h : Handle) (holding : Holding) : Ledger :=
  { l with held := l.held ++ [(h, holding)] }

/-- A handle holds nothing any more. -/
def strike (l : Ledger) (h : Handle) : Ledger :=
  { l with held := l.held.filter fun entry => entry.1 != h }

end Ledger

/-- The ledger of a pool. -/
def ledger (p : Pool) : Ledger := ⟨p.capacity, p.closed, p.freeSlots, p.held⟩

variable {s : Server} {start p p' : Pool} {known : Handle → Connection → Prop} {c : Connection}
  {hand : Option Connection} {h : Handle} {holding : Holding} {n : Nat}

theorem inUse_congr (hl : p'.ledger = p.ledger) : p'.inUse = p.inUse := by
  obtain ⟨hcapacity, -, hfree, -⟩ := Ledger.mk.inj hl
  rw [inUse, hcapacity, hfree, inUse]

/-! ## Operations on the ledger -/

theorem ledger_disconnect (p : Pool) (c : Connection) : (p.disconnect c).ledger = p.ledger := by
  rw [disconnect]
  split <;> rfl

theorem ledger_issue (s : Server) (speaker : Speaker) (c : Connection) (sql : Text) (p : Pool) :
    (p.issue s speaker c sql).2.ledger = p.ledger := by
  rw [issue]
  split
  · rfl
  · dsimp only
    split <;> rfl

theorem ledger_release (p : Pool) (c : Connection) : (p.release c).ledger = p.ledger.free := by
  rw [release]
  dsimp only
  split
  · exact ledger_disconnect _ c
  · rfl

theorem ledger_detach (p : Pool) (c : Connection) : (p.detach c).ledger = p.ledger.free :=
  ledger_disconnect _ c

theorem closed_close (p : Pool) :
    p.close.closed = true ∧ p.close.freeSlots = p.freeSlots ∧ p.close.held = p.held := by
  have hfold : ∀ (cs : List Connection) (q : Pool), (cs.foldl disconnect q).ledger = q.ledger := by
    intro cs
    induction cs with
    | nil => exact fun _ => rfl
    | cons c cs ih => exact fun q => (ih _).trans (ledger_disconnect q c)
  obtain ⟨-, hclosed, hfree, hheld⟩ := Ledger.mk.inj (hfold p.idle
    { p with capacity := 0, closed := true, idle := [], size := p.size - p.idle.length })
  exact ⟨hclosed, hfree, hheld⟩

/-- A request takes a slot exactly if it gets a connection. -/
theorem acquire_ledger (s : Server) (p : Pool) :
    (∃ e p', p.acquire s = (.error e, p') ∧ p'.ledger = p.ledger) ∨
      ∃ c p', p.acquire s = (.ok c, p') ∧ 0 < p.freeSlots ∧ p'.ledger = p.ledger.take := by
  rw [acquire]
  split
  · exact .inl ⟨_, p, rfl, rfl⟩
  split
  · exact .inl ⟨_, p, rfl, rfl⟩
  rename_i hfree
  have hpos : 0 < p.freeSlots := Nat.pos_of_ne_zero hfree
  dsimp only
  split
  · exact .inr ⟨_, _, rfl, hpos, rfl⟩
  · rw [openConnection]
    dsimp only
    split
    · exact .inr ⟨_, _, rfl, hpos, rfl⟩
    · exact .inl ⟨_, _, rfl, rfl⟩
    · exact .inl ⟨_, _, rfl, rfl⟩

/-- A slot that is taken and given back is as free as before. -/
theorem Ledger.free_take {l : Ledger} (hpos : 0 < l.freeSlots) : l.take.free = l := by
  rw [take, free]
  dsimp only
  rw [Nat.sub_add_cancel hpos]

/-- A handle that holds nothing yet is entered and struck out again. -/
theorem Ledger.strike_enter {l : Ledger} (hnew : ∀ entry ∈ l.held, entry.1 ≠ h) :
    (l.enter h holding).strike h = l := by
  have hheld : (l.held ++ [(h, holding)]).filter (fun entry => entry.1 != h) = l.held := by
    rw [List.filter_append,
      List.filter_eq_self.2 fun entry hentry => bne_iff_ne.2 (hnew entry hentry)]
    simp
  rw [strike, enter]
  dsimp only
  rw [hheld]

/-- What asking for a handle comes to on the ledger. -/
inductive Lends (p : Pool) (holding : Connection → Holding) : Except Error Handle × Pool → Prop
  | refused {e : Error} {p' : Pool} (hl : p'.ledger = p.ledger) : Lends p holding (.error e, p')
  | granted {h : Handle} {c : Connection} {p' : Pool} (hpos : 0 < p.freeSlots)
      (hl : p'.ledger = p.ledger.take.enter h (holding c)) : Lends p holding (.ok h, p')

/-- One handle is struck out, since no two are the same. -/
theorem Sound.length_strike (hp : start.Sound known hand p) (hmem : (h, holding) ∈ p.held) :
    (p.held.filter fun entry => entry.1 != h).length + 1 = p.held.length := by
  have hfst : h ∈ p.held.map Prod.fst := List.mem_map_of_mem hmem
  have hmap : ((p.held.filter fun entry => entry.1 != h).map Prod.fst) =
      (p.held.map Prod.fst).erase h := by
    rw [hp.handles_nodup.erase_eq_filter, List.filter_map]
    rfl
  have hlength := congrArg List.length hmap
  rw [List.length_map, List.length_erase_of_mem hfst, List.length_map] at hlength
  have hpos := List.length_pos_of_mem hmem
  omega

/-- A client that got its connection has a slot. -/
theorem lends_get (s : Server) (p : Pool) : p.Lends .client (p.get s) := by
  rw [get]
  rcases acquire_ledger s p with ⟨e, p₁, heq, hl⟩ | ⟨c, p₁, heq, hpos, hl⟩
  · rw [heq]
    exact .refused hl
  · rw [heq]
    exact .granted hpos (congrArg (Ledger.enter · _ (.client c)) hl)

/-- A transaction that has begun has a slot, and one that has not gives it back. -/
theorem lends_begin (s : Server) (p : Pool) : p.Lends .transaction (p.begin s) := by
  rw [begin]
  rcases acquire_ledger s p with ⟨e, p₁, heq, hl⟩ | ⟨c, p₁, heq, hpos, hl⟩
  · rw [heq]
    exact .refused hl
  · rw [heq]
    dsimp only
    have hissue := ledger_issue s (.transaction p₁.nextHandle.1) c "BEGIN" p₁.nextHandle.2
    generalize p₁.nextHandle.2.issue s (.transaction p₁.nextHandle.1) c "BEGIN" = issued
      at hissue ⊢
    obtain ⟨e | set, p₂⟩ := issued
    · refine .refused ?_
      rw [ledger_release, hissue]
      exact (congrArg Ledger.free hl).trans (Ledger.free_take hpos)
    · exact .granted hpos (congrArg (Ledger.enter · _ (.transaction c)) (hissue.trans hl))

theorem ledger_of_begin (hbegin : p.begin s = (.ok h, p')) :
    ∃ c, 0 < p.freeSlots ∧ p'.ledger = p.ledger.take.enter h (.transaction c) := by
  have hlends := lends_begin s p
  rw [hbegin] at hlends
  cases hlends with
  | granted hpos hl => exact ⟨_, hpos, hl⟩

/-- A single statement of the pool gives its slot back, and a handle has one already. -/
theorem statement_ledger (s : Server) (target : Target) (sql : Text) (p : Pool) :
    (p.statement s target sql).2.ledger = p.ledger := by
  cases target with
  | pool =>
    rw [statement]
    rcases acquire_ledger s p with ⟨e, p₁, heq, hl⟩ | ⟨c, p₁, heq, hpos, hl⟩
    · rw [heq]
      exact hl
    · rw [heq]
      dsimp only
      rw [ledger_release, ledger_issue, hl, Ledger.free_take hpos]
  | handle h =>
    rw [statement]
    split
    · exact ledger_issue _ _ _ _ p
    · exact ledger_issue _ _ _ _ p
    · rfl

/-- A transaction gives its slot back where it is finished, whether that succeeds or not. -/
theorem finish_ledger {sql : Text} (s : Server) (hh : p.holding? h = some (.transaction c)) :
    (p.finish s sql h).2.ledger = (p.ledger.strike h).free := by
  rw [finish, hh]
  dsimp only
  have hissue := ledger_issue s (.transaction h) c sql (p.forget h)
  generalize (p.forget h).issue s (.transaction h) c sql = issued at hissue ⊢
  obtain ⟨e | set, p₁⟩ := issued
  · exact (ledger_detach p₁ c).trans (congrArg Ledger.free hissue)
  · exact (ledger_release p₁ c).trans (congrArg Ledger.free hissue)

theorem finish_of_not_held {sql : Text} (s : Server)
    (hh : ∀ c, p.holding? h ≠ some (.transaction c)) : (p.finish s sql h).2 = p := by
  rw [finish]
  split
  · rename_i c hheld
    exact absurd hheld (hh c)
  · rfl

/-- A handle that was struck out holds nothing. -/
theorem holding?_of_strike (hl : p'.ledger = (p.ledger.strike h).free) : p'.holding? h = none := by
  have hheld : p'.held = p.held.filter fun entry => entry.1 != h := congrArg Ledger.held hl
  refine List.lookup_eq_none_iff.2 ?_
  intro entry hentry
  rw [hheld] at hentry
  exact bne_iff_ne.2 (bne_iff_ne.1 (List.mem_filter.1 hentry).2).symm

theorem drop_of_not_held (hh : p.holding? h = none) : p.drop h = p := by
  rw [drop, hh]

/-- A handle gives its slot back where it is dropped. -/
theorem drop_ledger (hh : p.holding? h = some holding) :
    (p.drop h).ledger = (p.ledger.strike h).free := by
  rw [drop, hh]
  cases holding with
  | client c => exact ledger_release _ c
  | transaction c => exact ledger_detach _ c

/-- A single call has no slot of its own behind it. -/
theorem call_ledger (s : Server) (target : Target) (call : Call) (p : Pool) :
    (p.call s target call).2.ledger = p.ledger :=
  call_of_statement (I := fun q => q.ledger = p.ledger)
    (fun sql hq => (statement_ledger s target sql _).trans hq) call rfl

theorem body_ledger {α : Type} (s : Server) (h : Handle) (body : Body α) (p : Pool) :
    (body.run s h p).2.ledger = p.ledger :=
  body_of_statement (I := fun q => q.ledger = p.ledger)
    (fun sql hq => (statement_ledger s (.handle h) sql _).trans hq) body rfl

theorem callInside_ledger (s : Server) (h : Handle) (call : Call) (p : Pool) :
    (p.callInside s h call).2.ledger = p.ledger :=
  callInside_of_statement (I := fun q => q.ledger = p.ledger)
    (fun sql hq => (statement_ledger s (.handle h) sql _).trans hq) call rfl

/-- A handle that was entered had held nothing. -/
theorem Sound.ne_of_enter (hp : start.Sound known hand p')
    (hheld : p'.held = p.held ++ [(h, holding)]) : ∀ entry ∈ p.held, entry.1 ≠ h := by
  intro entry hentry
  have hnodup := hp.handles_nodup
  rw [hheld, List.map_append] at hnodup
  exact (List.nodup_append.1 hnodup).2.2 _ (List.mem_map_of_mem hentry) _ List.mem_cons_self

/-- A transaction around a body has given its slot back at the end, whatever has failed. -/
theorem Sound.transaction_ledger {α : Type} (hp : start.Sound known none p) (s : Server)
    (body : Body α) : (p.transaction s body).2.ledger = p.ledger := by
  rcases hbegin : p.begin s with ⟨e | h, p₁⟩
  · have hlends := lends_begin s p
    rw [hbegin] at hlends
    rw [transaction, hbegin]
    cases hlends with
    | refused hl => exact hl
  obtain ⟨c, hpos, hl⟩ := ledger_of_begin hbegin
  rcases hbody : body.run s h p₁ with ⟨result, p₂⟩
  have hl₂ : p₂.ledger = p.ledger.take.enter h (.transaction c) := by
    have hran := body_ledger s h body p₁
    rw [hbody] at hran
    exact hran.trans hl
  have hheld : p₂.held = p.held ++ [(h, .transaction c)] := congrArg Ledger.held hl₂
  have hp₂ : start.Sound known none p₂ := (preserved_sound s start known).ran hp hbegin hbody
  have hh : p₂.holding? h = some (.transaction c) :=
    hp₂.holding?_of_mem (hheld ▸ List.mem_append_right _ List.mem_cons_self)
  have hend : ∀ sql, (p₂.finish s sql h).2.ledger = p.ledger := by
    intro sql
    rw [finish_ledger s hh, hl₂, Ledger.strike_enter (hp₂.ne_of_enter hheld)]
    exact Ledger.free_take hpos
  cases result with
  | error e =>
    rw [transaction_of_error hbegin hbody]
    exact hend "ROLLBACK"
  | ok value =>
    rw [transaction_of_ok hbegin hbody]
    exact hend "COMMIT"

/-! ## The invariant -/

/-- Every slot of a pool is free or held, and an open pool has all of them. -/
structure Balanced (n : Nat) (p : Pool) : Prop where
  total : p.freeSlots + p.held.length = n
  capacity : p.closed = false → p.capacity = n

namespace Balanced

theorem congr (hb : p.Balanced n) (hl : p'.ledger = p.ledger) : p'.Balanced n := by
  obtain ⟨hcapacity, hclosed, hfree, hheld⟩ := Ledger.mk.inj hl
  exact ⟨by rw [hfree, hheld, hb.total], by rw [hclosed, hcapacity]; exact hb.capacity⟩

/-- A slot that was free is held now. -/
theorem enter (hb : p.Balanced n) (hpos : 0 < p.freeSlots)
    (hl : p'.ledger = p.ledger.take.enter h holding) : p'.Balanced n := by
  obtain ⟨hcapacity, hclosed, hfree, hheld⟩ := Ledger.mk.inj hl
  refine ⟨?_, by rw [hclosed, hcapacity]; exact hb.capacity⟩
  have htotal := hb.total
  rw [hfree, hheld, List.length_append, List.length_singleton]
  show p.freeSlots - 1 + (p.held.length + 1) = n
  omega

/-- A slot that was held is free now. -/
theorem strike (hb : p.Balanced n) (hp : start.Sound known hand p) (hmem : (h, holding) ∈ p.held)
    (hl : p'.ledger = (p.ledger.strike h).free) : p'.Balanced n := by
  obtain ⟨hcapacity, hclosed, hfree, hheld⟩ := Ledger.mk.inj hl
  refine ⟨?_, by rw [hclosed, hcapacity]; exact hb.capacity⟩
  have htotal := hb.total
  have hlength := hp.length_strike hmem
  rw [hfree, hheld]
  show p.freeSlots + 1 + (p.held.filter fun entry => entry.1 != h).length = n
  omega

theorem lends {form : Connection → Holding} {r : Except Error Handle × Pool}
    (hb : p.Balanced n) (hr : p.Lends form r) : r.2.Balanced n := by
  cases hr with
  | refused hl => exact hb.congr hl
  | granted hpos hl => exact hb.enter hpos hl

theorem finish {sql : Text} (hb : p.Balanced n) (hp : start.Sound known none p) (s : Server) :
    (p.finish s sql h).2.Balanced n := by
  by_cases hh : ∃ c, p.holding? h = some (.transaction c)
  · obtain ⟨c, hh⟩ := hh
    exact hb.strike hp (mem_held_of_holding? hh) (finish_ledger s hh)
  · rw [finish_of_not_held s fun c hc => hh ⟨c, hc⟩]
    exact hb

theorem drop (hb : p.Balanced n) (hp : start.Sound known none p) : (p.drop h).Balanced n := by
  cases hh : p.holding? h with
  | none =>
    rw [drop_of_not_held hh]
    exact hb
  | some holding => exact hb.strike hp (mem_held_of_holding? hh) (drop_ledger hh)

theorem close (hb : p.Balanced n) : p.close.Balanced n := by
  obtain ⟨hclosed, hfree, hheld⟩ := closed_close p
  refine ⟨by rw [hfree, hheld, hb.total], ?_⟩
  rw [hclosed]
  exact fun h => absurd h Bool.noConfusion

theorem ofCapacity (n : Nat) : (Pool.ofCapacity n).Balanced n := ⟨rfl, fun _ => rfl⟩

end Balanced

/-- Every operation keeps the balance. -/
theorem preserved_balanced (s : Server) (start : Pool) (n : Nat) :
    Preserved s (fun _ _ => True) fun p =>
      start.Sound (fun _ _ => True) none p ∧ p.Balanced n where
  get hp := ⟨hp.1.get s, hp.2.lends (lends_get s _)⟩
  begin hp := ⟨hp.1.begin s, hp.2.lends (lends_begin s _)⟩
  finish hsql hp _ := ⟨hp.1.finish s hsql fun _ _ _ _ => trivial, hp.2.finish hp.1 s⟩
  drop hp _ := ⟨hp.1.drop fun _ _ => trivial, hp.2.drop hp.1⟩
  close hp := ⟨hp.1.quiet (quiet_close _), hp.2.close⟩
  statement target sql hp :=
    ⟨hp.1.statement s target sql, hp.2.congr (statement_ledger s target sql _)⟩

/-- The invariants of a run that begins with an empty pool. -/
theorem run_balanced (s : Server) (n : Nat) (actions : List Action) :
    (Pool.ofCapacity n).Sound (fun _ _ => True) none ((Pool.ofCapacity n).run s actions) ∧
      ((Pool.ofCapacity n).run s actions).Balanced n :=
  (preserved_balanced s _ n).run ⟨.ofCapacity _ n, .ofCapacity n⟩ fun _ _ _ => trivial

end Pool

end SqlCompose
