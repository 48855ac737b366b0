import SqlCompose.Proofs.Pool.Operations

/-!
# Transactions are kept apart

An open transaction never goes back to the pool, and nobody else speaks on its
connection.  `Pool.Apart` has what this comes to for one connection, and
`Pool.run_apart` says it about every connection in every run.
-/

namespace SqlCompose

namespace Pool

variable {s : Server} {start p : Pool} {known : Handle → Connection → Prop} {c : Connection}
  {h : Handle} {action : Action}

/-! ## What is outside stays there -/

/-- Nothing is issued on a connection any more, whatever is done with the pool. -/
def Silent (s : Server) (p : Pool) (c : Connection) : Prop :=
  ∀ actions, (p.run s actions).history c = p.history c

/-- The invariant, as seen by a run that begins where another has ended. -/
theorem Sound.refl (hp : start.Sound known none p) : p.Sound (fun _ _ => True) none p :=
  { hp with
    in_hand := by simp
    outside_known := by
      intro c hc hne
      rcases hp.outside_known c hc hne with hsettled | ⟨h, hrunning, -⟩
      · exact .inl hsettled
      · exact .inr ⟨h, hrunning, trivial⟩
    gone := fun _ hc => ⟨hc, rfl⟩ }

theorem Sound.silent (hp : start.Sound known none p) (s : Server) (hc : p.Outside c) :
    p.Silent s c := by
  intro actions
  have hend : p.Sound (fun _ _ => True) none (p.run s actions) :=
    (preserved_sound s p _).run hp.refl fun _ _ _ => trivial
  exact (hend.gone c hc).2

/-! ## Abandoned transactions -/

theorem Sound.drop_outside (hp : start.Sound known none p)
    (hh : p.holding? h = some (.transaction c)) : (p.drop h).Outside c := by
  have hc : (p.forget h).Outside c := hp.outside_forget (mem_held_of_holding? hh)
  rw [Pool.drop, hh]
  exact (quiet_detach _ c).sheds.outside hc

theorem Sound.finish_outside {sql : Text} {e : Error} (hp : start.Sound known none p)
    (hh : p.holding? h = some (.transaction c)) (he : (p.finish s sql h).1 = .error e) :
    (p.finish s sql h).2.Outside c := by
  have hc : (p.forget h).Outside c := hp.outside_forget (mem_held_of_holding? hh)
  rw [Pool.finish, hh] at he ⊢
  dsimp only at he ⊢
  rcases issue_cases s (.transaction h) c sql (p.forget h) with
    ⟨e, hissue⟩ | ⟨set, p', hissue, -⟩ | ⟨e, reply, p', hissue, hhears, -⟩
  · rw [hissue]
    exact (quiet_detach _ c).sheds.outside hc
  · rw [hissue] at he
    cases he
  · rw [hissue]
    exact (quiet_detach _ c).sheds.outside (hhears.outside_iff.2 hc)

/-- The connection of an abandoned transaction is outside of the pool. -/
theorem Sound.abandons_outside (hp : start.Sound known none p) (ha : Abandons s p h c action) :
    (p.act s action).2.Outside c := by
  have hpreserved := preserved_sound s start known
  cases ha with
  | drop hh => exact hp.drop_outside hh
  | commit hh he => exact hp.finish_outside hh he
  | rollback hh he => exact hp.finish_outside hh he
  | transaction_commit hbegin hbody hh he =>
    rw [act, transaction_of_ok hbegin hbody]
    exact (hpreserved.ran hp hbegin hbody).finish_outside hh he
  | transaction_rollback hbegin hbody hh he =>
    rw [act, transaction_of_error hbegin hbody]
    exact (hpreserved.ran hp hbegin hbody).finish_outside hh he

/-! ## Runs -/

/-- What transactions may count on in a run, seen from a connection. -/
structure Apart (s : Server) (start : Pool) (actions : List Action) (c : Connection) : Prop where
  /-- At most the last transaction on the connection was not ended.  It still has the
  connection, or it was abandoned. -/
  shape : Settled ((start.run s actions).history c) ∨
    ∃ h, Running h ((start.run s actions).history c) ∧
      ((start.run s actions).holding? h = some (.transaction c) ∨ Abandoned s h c start actions)
  /-- Nothing is issued on the connection of an abandoned transaction. -/
  abandoned : ∀ h action, Abandons s (start.run s actions) h c action →
    ((start.run s actions).act s action).2.Silent s c
  /-- An unfinished transaction was begun on its connection, and nobody else has spoken
  there since. -/
  transaction : ∀ h, (start.run s actions).holding? h = some (.transaction c) →
    Running h ((start.run s actions).history c)
  /-- No transaction is open on the connection of a client. -/
  client : ∀ h, (start.run s actions).holding? h = some (.client c) →
    Settled ((start.run s actions).history c)
  /-- No transaction is open where the pool may lend the connection. -/
  idle : c ∈ (start.run s actions).idle → Settled ((start.run s actions).history c)
  /-- A transaction speaks on no other connection. -/
  alone : ∀ h c', (start.run s actions).Speaks h c → (start.run s actions).Speaks h c' → c' = c

/-- A connection is idle, held or outside of the pool, unless it was never asked for. -/
theorem Sound.place (hp : start.Sound known none p) (c : Connection) :
    c ∈ p.idle ∨ (∃ h holding, (h, holding) ∈ p.held ∧ holding.connection = c) ∨
      p.Outside c ∨ p.history c = [] := by
  by_cases hplaced : c ∈ p.placed
  · rcases List.mem_append.1 hplaced with hidle | hheld
    · exact .inl hidle
    · obtain ⟨⟨h, holding⟩, hmem, hc⟩ := List.mem_map.1 hheld
      exact .inr (.inl ⟨h, holding, hmem, hc⟩)
  · rcases Nat.lt_or_ge p.attempts c with hlt | hle
    · exact .inr (.inr (.inr (hp.unopened c hlt)))
    · exact .inr (.inr (.inl ⟨hle, hplaced⟩))

theorem Sound.shape (hp : start.Sound known none p) (c : Connection) :
    Settled (p.history c) ∨ ∃ h, Running h (p.history c) ∧
      (p.holding? h = some (.transaction c) ∨ known h c) := by
  rcases hp.place c with hidle | ⟨h, holding, hmem, rfl⟩ | houtside | hnil
  · exact .inl (hp.idle_settled c hidle)
  · have hfits := hp.held_fits h holding hmem
    cases holding with
    | client c => exact .inl hfits
    | transaction c => exact .inr ⟨h, hfits, .inl (hp.holding?_of_mem hmem)⟩
  · rcases hp.outside_known c houtside (by simp) with hsettled | ⟨h, hrunning, hknown⟩
    · exact .inl hsettled
    · exact .inr ⟨h, hrunning, .inr hknown⟩
  · rw [hnil]
    exact .inl .nil

/-- An open transaction never goes back to the pool and is never shared, in every run,
against every server and on every connection. -/
theorem run_apart (s : Server) (capacity : Nat) (actions : List Action) (c : Connection) :
    Apart s (ofCapacity capacity) actions c := by
  have hp : (ofCapacity capacity).Sound
      (fun h c => Abandoned s h c (ofCapacity capacity) actions) none
      ((ofCapacity capacity).run s actions) :=
    (preserved_sound s _ _).run (.ofCapacity _ capacity) fun _ _ ha => ha
  exact {
    shape := hp.shape c
    abandoned := fun h action ha =>
      ((preserved_sound s _ _).act hp.refl fun _ _ _ => trivial).silent s (hp.abandons_outside ha)
    transaction := fun h hh => hp.held_fits h _ (mem_held_of_holding? hh)
    client := fun h hh => hp.held_fits h _ (mem_held_of_holding? hh)
    idle := hp.idle_settled c
    alone := fun h c' hs hs' => hp.speaks_unique h c' c hs' hs }

example :
    let server := Server.scripted [⟨"COMMIT", .error "disk full"⟩] []
    let p := (ofCapacity 1).run server [.begin, .commit 0, .get]
    p.history 1 = [⟨.transaction 0, "BEGIN", .result {}⟩,
      ⟨.transaction 0, "COMMIT", .error "disk full"⟩] ∧ p.held = [(1, .client 2)] := by
  decide

end Pool

end SqlCompose
