import Mathlib.Data.List.Nodup
import SqlCompose.Proofs.Pool.History

/-!
# Who has a connection

A connection that was opened is idle, held by a handle, or outside of the pool
(`Pool.Outside`).  Outside are those that are gone for good, and the one that
the call has in hand that is being run.

`Pool.Sound` is the invariant of runs.  No two have the same connection.  The
histories of idle connections and those of clients are settled, and that of a
transaction's connection is running.  The invariant looks back to an earlier
state of the pool, since what was outside of it there still is, with the same
history.  It also looks forward, in that a transaction which was given up
without being ended has to be known.

There are four groups of lemmas.

* Less.  `Sheds` relates a pool to one that has no more connections in it and
  the same histories, and `Sound.sheds` carries the invariant over.
* Hands.  `Sound.acquire_cases` takes a connection in hand, and `Sound.letGo`
  leaves it outside of the pool.
* More.  `Sound.release` and `Sound.hold` put the connection in hand back.
* Statements.  `Sound.hears` adds an exchange to a history.
-/

namespace SqlCompose

/-- What the history of a connection is, for the handle that holds it. -/
def Holding.Fits (h : Handle) (history : List Exchange) : Holding → Prop
  | client _ => Settled history
  | transaction _ => Running h history

/-- Who speaks where a handle issues a statement. -/
def Holding.speaker (h : Handle) : Holding → Speaker
  | client _ => .client h
  | transaction _ => .transaction h

theorem Holding.Fits.snoc {h : Handle} {history : List Exchange} {holding : Holding}
    (hf : holding.Fits h history) (sql : Text) (reply : Reply) :
    holding.Fits h (history ++ [⟨holding.speaker h, sql, reply⟩]) := by
  cases holding with
  | client c => exact Settled.single hf (by simp [speaker])
  | transaction c => exact Running.snoc hf rfl

namespace Pool

/-- The connections that are idle or held. -/
def placed (p : Pool) : List Connection := p.idle ++ p.held.map fun entry => entry.2.connection

/-- A connection that neither the pool nor a handle has. -/
structure Outside (p : Pool) (c : Connection) : Prop where
  attempted : c ≤ p.attempts
  not_placed : c ∉ p.placed

/-- A transaction has issued a statement on a connection. -/
def Speaks (p : Pool) (h : Handle) (c : Connection) : Prop :=
  ∃ e ∈ p.history c, e.speaker = .transaction h

/-- The invariant of a run that passed through a state `start`, while a call may have a
connection in hand. -/
structure Sound (start : Pool) (known : Handle → Connection → Prop) (hand : Option Connection)
    (p : Pool) : Prop where
  handles_nodup : (p.held.map Prod.fst).Nodup
  handles_lt : ∀ entry ∈ p.held, entry.1 < p.handles
  placed_nodup : p.placed.Nodup
  placed_le : ∀ c ∈ p.placed, c ≤ p.attempts
  unopened : ∀ c, p.attempts < c → p.history c = []
  speaks_lt : ∀ h c, p.Speaks h c → h < p.handles
  speaks_held : ∀ h holding c, (h, holding) ∈ p.held → p.Speaks h c → c = holding.connection
  speaks_unique : ∀ h c c', p.Speaks h c → p.Speaks h c' → c = c'
  idle_settled : ∀ c ∈ p.idle, Settled (p.history c)
  held_fits : ∀ h holding, (h, holding) ∈ p.held →
    holding.Fits h (p.history holding.connection)
  in_hand : ∀ c, hand = some c → p.Outside c ∧ ¬start.Outside c
  /-- A transaction that is open outside of the pool is known to have been given up. -/
  outside_known : ∀ c, p.Outside c → hand ≠ some c →
    Settled (p.history c) ∨ ∃ h, Running h (p.history c) ∧ known h c
  /-- What was outside of the pool is outside of it for good. -/
  gone : ∀ c, start.Outside c → p.Outside c ∧ p.history c = start.history c

variable {s : Server} {start p p' p'' : Pool} {known : Handle → Connection → Prop}
  {hand hand' : Option Connection} {c : Connection} {h : Handle} {holding : Holding}

theorem mem_placed (hmem : (h, holding) ∈ p.held) : holding.connection ∈ p.placed :=
  List.mem_append_right _ (List.mem_map_of_mem hmem)

/-! ## Less -/

/-- A pool has no more connections than another and the same histories. -/
structure Sheds (p p' : Pool) : Prop where
  idle : p'.idle.Sublist p.idle
  held : p'.held.Sublist p.held
  attempts : p.attempts ≤ p'.attempts
  handles : p.handles ≤ p'.handles
  history : ∀ c, p'.history c = p.history c

/-- Besides, the same handles hold the same. -/
structure Quiet (p p' : Pool) : Prop where
  sheds : p.Sheds p'
  held_eq : p'.held = p.held

theorem Sheds.placed (h : p.Sheds p') : p'.placed.Sublist p.placed :=
  h.idle.append (h.held.map _)

theorem Sheds.outside (h : p.Sheds p') (hc : p.Outside c) : p'.Outside c :=
  ⟨Nat.le_trans hc.attempted h.attempts, fun hmem => hc.not_placed (h.placed.subset hmem)⟩

theorem Sheds.speaks {k : Handle} (h : p.Sheds p') (hs : p'.Speaks k c) : p.Speaks k c := by
  obtain ⟨e, he, hspeaker⟩ := hs
  exact ⟨e, h.history c ▸ he, hspeaker⟩

/-- The invariant, where only the connection that comes into the call's hands is taken from
a handle. -/
theorem Sound.sheds (hp : start.Sound known hand p) (h : p.Sheds p')
    (hkeep : ∀ c, hand = some c → hand' = some c)
    (hhand : ∀ c, hand' = some c → p'.Outside c ∧ ¬start.Outside c)
    (hheld : ∀ entry ∈ p.held, entry ∈ p'.held ∨ hand' = some entry.2.connection) :
    start.Sound known hand' p' where
  handles_nodup := hp.handles_nodup.sublist (h.held.map _)
  handles_lt entry hentry :=
    Nat.lt_of_lt_of_le (hp.handles_lt entry (h.held.subset hentry)) h.handles
  placed_nodup := hp.placed_nodup.sublist h.placed
  placed_le c hc := Nat.le_trans (hp.placed_le c (h.placed.subset hc)) h.attempts
  unopened c hc := by
    rw [h.history c]
    exact hp.unopened c (Nat.lt_of_le_of_lt h.attempts hc)
  speaks_lt k c hs := Nat.lt_of_lt_of_le (hp.speaks_lt k c (h.speaks hs)) h.handles
  speaks_held k holding c hmem hs := hp.speaks_held k holding c (h.held.subset hmem) (h.speaks hs)
  speaks_unique k c c' hs hs' := hp.speaks_unique k c c' (h.speaks hs) (h.speaks hs')
  idle_settled c hc := by
    rw [h.history c]
    exact hp.idle_settled c (h.idle.subset hc)
  held_fits k holding hmem := by
    rw [h.history]
    exact hp.held_fits k holding (h.held.subset hmem)
  in_hand := hhand
  outside_known c hc hne := by
    rw [h.history c]
    -- The connection was outside before, or idle, or nobody had asked for it.
    by_cases hplaced : c ∈ p.placed
    · rcases List.mem_append.1 hplaced with hidle | hmem
      · exact .inl (hp.idle_settled c hidle)
      · obtain ⟨⟨k, holding⟩, hentry, rfl⟩ := List.mem_map.1 hmem
        rcases hheld _ hentry with hentry' | hhand'
        · exact absurd (mem_placed hentry') hc.not_placed
        · exact absurd hhand' hne
    · rcases Nat.lt_or_ge p.attempts c with hlt | hle
      · rw [hp.unopened c hlt]
        exact .inl .nil
      · exact hp.outside_known c ⟨hle, hplaced⟩ fun heq => hne (hkeep c heq)
  gone c hc := by
    obtain ⟨houtside, hhistory⟩ := hp.gone c hc
    exact ⟨h.outside houtside, (h.history c).trans hhistory⟩

/-- The invariant, where nothing is taken from a handle. -/
theorem Sound.quiet (hp : start.Sound known hand p) (h : p.Quiet p') :
    start.Sound known hand p' := by
  refine hp.sheds h.sheds (fun _ => id) ?_ (fun entry hentry => .inl (h.held_eq ▸ hentry))
  intro c hc
  obtain ⟨houtside, hnew⟩ := hp.in_hand c hc
  exact ⟨h.sheds.outside houtside, hnew⟩

theorem Quiet.refl (p : Pool) : p.Quiet p :=
  ⟨⟨.refl _, .refl _, Nat.le_refl _, Nat.le_refl _, fun _ => rfl⟩, rfl⟩

theorem Quiet.trans (h : p.Quiet p') (h' : p'.Quiet p'') : p.Quiet p'' where
  sheds := {
    idle := h'.sheds.idle.trans h.sheds.idle
    held := h'.sheds.held.trans h.sheds.held
    attempts := Nat.le_trans h.sheds.attempts h'.sheds.attempts
    handles := Nat.le_trans h.sheds.handles h'.sheds.handles
    history := fun c => (h'.sheds.history c).trans (h.sheds.history c) }
  held_eq := h'.held_eq.trans h.held_eq

/-- Events that say nothing leave the histories as they are. -/
theorem quiet_record (p : Pool) {e : Event} (he : ∀ c, e.exchange? c = none) :
    p.Quiet (p.record e) :=
  ⟨⟨.refl _, .refl _, Nat.le_refl _, Nat.le_refl _, fun c => history_record_of_silent (he c)⟩, rfl⟩

/-- The counts of slots and of connections are none of the invariant's business. -/
theorem quiet_slots (p : Pool) (freeSlots size : Nat) :
    p.Quiet { p with freeSlots := freeSlots, size := size } :=
  ⟨⟨.refl _, .refl _, Nat.le_refl _, Nat.le_refl _, fun _ => rfl⟩, rfl⟩

theorem quiet_attempt (p : Pool) : p.Quiet { p with attempts := p.attempts + 1 } :=
  ⟨⟨.refl _, .refl _, Nat.le_succ _, Nat.le_refl _, fun _ => rfl⟩, rfl⟩

theorem quiet_nextHandle (p : Pool) : p.Quiet p.nextHandle.2 :=
  ⟨⟨.refl _, .refl _, Nat.le_refl _, Nat.le_succ _, fun _ => rfl⟩, rfl⟩

theorem quiet_discardBroken (p : Pool) : p.Quiet p.discardBroken :=
  ⟨⟨List.dropWhile_sublist _, .refl _, Nat.le_refl _, Nat.le_refl _, fun _ => rfl⟩, rfl⟩

theorem quiet_disconnect (p : Pool) (c : Connection) : p.Quiet (p.disconnect c) := by
  rw [disconnect]
  split
  · exact .refl p
  · exact quiet_record p fun _ => rfl

theorem quiet_detach (p : Pool) (c : Connection) : p.Quiet (p.detach c) :=
  (quiet_slots p _ _).trans (quiet_disconnect _ c)

theorem quiet_foldl_disconnect (cs : List Connection) (p : Pool) :
    p.Quiet (cs.foldl disconnect p) := by
  induction cs generalizing p with
  | nil => exact .refl p
  | cons c cs ih => exact (quiet_disconnect p c).trans (ih (p.disconnect c))

theorem quiet_close (p : Pool) : p.Quiet p.close := by
  have hclosed : p.Quiet
      { p with capacity := 0, closed := true, idle := [], size := p.size - p.idle.length } :=
    ⟨⟨List.nil_sublist _, .refl _, Nat.le_refl _, Nat.le_refl _, fun _ => rfl⟩, rfl⟩
  exact hclosed.trans (quiet_foldl_disconnect p.idle _)

/-! ## Hands -/

/-- A call takes a connection in hand that is outside of the pool. -/
theorem Sound.take (hp : start.Sound known none p) (hc : p.Outside c) (hnew : ¬start.Outside c) :
    start.Sound known (some c) p := by
  refine hp.sheds (Quiet.refl p).sheds (by simp) ?_ (fun entry hentry => .inl hentry)
  intro x hx
  rw [← Option.some.inj hx]
  exact ⟨hc, hnew⟩

/-- A call lets go of the connection in hand. -/
theorem Sound.letGo (hp : start.Sound known (some c) p)
    (hc : Settled (p.history c) ∨ ∃ h, Running h (p.history c) ∧ known h c) :
    start.Sound known none p :=
  { hp with
    in_hand := by simp
    outside_known := by
      intro x hx _
      by_cases hxc : x = c
      · rw [hxc]
        exact hc
      · exact hp.outside_known x hx fun heq => hxc (Option.some.inj heq).symm }

/-- What an attempt to open a connection gives: nothing, or the connection of the attempt. -/
theorem openConnection_cases (s : Server) (p : Pool) :
    (∃ e p', p.openConnection s = (.error e, p') ∧ p.Quiet p') ∨
      ∃ p', p.openConnection s = (.ok (p.attempts + 1), p') ∧ p.Quiet p' ∧
        p'.attempts = p.attempts + 1 := by
  have hopened := (quiet_attempt p).trans (quiet_record _ (e := .opened (p.attempts + 1))
    fun _ => rfl)
  have hclosed := (quiet_attempt p).trans (quiet_record _ (e := .closed (p.attempts + 1))
    fun _ => rfl)
  rw [openConnection]
  dsimp only
  split
  · exact .inr ⟨_, rfl, hopened.trans (quiet_slots _ _ _), rfl⟩
  · exact .inl ⟨_, _, rfl, hclosed⟩
  · exact .inl ⟨_, _, rfl, quiet_attempt p⟩

/-- A request gets nothing, or a connection that nobody else has and on which no
transaction is open. -/
theorem Sound.acquire_cases (hp : start.Sound known none p) (s : Server) :
    (∃ e p', p.acquire s = (.error e, p') ∧ start.Sound known none p') ∨
      ∃ c p', p.acquire s = (.ok c, p') ∧ start.Sound known (some c) p' ∧
        Settled (p'.history c) := by
  rw [acquire]
  split
  · exact .inl ⟨_, p, rfl, hp⟩
  split
  · exact .inl ⟨_, p, rfl, hp⟩
  have hclean := hp.quiet (quiet_discardBroken p)
  generalize p.discardBroken = q at hclean
  dsimp only
  split
  · rename_i c rest hidle
    have hquiet : q.Quiet { q with idle := rest, freeSlots := q.freeSlots - 1 } :=
      ⟨⟨by rw [hidle]; exact List.sublist_cons_self _ _, .refl _, Nat.le_refl _, Nat.le_refl _,
        fun _ => rfl⟩, rfl⟩
    have hplaced : q.placed = c :: (rest ++ q.held.map fun entry => entry.2.connection) := by
      rw [placed, hidle, List.cons_append]
    have hmem : c ∈ q.placed := hplaced ▸ List.mem_cons_self
    have hnodup := hclean.placed_nodup
    rw [hplaced, List.nodup_cons] at hnodup
    have hnew : ¬start.Outside c := fun hgone => (hclean.gone c hgone).1.not_placed hmem
    exact .inr ⟨c, _, rfl, (hclean.quiet hquiet).take ⟨hclean.placed_le c hmem, hnodup.1⟩ hnew,
      hclean.idle_settled c (hidle ▸ List.mem_cons_self)⟩
  · rcases openConnection_cases s q with ⟨e, p', heq, hquiet⟩ | ⟨p', heq, hquiet, hattempts⟩
    · exact .inl ⟨e, p', heq, hclean.quiet hquiet⟩
    · have hnone : q.history (q.attempts + 1) = [] :=
        hclean.unopened _ (Nat.lt_succ_self _)
      have houtside : p'.Outside (q.attempts + 1) := by
        refine ⟨Nat.le_of_eq hattempts.symm, fun hmem => ?_⟩
        exact Nat.not_succ_le_self _ (hclean.placed_le _ (hquiet.sheds.placed.subset hmem))
      have hnew : ¬start.Outside (q.attempts + 1) := fun hgone =>
        Nat.not_succ_le_self _ (hclean.gone _ hgone).1.attempted
      refine .inr ⟨_, p', heq, (hclean.quiet hquiet).take houtside hnew, ?_⟩
      rw [hquiet.sheds.history, hnone]
      exact .nil

/-! ## More -/

/-- A pool has got one more connection, and has the same histories. -/
structure Gains (p : Pool) (c : Connection) (p' : Pool) : Prop where
  attempts : p'.attempts = p.attempts
  placed : p'.placed.Perm (c :: p.placed)
  history : ∀ x, p'.history x = p.history x

theorem Gains.outside_iff {x : Connection} (hg : p.Gains c p') :
    p'.Outside x ↔ x ≠ c ∧ p.Outside x := by
  have hplaced : x ∉ p'.placed ↔ x ≠ c ∧ x ∉ p.placed := by
    rw [hg.placed.mem_iff, List.mem_cons, not_or]
  constructor
  · intro hx
    obtain ⟨hne, hnot⟩ := hplaced.1 hx.not_placed
    exact ⟨hne, hg.attempts ▸ hx.attempted, hnot⟩
  · intro hx
    exact ⟨hg.attempts ▸ hx.2.attempted, hplaced.2 ⟨hx.1, hx.2.not_placed⟩⟩

/-- What the connection in hand adds to the pool: everything that is not about who has it. -/
theorem Sound.gains (hp : start.Sound known (some c) p) (hg : p.Gains c p') :
    p'.placed.Nodup ∧ (∀ x ∈ p'.placed, x ≤ p'.attempts) ∧
      (∀ x, p'.Outside x → (none : Option Connection) ≠ some x →
        Settled (p'.history x) ∨ ∃ h, Running h (p'.history x) ∧ known h x) ∧
      ∀ x, start.Outside x → p'.Outside x ∧ p'.history x = start.history x := by
  obtain ⟨hc, hnew⟩ := hp.in_hand c rfl
  refine ⟨?_, ?_, ?_, ?_⟩
  · exact hg.placed.nodup_iff.2 (List.nodup_cons.2 ⟨hc.not_placed, hp.placed_nodup⟩)
  · intro x hx
    rw [hg.attempts]
    rcases List.mem_cons.1 (hg.placed.mem_iff.1 hx) with heq | hx
    · exact heq ▸ hc.attempted
    · exact hp.placed_le x hx
  · intro x hx _
    obtain ⟨hne, hx⟩ := hg.outside_iff.1 hx
    rw [hg.history x]
    exact hp.outside_known x hx fun heq => hne (Option.some.inj heq).symm
  · intro x hx
    obtain ⟨hpast, hhistory⟩ := hp.gone x hx
    have hne : x ≠ c := fun heq => hnew (heq ▸ hx)
    exact ⟨hg.outside_iff.2 ⟨hne, hpast⟩, (hg.history x).trans hhistory⟩

/-- A connection without an open transaction goes back to the pool. -/
theorem Sound.release (hp : start.Sound known (some c) p) (hs : Settled (p.history c)) :
    start.Sound known none (p.release c) := by
  rw [Pool.release]
  dsimp only
  split
  · exact (hp.letGo (.inl hs)).quiet ((quiet_slots p _ _).trans (quiet_disconnect _ c))
  · have hgains : p.Gains c { p with freeSlots := p.freeSlots + 1, idle := p.idle ++ [c] } := by
      refine ⟨rfl, ?_, fun _ => rfl⟩
      rw [placed, List.append_assoc]
      exact List.perm_middle
    obtain ⟨hnodup, hle, hknown, hgone⟩ := hp.gains hgains
    exact { hp with
      placed_nodup := hnodup
      placed_le := hle
      idle_settled := by
        intro y hy
        rcases List.mem_append.1 hy with hy | hy
        · exact hp.idle_settled y hy
        · exact List.mem_singleton.1 hy ▸ hs
      in_hand := by simp
      outside_known := hknown
      gone := hgone }

/-- A handle that holds nothing yet takes hold of the connection in hand. -/
theorem Sound.hold (holding : Holding) (hp : start.Sound known (some holding.connection) p)
    (hlt : h < p.handles) (hunheld : ∀ entry ∈ p.held, entry.1 ≠ h)
    (hfits : holding.Fits h (p.history holding.connection))
    (hspeaks : ∀ c, p.Speaks h c → c = holding.connection) :
    start.Sound known none (p.hold h holding) := by
  have hmem : ∀ k held, (k, held) ∈ (p.hold h holding).held →
      (k, held) ∈ p.held ∨ k = h ∧ held = holding := by
    intro k held hentry
    rcases List.mem_append.1 hentry with hentry | hentry
    · exact .inl hentry
    · exact .inr (Prod.mk.inj (List.mem_singleton.1 hentry))
  have hgains : p.Gains holding.connection (p.hold h holding) := by
    refine ⟨rfl, ?_, fun _ => rfl⟩
    rw [placed, placed, Pool.hold, List.map_append, ← List.append_assoc]
    exact List.perm_append_singleton _ _
  obtain ⟨hnodup, hle, hknown, hgone⟩ := hp.gains hgains
  exact { hp with
    handles_nodup := by
      show ((p.held ++ [(h, holding)]).map Prod.fst).Nodup
      rw [List.map_append, List.map_singleton, List.nodup_middle, List.append_nil,
        List.nodup_cons]
      refine ⟨?_, hp.handles_nodup⟩
      intro hfst
      obtain ⟨entry, hentry, heq⟩ := List.mem_map.1 hfst
      exact hunheld entry hentry heq
    handles_lt := by
      intro entry hentry
      rcases hmem entry.1 entry.2 hentry with hentry | ⟨hk, -⟩
      · exact hp.handles_lt _ hentry
      · exact hk ▸ hlt
    placed_nodup := hnodup
    placed_le := hle
    speaks_held := by
      intro k held y hentry hy
      rcases hmem k held hentry with hentry | ⟨rfl, rfl⟩
      · exact hp.speaks_held k held y hentry hy
      · exact hspeaks y hy
    held_fits := by
      intro k held hentry
      rcases hmem k held hentry with hentry | ⟨rfl, rfl⟩
      · exact hp.held_fits k held hentry
      · exact hfits
    in_hand := by simp
    outside_known := hknown
    gone := hgone }

/-! ## Statements -/

theorem Hears.placed {e : Exchange} (hh : p.Hears c e p') : p'.placed = p.placed := by
  rw [Pool.placed, Pool.placed, hh.idle, hh.held]

theorem Hears.outside_iff {e : Exchange} {x : Connection} (hh : p.Hears c e p') :
    p'.Outside x ↔ p.Outside x := by
  constructor
  · exact fun hx => ⟨hh.attempts ▸ hx.attempted, hh.placed ▸ hx.not_placed⟩
  · exact fun hx => ⟨hh.attempts ▸ hx.attempted, hh.placed ▸ hx.not_placed⟩

/-- Who has spoken: the speaker of the exchange, or somebody who had spoken before. -/
theorem Hears.speaks {e : Exchange} {k : Handle} {x : Connection} (hh : p.Hears c e p')
    (hs : p'.Speaks k x) : p.Speaks k x ∨ x = c ∧ e.speaker = .transaction k := by
  obtain ⟨e', he', hspeaker⟩ := hs
  by_cases hx : x = c
  · rw [hx, hh.history_self] at he'
    rcases List.mem_append.1 he' with he' | he'
    · exact .inl ⟨e', hx ▸ he', hspeaker⟩
    · exact .inr ⟨hx, List.mem_singleton.1 he' ▸ hspeaker⟩
  · rw [hh.history_other x hx] at he'
    exact .inl ⟨e', he', hspeaker⟩

/-- A statement on a connection that is held or in hand keeps the invariant, if the history
stays one of the holder, and if a transaction speaks on its own connection. -/
theorem Sound.hears {e : Exchange} (hp : start.Sound known hand p) (hh : p.Hears c e p')
    (hidle : c ∉ p.idle) (hle : c ≤ p.attempts) (hnew : ¬start.Outside c)
    (hhand : p.Outside c → hand = some c)
    (hheld : ∀ k holding, (k, holding) ∈ p.held → holding.connection = c →
      holding.Fits k (p.history c ++ [e]))
    (hspeaker : ∀ k, e.speaker = .transaction k → k < p.handles ∧
      (∀ x, p.Speaks k x → x = c) ∧ ∀ holding, (k, holding) ∈ p.held → holding.connection = c) :
    start.Sound known hand p' where
  handles_nodup := hh.held ▸ hp.handles_nodup
  handles_lt := hh.held ▸ hh.handles ▸ hp.handles_lt
  placed_nodup := hh.placed ▸ hp.placed_nodup
  placed_le := hh.placed ▸ hh.attempts ▸ hp.placed_le
  unopened x hx := by
    rw [hh.attempts] at hx
    rw [hh.history_other x (Nat.ne_of_gt (Nat.lt_of_le_of_lt hle hx))]
    exact hp.unopened x hx
  speaks_lt k x hs := by
    rw [hh.handles]
    rcases hh.speaks hs with hs | ⟨-, hs⟩
    · exact hp.speaks_lt k x hs
    · exact (hspeaker k hs).1
  speaks_held k holding x hentry hs := by
    rw [hh.held] at hentry
    rcases hh.speaks hs with hs | ⟨hx, hs⟩
    · exact hp.speaks_held k holding x hentry hs
    · exact hx.trans ((hspeaker k hs).2.2 holding hentry).symm
  speaks_unique k x x' hs hs' := by
    rcases hh.speaks hs with hs | ⟨hx, hs⟩ <;> rcases hh.speaks hs' with hs' | ⟨hx', hs'⟩
    · exact hp.speaks_unique k x x' hs hs'
    · exact ((hspeaker k hs').2.1 x hs).trans hx'.symm
    · exact hx.trans ((hspeaker k hs).2.1 x' hs').symm
    · exact hx.trans hx'.symm
  idle_settled x hx := by
    rw [hh.idle] at hx
    rw [hh.history_other x (fun heq => hidle (heq ▸ hx))]
    exact hp.idle_settled x hx
  held_fits k holding hentry := by
    rw [hh.held] at hentry
    by_cases hx : holding.connection = c
    · rw [hx, hh.history_self]
      exact hheld k holding hentry hx
    · rw [hh.history_other _ hx]
      exact hp.held_fits k holding hentry
  in_hand x hx := by
    obtain ⟨houtside, hx⟩ := hp.in_hand x hx
    exact ⟨hh.outside_iff.2 houtside, hx⟩
  outside_known x hx hne := by
    have hx := hh.outside_iff.1 hx
    rw [hh.history_other x fun heq => hne (heq ▸ hhand (heq ▸ hx))]
    exact hp.outside_known x hx hne
  gone x hx := by
    obtain ⟨houtside, hhistory⟩ := hp.gone x hx
    have hne : x ≠ c := fun heq => hnew (heq ▸ hx)
    exact ⟨hh.outside_iff.2 houtside, (hh.history_other x hne).trans hhistory⟩

end Pool

end SqlCompose
