import SqlCompose.Proofs.Pool.Holders

/-!
# Operations keep the invariant

Every operation of a pool keeps `Pool.Sound`, whatever the server replies
(`Pool.preserved_sound`).  A connection goes back to the pool only where its
history is settled: from a client, after a statement of the pool, after a
failed `BEGIN`, and after a successful `COMMIT` or `ROLLBACK`.

The lemmas before the operations are about handles (`Sound.forget` strikes one
out), about who may speak on a connection (`Sound.hears_held`,
`Sound.hears_inHand`), and about handles that are new (`Unused`).
-/

namespace SqlCompose

namespace Pool

variable {s : Server} {start p p' : Pool} {known : Handle → Connection → Prop}
  {hand : Option Connection} {c : Connection} {h : Handle} {holding : Holding}

/-! ## What handles hold -/

theorem mem_held_of_holding? (hh : p.holding? h = some holding) : (h, holding) ∈ p.held := by
  obtain ⟨before, after, heq, -⟩ := List.lookup_eq_some_iff.1 hh
  rw [heq]
  exact List.mem_append_right _ List.mem_cons_self

namespace Sound

/-- A handle holds one thing. -/
theorem eq_of_handle {holding' : Holding} (hp : start.Sound known hand p)
    (hmem : (h, holding) ∈ p.held) (hmem' : (h, holding') ∈ p.held) : holding' = holding := by
  have heq := List.inj_on_of_nodup_map hp.handles_nodup hmem' hmem rfl
  exact (Prod.mk.inj heq).2

theorem holding?_of_mem (hp : start.Sound known hand p) (hmem : (h, holding) ∈ p.held) :
    p.holding? h = some holding := by
  cases hh : p.holding? h with
  | none => exact absurd rfl (bne_iff_ne.1 (List.lookup_eq_none_iff.1 hh _ hmem))
  | some holding' => rw [hp.eq_of_handle hmem (mem_held_of_holding? hh)]

/-- A connection is held by one handle. -/
theorem eq_of_connection {k : Handle} {holding' : Holding} (hp : start.Sound known hand p)
    (hmem : (h, holding) ∈ p.held) (hmem' : (k, holding') ∈ p.held)
    (hc : holding'.connection = holding.connection) : k = h ∧ holding' = holding := by
  have hnodup := (List.nodup_append.1 hp.placed_nodup).2.1
  exact Prod.mk.inj (List.inj_on_of_nodup_map hnodup hmem' hmem hc)

theorem not_mem_idle (hp : start.Sound known hand p) (hmem : (h, holding) ∈ p.held) :
    holding.connection ∉ p.idle := by
  intro hidle
  have hdisjoint := (List.nodup_append.1 hp.placed_nodup).2.2
  exact hdisjoint _ hidle _ (List.mem_map_of_mem hmem) rfl

theorem not_gone (hp : start.Sound known hand p) (hmem : (h, holding) ∈ p.held) :
    ¬start.Outside holding.connection :=
  fun hgone => (hp.gone _ hgone).1.not_placed (mem_placed hmem)

theorem sheds_forget (p : Pool) (h : Handle) : p.Sheds (p.forget h) :=
  ⟨.refl _, List.filter_sublist, Nat.le_refl _, Nat.le_refl _, fun _ => rfl⟩

theorem outside_forget (hp : start.Sound known hand p) (hmem : (h, holding) ∈ p.held) :
    (p.forget h).Outside holding.connection := by
  refine ⟨hp.placed_le _ (mem_placed hmem), ?_⟩
  intro hplaced
  rcases List.mem_append.1 hplaced with hidle | hheld
  · exact hp.not_mem_idle hmem hidle
  · obtain ⟨⟨k, holding'⟩, hfilter, hc⟩ := List.mem_map.1 hheld
    obtain ⟨hmem', hne⟩ := List.mem_filter.1 hfilter
    exact (bne_iff_ne.1 hne) (hp.eq_of_connection hmem hmem' hc).1

/-- A handle that is struck out leaves its connection in the hands of the call. -/
theorem forget (hp : start.Sound known none p) (hmem : (h, holding) ∈ p.held) :
    start.Sound known (some holding.connection) (p.forget h) := by
  refine hp.sheds (sheds_forget p h) (by simp) ?_ ?_
  · intro c hc
    rw [← Option.some.inj hc]
    exact ⟨hp.outside_forget hmem, hp.not_gone hmem⟩
  · intro entry hentry
    by_cases hk : entry.1 = h
    · have heq := List.inj_on_of_nodup_map hp.handles_nodup hentry hmem hk
      exact .inr (by rw [heq])
    · exact .inl (List.mem_filter.2 ⟨hentry, bne_iff_ne.2 hk⟩)

/-! ## Statements on a connection -/

/-- A handle speaks on the connection that it holds. -/
theorem hears_held {sql : Text} {reply : Reply} (hp : start.Sound known none p)
    (hmem : (h, holding) ∈ p.held)
    (hh : p.Hears holding.connection ⟨holding.speaker h, sql, reply⟩ p') :
    start.Sound known none p' := by
  refine hp.hears hh (hp.not_mem_idle hmem) (hp.placed_le _ (mem_placed hmem))
    (hp.not_gone hmem) ?_ ?_ ?_
  · exact fun houtside => absurd (mem_placed hmem) houtside.not_placed
  · intro k holding' hmem' hc
    obtain ⟨rfl, rfl⟩ := hp.eq_of_connection hmem hmem' hc
    exact (hp.held_fits _ _ hmem).snoc sql reply
  · intro k hspeaker
    cases holding with
    | client c => cases hspeaker
    | transaction c =>
      cases hspeaker
      refine ⟨hp.handles_lt _ hmem, fun x hs => hp.speaks_held _ _ x hmem hs, ?_⟩
      intro holding' hmem'
      rw [hp.eq_of_handle hmem hmem']

/-- A statement on the connection in hand. -/
theorem hears_inHand {e : Exchange} (hp : start.Sound known (some c) p) (hh : p.Hears c e p')
    (hspeaker : ∀ k, e.speaker = .transaction k → k < p.handles ∧
      (∀ x, p.Speaks k x → x = c) ∧ ∀ entry ∈ p.held, entry.1 ≠ k) :
    start.Sound known (some c) p' := by
  obtain ⟨houtside, hnew⟩ := hp.in_hand c rfl
  refine hp.hears hh ?_ houtside.attempted hnew (fun _ => rfl) ?_ ?_
  · exact fun hidle => houtside.not_placed (List.mem_append_left _ hidle)
  · intro k holding hmem hc
    exact absurd (hc ▸ mem_placed hmem) houtside.not_placed
  · intro k hk
    obtain ⟨hlt, hspeaks, hunheld⟩ := hspeaker k hk
    exact ⟨hlt, hspeaks, fun holding hmem => absurd rfl (hunheld _ hmem)⟩

end Sound

/-! ## New handles -/

/-- A handle that was given, but that nothing is held with and nobody has spoken for. -/
structure Unused (p : Pool) (h : Handle) : Prop where
  lt : h < p.handles
  not_held : ∀ entry ∈ p.held, entry.1 ≠ h
  mute : ∀ c, ¬p.Speaks h c

namespace Sound

theorem unused_nextHandle (hp : start.Sound known hand p) :
    p.nextHandle.2.Unused p.nextHandle.1 where
  lt := Nat.lt_succ_self _
  not_held entry hentry := Nat.ne_of_lt (hp.handles_lt entry hentry)
  mute c hspeaks := Nat.lt_irrefl _ (hp.speaks_lt _ c ((quiet_nextHandle p).sheds.speaks hspeaks))

/-- What is said in the name of an unused handle is said on one connection. -/
theorem hears_unused {sql : Text} {reply : Reply} (hp : start.Sound known (some c) p)
    (hu : p.Unused h) (hh : p.Hears c ⟨.transaction h, sql, reply⟩ p') :
    start.Sound known (some c) p' := by
  refine hp.hears_inHand hh ?_
  intro k hk
  cases hk
  exact ⟨hu.lt, fun x hspeaks => absurd hspeaks (hu.mute x), hu.not_held⟩

/-! ## Operations -/

theorem get (hp : start.Sound known none p) (s : Server) :
    start.Sound known none (p.get s).2 := by
  rw [Pool.get]
  rcases hp.acquire_cases s with ⟨e, p₁, heq, hp₁⟩ | ⟨c, p₁, heq, hp₁, hs⟩
  · rw [heq]
    exact hp₁
  · rw [heq]
    have hu := hp₁.unused_nextHandle
    have hp₂ := hp₁.quiet (quiet_nextHandle p₁)
    exact hp₂.hold (.client c) hu.lt hu.not_held hs
      fun x hspeaks => absurd hspeaks (hu.mute x)

theorem begin (hp : start.Sound known none p) (s : Server) :
    start.Sound known none (p.begin s).2 := by
  rw [Pool.begin]
  rcases hp.acquire_cases s with ⟨e, p₁, heq, hp₁⟩ | ⟨c, p₁, heq, hp₁, hs⟩
  · rw [heq]
    exact hp₁
  · rw [heq]
    have hquiet := quiet_nextHandle p₁
    have hp₂ := hp₁.quiet hquiet
    have hu := hp₁.unused_nextHandle
    rw [← hquiet.sheds.history c] at hs
    dsimp only
    generalize p₁.nextHandle = next at hp₂ hs hu ⊢
    obtain ⟨h, p₂⟩ := next
    dsimp only at hp₂ hs hu ⊢
    have hnew : IsNew h (p₂.history c) := fun e he hspeaker => hu.mute c ⟨e, he, hspeaker⟩
    rcases issue_cases s (.transaction h) c "BEGIN" p₂ with
      ⟨e, hissue⟩ | ⟨set, p₃, hissue, hh⟩ | ⟨e, reply, p₃, hissue, hh, hreply⟩
    · rw [hissue]
      exact hp₂.release hs
    · rw [hissue]
      have hrunning := hs.begin hnew set
      rw [← hh.history_self] at hrunning
      refine (hp₂.hears_unused hu hh).hold (.transaction c)
        (hh.handles ▸ hu.lt) (hh.held ▸ hu.not_held) hrunning ?_
      intro x hspeaks
      rcases hh.speaks hspeaks with hspeaks | ⟨hx, -⟩
      · exact absurd hspeaks (hu.mute x)
      · exact hx
    · rw [hissue]
      have hsettled := hs.failed hnew hreply
      rw [← hh.history_self] at hsettled
      exact (hp₂.hears_unused hu hh).release hsettled

theorem drop (hp : start.Sound known none p)
    (hknown : ∀ c, p.holding? h = some (.transaction c) → known h c) :
    start.Sound known none (p.drop h) := by
  rw [Pool.drop]
  split
  · rename_i c hheld
    have hmem := mem_held_of_holding? hheld
    exact Sound.release (hp.forget hmem) (hp.held_fits h _ hmem)
  · rename_i c hheld
    have hmem := mem_held_of_holding? hheld
    have hlost : start.Sound known (some c) (p.forget h) := hp.forget hmem
    exact (hlost.letGo (.inr ⟨h, hp.held_fits h _ hmem, hknown c hheld⟩)).quiet (quiet_detach _ c)
  · exact hp

theorem finish {sql : Text} (hp : start.Sound known none p) (s : Server) (hsql : IsEnding sql)
    (hknown : ∀ c e, p.holding? h = some (.transaction c) →
      (p.finish s sql h).1 = .error e → known h c) :
    start.Sound known none (p.finish s sql h).2 := by
  rw [Pool.finish]
  split
  · rename_i c hheld
    have hfailed : ∀ {e p₂}, (p.forget h).issue s (.transaction h) c sql = (.error e, p₂) →
        known h c := by
      intro e p₂ hissue
      refine hknown c (.query e) hheld ?_
      rw [Pool.finish, hheld]
      dsimp only
      rw [hissue]
    have hmem := mem_held_of_holding? hheld
    have hrunning : Running h ((p.forget h).history c) := hp.held_fits h _ hmem
    have hp₁ : start.Sound known (some c) (p.forget h) := hp.forget hmem
    have hspeaker : ∀ k, Speaker.transaction h = .transaction k → k < (p.forget h).handles ∧
        (∀ x, (p.forget h).Speaks k x → x = c) ∧ ∀ entry ∈ (p.forget h).held, entry.1 ≠ k := by
      intro k hk
      cases hk
      refine ⟨hp.handles_lt _ hmem, fun x hspeaks => hp.speaks_held _ _ x hmem hspeaks, ?_⟩
      intro entry hentry
      exact bne_iff_ne.1 (List.mem_filter.1 hentry).2
    rcases issue_cases s (.transaction h) c sql (p.forget h) with
      ⟨e, hissue⟩ | ⟨set, p₂, hissue, hh⟩ | ⟨e, reply, p₂, hissue, hh, -⟩
    · rw [hissue]
      exact (hp₁.letGo (.inr ⟨h, hrunning, hfailed hissue⟩)).quiet (quiet_detach _ c)
    · rw [hissue]
      have hsettled := hrunning.settle hsql set
      rw [← hh.history_self] at hsettled
      exact (hp₁.hears_inHand hh hspeaker).release hsettled
    · rw [hissue]
      have hended : Running h (p₂.history c) := hh.history_self ▸ hrunning.snoc rfl
      exact ((hp₁.hears_inHand hh hspeaker).letGo
        (.inr ⟨h, hended, hfailed hissue⟩)).quiet (quiet_detach _ c)
  · exact hp

/-- A handle issues a statement. -/
theorem issue_held (hp : start.Sound known none p) (s : Server) (hmem : (h, holding) ∈ p.held)
    (sql : Text) :
    start.Sound known none (p.issue s (holding.speaker h) holding.connection sql).2 := by
  rcases issue_state s (holding.speaker h) holding.connection sql p with heq | ⟨reply, hh⟩
  · rw [heq]
    exact hp
  · exact hp.hears_held hmem hh

/-- The pool issues a statement of its own. -/
theorem issue_pool (hp : start.Sound known (some c) p) (s : Server) (hs : Settled (p.history c))
    (sql : Text) : start.Sound known (some c) (p.issue s .pool c sql).2 ∧
      Settled ((p.issue s .pool c sql).2.history c) := by
  rcases issue_state s .pool c sql p with heq | ⟨reply, hh⟩
  · rw [heq]
    exact ⟨hp, hs⟩
  · refine ⟨hp.hears_inHand hh (by simp), ?_⟩
    rw [hh.history_self]
    exact hs.single (by simp)

theorem statement (hp : start.Sound known none p) (s : Server) (target : Target) (sql : Text) :
    start.Sound known none (p.statement s target sql).2 := by
  cases target with
  | pool =>
    rw [Pool.statement]
    rcases hp.acquire_cases s with ⟨e, p₁, heq, hp₁⟩ | ⟨c, p₁, heq, hp₁, hs₁⟩
    · rw [heq]
      exact hp₁
    · rw [heq]
      obtain ⟨hp₂, hs₂⟩ := hp₁.issue_pool s hs₁ sql
      exact hp₂.release hs₂
  | handle h =>
    rw [Pool.statement]
    split
    · rename_i hheld
      exact hp.issue_held s (mem_held_of_holding? hheld) sql
    · rename_i hheld
      exact hp.issue_held s (mem_held_of_holding? hheld) sql
    · exact hp

theorem ofCapacity (known : Handle → Connection → Prop) (capacity : Nat) :
    (Pool.ofCapacity capacity).Sound known none (Pool.ofCapacity capacity) where
  handles_nodup := List.nodup_nil
  handles_lt := by simp [Pool.ofCapacity]
  placed_nodup := List.nodup_nil
  placed_le := by simp [Pool.ofCapacity, placed]
  unopened _ _ := rfl
  speaks_lt := by simp [Pool.ofCapacity, Speaks, history]
  speaks_held := by simp [Pool.ofCapacity]
  speaks_unique := by simp [Pool.ofCapacity, Speaks, history]
  idle_settled := by simp [Pool.ofCapacity]
  held_fits := by simp [Pool.ofCapacity]
  in_hand := by simp
  outside_known _ _ _ := .inl .nil
  gone _ hc := ⟨hc, rfl⟩

end Sound

/-- Every operation keeps the invariant. -/
theorem preserved_sound (s : Server) (start : Pool) (known : Handle → Connection → Prop) :
    Preserved s known (start.Sound known none) where
  get hp := hp.get s
  begin hp := hp.begin s
  finish hsql hp hknown := hp.finish s hsql hknown
  drop hp hknown := hp.drop hknown
  close hp := hp.quiet (quiet_close _)
  statement target sql hp := hp.statement s target sql

end Pool

end SqlCompose
