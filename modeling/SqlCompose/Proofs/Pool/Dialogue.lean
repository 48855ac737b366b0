import SqlCompose.Proofs.Pool.Slots

/-!
# What is said in a transaction

A `Dialogue` is what was asked of a transaction, with the answers.  The server
hears all of it up to a statement that it hangs up on (`Conveyed`).

`Underway` is the invariant of an open transaction: its dialogue is what was
said on its connection since it began (`Told`), whatever else is done with the
pool.  There are three groups of lemmas.

* `Still` relates pools between which nothing was said on a connection, as it
  is with every operation that names other handles.
* `underway_others` is the invariant under what others do, and
  `Underway.statement` under the statements of the transaction.
* `Underway.finish` is what is left when the transaction has ended.
-/

namespace SqlCompose

/-- What was asked of a transaction, with the answers. -/
abbrev Dialogue := List (Text × Except Error ResultSet)

/-- How a dialogue comes through to the server: every statement with its reply, up to one that
the server hangs up on.  Behind that the connection is closed. -/
inductive Conveyed (h : Handle) : Dialogue → List Exchange → Prop
  | nil : Conveyed h [] []
  | reached {dialogue : Dialogue} {said : List Exchange} (sql : Text) (reply : Reply)
      (hd : Conveyed h dialogue said) (hopen : ∀ e ∈ said, e.reply ≠ .hangup) :
      Conveyed h (dialogue ++ [(sql, reply.outcome.mapError .query)])
        (said ++ [⟨.transaction h, sql, reply⟩])
  | lost {dialogue : Dialogue} {said : List Exchange} (sql : Text) (hd : Conveyed h dialogue said)
      (hclosed : ∃ e ∈ said, e.reply = .hangup) :
      Conveyed h (dialogue ++ [(sql, .error (.query .connectionClosed))]) said

theorem Conveyed.speaker {h : Handle} {dialogue : Dialogue} {said : List Exchange}
    (hc : Conveyed h dialogue said) : ∀ e ∈ said, e.speaker = .transaction h := by
  induction hc with
  | nil => simp
  | reached sql reply _ _ ih =>
    intro e he
    rcases List.mem_append.1 he with he | he
    · exact ih e he
    · rw [List.mem_singleton.1 he]
  | lost sql _ _ ih => exact ih

/-- The first statement of a dialogue always comes through. -/
theorem Conveyed.exists_speaker {h : Handle} {dialogue : Dialogue} {said : List Exchange}
    (hc : Conveyed h dialogue said) (hne : dialogue ≠ []) :
    ∃ e ∈ said, e.speaker = .transaction h := by
  cases hc with
  | nil => exact absurd rfl hne
  | reached sql reply _ _ => exact ⟨_, List.mem_append_right _ List.mem_cons_self, rfl⟩
  | lost sql hd hclosed =>
    obtain ⟨e, he, -⟩ := hclosed
    exact ⟨e, he, hd.speaker e he⟩

namespace Pool

variable {s : Server} {start p p' p'' : Pool} {known : Handle → Connection → Prop}
  {hand : Option Connection} {c c' : Connection} {h k : Handle} {holding : Holding} {n : Nat}
  {earlier : List Exchange} {dialogue : Dialogue} {sql : Text}

/-! ## Silence -/

/-- Nothing was said on a connection, and the server has not closed it. -/
structure Still (c : Connection) (p p' : Pool) : Prop where
  history : p'.history c = p.history c
  broken : c ∈ p'.broken ↔ c ∈ p.broken

theorem Still.refl (c : Connection) (p : Pool) : Still c p p := ⟨rfl, Iff.rfl⟩

theorem Still.trans (h : Still c p p') (h' : Still c p' p'') : Still c p p'' :=
  ⟨h'.history.trans h.history, h'.broken.trans h.broken⟩

/-- Where nothing happens at all, nothing is said. -/
theorem Still.of_eq (hlog : p'.log = p.log) (hbroken : p'.broken = p.broken) : Still c p p' :=
  ⟨by rw [Pool.history, hlog, Pool.history], by rw [hbroken]⟩

theorem Still.since (h : Still c p' p'') (hlog : p'.log = p.log) (hbroken : p'.broken = p.broken) :
    Still c p p'' :=
  (Still.of_eq hlog hbroken).trans h

theorem still_disconnect (c : Connection) (p : Pool) (c' : Connection) :
    Still c p (p.disconnect c') := by
  rw [disconnect]
  split
  · exact .refl c p
  · exact ⟨history_record_of_silent rfl, Iff.rfl⟩

theorem still_release (c : Connection) (p : Pool) (c' : Connection) :
    Still c p (p.release c') := by
  rw [release]
  dsimp only
  split
  · exact (still_disconnect c _ c').since rfl rfl
  · exact .of_eq rfl rfl

theorem still_detach (c : Connection) (p : Pool) (c' : Connection) : Still c p (p.detach c') :=
  (still_disconnect c _ c').since rfl rfl

theorem still_close (c : Connection) (p : Pool) : Still c p p.close := by
  have hfold : ∀ (cs : List Connection) (q : Pool), Still c q (cs.foldl disconnect q) := by
    intro cs
    induction cs with
    | nil => exact fun q => .refl c q
    | cons c' cs ih => exact fun q => (still_disconnect c q c').trans (ih _)
  exact (hfold p.idle _).since rfl rfl

theorem still_acquire (c : Connection) (s : Server) (p : Pool) : Still c p (p.acquire s).2 := by
  rw [acquire]
  split
  · exact .refl c p
  split
  · exact .refl c p
  dsimp only
  split
  · exact ⟨rfl, Iff.rfl⟩
  · rw [openConnection]
    dsimp only
    split
    · exact ⟨history_record_of_silent rfl, Iff.rfl⟩
    · exact ⟨history_record_of_silent rfl, Iff.rfl⟩
    · exact ⟨rfl, Iff.rfl⟩

/-- A statement on one connection is not heard on the others. -/
theorem still_issue (s : Server) (speaker : Speaker) (sql : Text) (p : Pool) (hne : c' ≠ c) :
    Still c p (p.issue s speaker c' sql).2 := by
  by_cases hbroken : c' ∈ p.broken
  · rw [issue_of_broken s speaker sql hbroken]
    exact .refl c p
  · obtain ⟨reply, p', hissue, hh, hp'⟩ := issue_of_not_broken s speaker sql hbroken
    rw [hissue]
    refine ⟨hh.history_other c hne.symm, ?_⟩
    show c ∈ p'.broken ↔ c ∈ p.broken
    rw [hp']
    split
    · exact ⟨fun hc => (List.mem_cons.1 hc).resolve_left hne.symm, List.mem_cons_of_mem _⟩
    · exact Iff.rfl

/-! ## Operations of others -/

/-- A request gets a connection that no handle holds. -/
theorem Sound.acquire_ne (hp : start.Sound known none p) (hmem : (h, holding) ∈ p.held)
    (hacquire : p.acquire s = (.ok c, p')) : c ≠ holding.connection := by
  rcases hp.acquire_cases s with ⟨e, p₁, heq, -⟩ | ⟨c₁, p₁, heq, hp₁, -⟩
  · rw [heq] at hacquire
    cases hacquire
  rw [heq] at hacquire
  cases hacquire
  rcases acquire_ledger s p with ⟨e, p₂, heq', -⟩ | ⟨c₂, p₂, heq', -, hl⟩
  · rw [heq] at heq'
    cases heq'
  rw [heq] at heq'
  cases heq'
  have hheld : p'.held = p.held := congrArg Ledger.held hl
  rintro rfl
  exact (hp₁.in_hand _ rfl).1.not_placed (mem_placed (hheld ▸ hmem))

theorem still_get (c : Connection) (s : Server) (p : Pool) : Still c p (p.get s).2 := by
  have hacquire := still_acquire c s p
  rw [get]
  generalize p.acquire s = acquired at hacquire ⊢
  obtain ⟨e | c', p₁⟩ := acquired
  · exact hacquire
  · exact hacquire.trans (.of_eq rfl rfl)

theorem Sound.still_begin (hp : start.Sound known none p) (hmem : (h, holding) ∈ p.held)
    (s : Server) : Still holding.connection p (p.begin s).2 := by
  have hacquire := still_acquire holding.connection s p
  rw [Pool.begin]
  rcases heq : p.acquire s with ⟨e | c', p₁⟩
  · rwa [heq] at hacquire
  · have hne := hp.acquire_ne hmem heq
    rw [heq] at hacquire
    dsimp only at hacquire ⊢
    have hissue := still_issue s (.transaction p₁.nextHandle.1) "BEGIN" p₁.nextHandle.2 hne
    have hfirst : Still holding.connection p p₁.nextHandle.2 := hacquire.trans (.of_eq rfl rfl)
    generalize p₁.nextHandle.2.issue s (.transaction p₁.nextHandle.1) c' "BEGIN" = issued
      at hissue ⊢
    obtain ⟨e | set, p₂⟩ := issued
    · exact (hfirst.trans hissue).trans (still_release _ p₂ c')
    · exact (hfirst.trans hissue).trans (.of_eq rfl rfl)

theorem still_drop (c : Connection) (p : Pool) (h : Handle) : Still c p (p.drop h) := by
  rw [drop]
  split
  · exact (still_release c (p.forget h) _).since rfl rfl
  · exact (still_detach c (p.forget h) _).since rfl rfl
  · exact .refl c p

theorem Sound.still_finish (hp : start.Sound known none p) (hmem : (h, holding) ∈ p.held)
    (hne : k ≠ h) (s : Server) (sql : Text) :
    Still holding.connection p (p.finish s sql k).2 := by
  rw [Pool.finish]
  split
  · rename_i c' hheld
    have hother : c' ≠ holding.connection := by
      rintro rfl
      exact hne (hp.eq_of_connection hmem (mem_held_of_holding? hheld) rfl).1
    have hissue := still_issue s (.transaction k) sql (p.forget k) hother
    generalize (p.forget k).issue s (.transaction k) c' sql = issued at hissue ⊢
    obtain ⟨e | set, p₁⟩ := issued
    · exact (hissue.trans (still_detach _ p₁ c')).since rfl rfl
    · exact (hissue.trans (still_release _ p₁ c')).since rfl rfl
  · exact .refl _ p

theorem Sound.still_statement {target : Target} (hp : start.Sound known none p)
    (hmem : (h, holding) ∈ p.held) (hne : ∀ k, target.handle? = some k → k ≠ h) (s : Server)
    (sql : Text) : Still holding.connection p (p.statement s target sql).2 := by
  cases target with
  | pool =>
    have hacquire := still_acquire holding.connection s p
    rw [Pool.statement]
    rcases heq : p.acquire s with ⟨e | c', p₁⟩
    · rwa [heq] at hacquire
    · have hother := hp.acquire_ne hmem heq
      rw [heq] at hacquire
      exact (hacquire.trans (still_issue s .pool sql p₁ hother)).trans (still_release _ _ c')
  | handle k =>
    have hother : ∀ {holding' : Holding}, p.holding? k = some holding' →
        holding'.connection ≠ holding.connection := fun hheld heq =>
      hne k rfl (hp.eq_of_connection hmem (mem_held_of_holding? hheld) heq).1
    rw [Pool.statement]
    split
    · rename_i hheld
      exact still_issue s _ sql p (hother hheld)
    · rename_i hheld
      exact still_issue s _ sql p (hother hheld)
    · exact .refl _ p

/-! ## The transaction -/

/-- The dialogue of a transaction is all that was said on its connection since it began. -/
def Told (h : Handle) (c : Connection) (earlier : List Exchange) (dialogue : Dialogue)
    (p : Pool) : Prop :=
  ∃ said, Conveyed h dialogue said ∧ p.history c = earlier ++ said ∧
    (c ∈ p.broken ↔ ∃ e ∈ said, e.reply = .hangup)

theorem Told.still (ht : p.Told h c earlier dialogue) (hs : Still c p p') :
    p'.Told h c earlier dialogue := by
  obtain ⟨said, hconveyed, hhistory, hbroken⟩ := ht
  exact ⟨said, hconveyed, hs.history.trans hhistory, hs.broken.trans hbroken⟩

theorem Told.speaks (ht : p.Told h c earlier dialogue) (hne : dialogue ≠ []) : p.Speaks h c := by
  obtain ⟨said, hconveyed, hhistory, -⟩ := ht
  obtain ⟨e, he, hspeaker⟩ := hconveyed.exists_speaker hne
  exact ⟨e, hhistory ▸ List.mem_append_right _ he, hspeaker⟩

/-- A statement of the transaction is one more exchange, unless the server has hung up. -/
theorem Told.issue (ht : p.Told h c earlier dialogue) (s : Server) (sql : Text) :
    (p.issue s (.transaction h) c sql).2.Told h c earlier
      (dialogue ++ [(sql, (p.issue s (.transaction h) c sql).1.mapError .query)]) := by
  obtain ⟨said, hconveyed, hhistory, hbroken⟩ := ht
  by_cases hc : c ∈ p.broken
  · rw [issue_of_broken s _ sql hc]
    exact ⟨said, hconveyed.lost sql (hbroken.1 hc), hhistory, hbroken⟩
  · obtain ⟨reply, p', hissue, hh, hp'⟩ := issue_of_not_broken s (.transaction h) sql hc
    have hopen : ∀ e ∈ said, e.reply ≠ .hangup := fun e he heq => hc (hbroken.2 ⟨e, he, heq⟩)
    rw [hissue]
    refine ⟨_, hconveyed.reached sql reply hopen, ?_, ?_⟩
    · rw [hh.history_self, hhistory, List.append_assoc]
    · show c ∈ p'.broken ↔ _
      rw [hp']
      by_cases hreply : reply = .hangup
      · rw [if_pos hreply]
        exact iff_of_true List.mem_cons_self
          ⟨_, List.mem_append_right _ List.mem_cons_self, hreply⟩
      · rw [if_neg hreply]
        refine iff_of_false hc ?_
        rintro ⟨e, he, heq⟩
        rcases List.mem_append.1 he with he | he
        · exact hopen e he heq
        · rw [List.mem_singleton.1 he] at heq
          exact hreply heq

/-- The transaction of a handle is open on a connection, and this is its dialogue. -/
structure Underway (start : Pool) (n : Nat) (h : Handle) (c : Connection)
    (earlier : List Exchange) (dialogue : Dialogue) (p : Pool) : Prop where
  sound : start.Sound (fun _ _ => True) none p
  balanced : p.Balanced n
  held : (h, .transaction c) ∈ p.held
  told : p.Told h c earlier dialogue

theorem mem_held_of_lends {form : Connection → Holding} {r : Except Error Handle × Pool}
    (hr : p.Lends form r) (hmem : (h, holding) ∈ p.held) : (h, holding) ∈ r.2.held := by
  cases hr with
  | @refused e p' hl =>
    have hheld : p'.held = p.held := congrArg Ledger.held hl
    exact hheld ▸ hmem
  | @granted k c p' _ hl =>
    have hheld : p'.held = p.held ++ [(k, form c)] := congrArg Ledger.held hl
    exact hheld ▸ List.mem_append_left _ hmem

theorem mem_held_of_strike (hl : p'.ledger = (p.ledger.strike k).free)
    (hmem : (h, holding) ∈ p.held) (hne : h ≠ k) : (h, holding) ∈ p'.held := by
  have hheld : p'.held = p.held.filter fun entry => entry.1 != k := congrArg Ledger.held hl
  rw [hheld]
  exact List.mem_filter.2 ⟨hmem, bne_iff_ne.2 hne⟩

theorem held_statement (s : Server) (target : Target) (sql : Text) (p : Pool) :
    p.held = (p.statement s target sql).2.held :=
  (congrArg Ledger.held (statement_ledger s target sql p)).symm

/-- Others leave an open transaction alone. -/
theorem underway_others (s : Server) (start : Pool) (n : Nat) (h : Handle) (c : Connection)
    (earlier : List Exchange) (dialogue : Dialogue) :
    PreservedBy s (· ≠ h) (fun _ _ => True) (start.Underway n h c earlier dialogue) where
  fresh {p p' k} hu hbegin := by
    obtain ⟨c', -, hl⟩ := ledger_of_begin hbegin
    have hp' : start.Sound (fun _ _ => True) none p' := by
      have hbegun := hu.sound.begin s
      rwa [hbegin] at hbegun
    exact (hp'.ne_of_enter (congrArg Ledger.held hl) _ hu.held).symm
  get hu := {
    sound := hu.sound.get s
    balanced := hu.balanced.lends (lends_get s _)
    held := mem_held_of_lends (lends_get s _) hu.held
    told := hu.told.still (still_get c s _) }
  begin hu := {
    sound := hu.sound.begin s
    balanced := hu.balanced.lends (lends_begin s _)
    held := mem_held_of_lends (lends_begin s _) hu.held
    told := hu.told.still (hu.sound.still_begin hu.held s) }
  finish {p sql k} hne hsql hu _ := {
    sound := hu.sound.finish s hsql fun _ _ _ _ => trivial
    balanced := hu.balanced.finish hu.sound s
    held := by
      by_cases hh : ∃ c', p.holding? k = some (.transaction c')
      · obtain ⟨c', hh⟩ := hh
        exact mem_held_of_strike (finish_ledger s hh) hu.held hne.symm
      · rw [finish_of_not_held s fun c' hc => hh ⟨c', hc⟩]
        exact hu.held
    told := hu.told.still (hu.sound.still_finish hu.held hne s sql) }
  drop {p k} hne hu _ := {
    sound := hu.sound.drop fun _ _ => trivial
    balanced := hu.balanced.drop hu.sound
    held := by
      cases hh : p.holding? k with
      | none =>
        rw [drop_of_not_held hh]
        exact hu.held
      | some holding' => exact mem_held_of_strike (drop_ledger hh) hu.held hne.symm
    told := hu.told.still (still_drop c p k) }
  close {p} hu := {
    sound := hu.sound.quiet (quiet_close p)
    balanced := hu.balanced.close
    held := (closed_close p).2.2.symm ▸ hu.held
    told := hu.told.still (still_close c p) }
  statement {p target} sql hne hu := {
    sound := hu.sound.statement s target sql
    balanced := hu.balanced.congr (statement_ledger s target sql p)
    held := held_statement s target sql p ▸ hu.held
    told := hu.told.still (hu.sound.still_statement hu.held hne s sql) }

/-! ## From the beginning to the end -/

/-- A transaction that has begun is under way, on a connection that had not heard of it. -/
theorem Sound.begun (hp : start.Sound (fun _ _ => True) none p) (hb : p.Balanced n)
    (hbegin : p.begin s = (.ok h, p')) :
    ∃ c set, IsNew h (p.history c) ∧
      start.Underway n h c (p.history c) [("BEGIN", .ok set)] p' := by
  have hp' : start.Sound (fun _ _ => True) none p' := by
    have hbegun := hp.begin s
    rwa [hbegin] at hbegun
  have hb' : p'.Balanced n := by
    have hbegun := hb.lends (lends_begin s p)
    rwa [hbegin] at hbegun
  have hacquire := fun c => still_acquire c s p
  rw [Pool.begin] at hbegin
  rcases hp.acquire_cases s with ⟨e, p₁, heq, -⟩ | ⟨c, p₁, heq, hp₁, -⟩
  · rw [heq] at hbegin
    cases hbegin
  rw [heq] at hbegin hacquire
  dsimp only at hbegin hacquire
  have hunused := hp₁.unused_nextHandle
  have hfirst : Still c p p₁.nextHandle.2 := (hacquire c).trans (.of_eq rfl rfl)
  generalize p₁.nextHandle = next at hunused hfirst hbegin
  obtain ⟨k, q⟩ := next
  dsimp only at hunused hfirst hbegin
  by_cases hbroken : c ∈ q.broken
  · rw [issue_of_broken s _ _ hbroken] at hbegin
    cases hbegin
  have hopen : q.Told k c (p.history c) [] :=
    ⟨[], .nil, by rw [List.append_nil, hfirst.history], iff_of_false hbroken (by simp)⟩
  have hissue := hopen.issue s "BEGIN"
  rcases hissued : q.issue s (.transaction k) c "BEGIN" with ⟨e | set, q'⟩
  · rw [hissued] at hbegin
    cases hbegin
  rw [hissued] at hbegin hissue
  cases hbegin
  refine ⟨c, set, ?_, hp', hb', List.mem_append_right _ List.mem_cons_self, ?_⟩
  · intro e he hspeaker
    exact hunused.mute c ⟨e, hfirst.history ▸ he, hspeaker⟩
  · exact hissue.still (.of_eq rfl rfl)

/-- Where a transaction did not begin, nothing but a `BEGIN` may have been said. -/
theorem history_of_begin_error {e : Error} (hbegin : p.begin s = (.error e, p'))
    (c : Connection) :
    p'.history c = p.history c ∨ ∃ h reply, (∀ set, reply ≠ .result set) ∧
      p'.history c = p.history c ++ [⟨.transaction h, "BEGIN", reply⟩] := by
  have hacquire := still_acquire c s p
  rw [begin] at hbegin
  rcases heq : p.acquire s with ⟨e | c', p₁⟩
  · rw [heq] at hbegin hacquire
    cases hbegin
    exact .inl hacquire.history
  rw [heq] at hbegin hacquire
  dsimp only at hbegin hacquire
  have hfirst : Still c p p₁.nextHandle.2 := hacquire.trans (.of_eq rfl rfl)
  generalize p₁.nextHandle = next at hfirst hbegin
  obtain ⟨k, q⟩ := next
  dsimp only at hfirst hbegin
  rcases issue_cases s (.transaction k) c' "BEGIN" q with
    ⟨e, hissue⟩ | ⟨set, q', hissue, hh⟩ | ⟨e, reply, q', hissue, hh, hreply⟩
  · rw [hissue] at hbegin
    cases hbegin
    exact .inl (hfirst.trans (still_release c q c')).history
  · rw [hissue] at hbegin
    cases hbegin
  · rw [hissue] at hbegin
    cases hbegin
    rw [(still_release c q' c').history]
    by_cases hc : c = c'
    · subst hc
      exact .inr ⟨k, reply, hreply, by rw [hh.history_self, hfirst.history]⟩
    · exact .inl ((hh.history_other c hc).trans hfirst.history)

namespace Underway

variable (hu : start.Underway n h c earlier dialogue p)

include hu

theorem holding? : p.holding? h = some (.transaction c) := hu.sound.holding?_of_mem hu.held

/-- A statement of the transaction is one more line of its dialogue. -/
theorem statement (s : Server) (sql : Text) :
    start.Underway n h c earlier (dialogue ++ [(sql, (p.statement s (.handle h) sql).1)])
      (p.statement s (.handle h) sql).2 where
  sound := hu.sound.statement s (.handle h) sql
  balanced := hu.balanced.congr (statement_ledger s (.handle h) sql p)
  held := held_statement s (.handle h) sql p ▸ hu.held
  told := by
    rw [Pool.statement, hu.holding?]
    exact hu.told.issue s sql

/-- The last statement is the last line of the dialogue.  The connection goes back to the pool
if that succeeds and the pool is open, and is outside of it otherwise. -/
theorem finish (s : Server) (sql : Text) :
    ∃ answer, (p.finish s sql h).1 = answer.map (fun _ => ()) ∧
      (p.finish s sql h).2.Told h c earlier (dialogue ++ [(sql, answer)]) ∧
      (((∃ set, answer = .ok set) ∧ p.closed = false) ∧ c ∈ (p.finish s sql h).2.idle ∨
        ¬((∃ set, answer = .ok set) ∧ p.closed = false) ∧ (p.finish s sql h).2.Outside c) := by
  have hforget : (p.forget h).Told h c earlier dialogue := hu.told.still (.of_eq rfl rfl)
  have htold := hforget.issue s sql
  have hclosed : ((p.forget h).issue s (.transaction h) c sql).2.closed = p.closed :=
    congrArg Ledger.closed (ledger_issue s (.transaction h) c sql (p.forget h))
  have houtside : ((p.forget h).issue s (.transaction h) c sql).2.Outside c := by
    have hout : (p.forget h).Outside c := hu.sound.outside_forget hu.held
    rcases issue_state s (.transaction h) c sql (p.forget h) with heq | ⟨reply, hh⟩
    · rw [heq]
      exact hout
    · exact hh.outside_iff.2 hout
  rw [Pool.finish, hu.holding?]
  dsimp only
  generalize (p.forget h).issue s (.transaction h) c sql = issued at htold hclosed houtside ⊢
  obtain ⟨e | set, q⟩ := issued
  · refine ⟨.error (.query e), rfl, htold.still (still_detach c q c), .inr ⟨?_, ?_⟩⟩
    · rintro ⟨⟨set, hset⟩, -⟩
      cases hset
    · exact (quiet_detach q c).sheds.outside houtside
  · refine ⟨.ok set, rfl, htold.still (still_release c q c), ?_⟩
    dsimp only at hclosed houtside ⊢
    rw [release]
    dsimp only
    cases hopen : p.closed with
    | false =>
      rw [if_neg (by rw [hclosed, hopen]; simp)]
      exact .inl ⟨⟨⟨set, rfl⟩, rfl⟩, List.mem_append_right _ List.mem_cons_self⟩
    | true =>
      rw [if_pos (hclosed.trans hopen)]
      refine .inr ⟨by simp, ?_⟩
      exact ((quiet_slots q _ _).trans (quiet_disconnect _ c)).sheds.outside houtside

end Underway

end Pool

end SqlCompose
