import BrokerHooks.Proofs.Run.Serve

namespace BrokerHooks

inductive RosterStep (r : Roster) : Roster → Prop where
  | openConnection (clientId : String) (version : ProtocolVersion) (aliasMaximum : Option UInt16) :
      RosterStep r (r.openConnection clientId version aliasMaximum).2
  | track (c : Nat) : RosterStep r (r.track c)
  | untrack (clientId : String) : RosterStep r (r.untrack clientId)
  | close (c : Nat) (reason : Option ReasonCode) : RosterStep r (r.close c reason).2
  | resolve (c : Nat) (topic : String) (number : Option UInt16) :
      RosterStep r (r.resolve c topic number).2
  | letGo (c : Nat) : RosterStep r (r.letGo c)
  | release (c : Nat) : RosterStep r (r.release c)
  | register {id : String} {priority : Int} {r' : Roster} (h : r.register id priority = .ok r') :
      RosterStep r r'
  | remove {id : String} {r' : Roster} (h : r.remove id = .ok r') : RosterStep r r'
  | enable {id : String} {r' : Roster} (h : r.enable id = .ok r') : RosterStep r r'
  | disable {id : String} {r' : Roster} (h : r.disable id = .ok r') : RosterStep r r'
  | add {place : Roster.Place} {id : String} {point : Point} {family : Family}
      {respond : Nat → Input → Program} {r' : Roster}
      (h : r.add place id point family respond = .ok r') : RosterStep r r'

/-- How a connection goes on: it is the same client's, and what has ended stays ended. -/
structure Connection.Becomes (conn conn' : Connection) : Prop where
  clientId : conn'.clientId = conn.clientId
  version : conn'.version = conn.version
  closed : conn.closed → conn'.closed
  released : conn.released → conn'.released

namespace Roster

variable {r r' : Roster} {ended : Nat → Prop}

/-- All connections go on, and none ends that is not one of the `ended`. -/
def Carries (ended : Nat → Prop) (r r' : Roster) : Prop :=
  ∀ c conn, r.connection? c = some conn → ∃ conn', r'.connection? c = some conn' ∧
    conn.Becomes conn' ∧ (ended c ∨ conn'.closed = conn.closed ∧ conn'.released = conn.released)

def IsLive (r : Roster) (c : Nat) : Prop :=
  ∃ conn, r.connection? c = some conn ∧ conn.closed = false ∧ conn.released = false

theorem Carries.isLive {c : Nat} (h : Carries ended r r') (hc : ¬ended c) (hlive : r.IsLive c) :
    r'.IsLive c := by
  obtain ⟨conn, hconn, hclosed, hreleased⟩ := hlive
  obtain ⟨conn', hconn', -, hends⟩ := h c conn hconn
  obtain ⟨hclosed', hreleased'⟩ := hends.resolve_left hc
  exact ⟨conn', hconn', hclosed'.trans hclosed, hreleased'.trans hreleased⟩

theorem carries_of_connections (h : r'.connections = r.connections) : Carries ended r r' := by
  intro c conn hc
  refine ⟨conn, ?_, ⟨rfl, rfl, id, id⟩, .inr ⟨rfl, rfl⟩⟩
  unfold connection?
  rw [h]
  exact hc

theorem carries_modify (r : Roster) (c : Nat) {f : Connection → Connection}
    (hf : ∀ conn : Connection, conn.Becomes (f conn))
    (hends : ended c ∨ ∀ conn, (f conn).closed = conn.closed ∧ (f conn).released = conn.released) :
    Carries ended r (r.modifyConnection c f) := by
  intro c' conn hconn
  unfold connection? at hconn
  by_cases hcc : c = c'
  · subst hcc
    refine ⟨f conn, ?_, hf conn, hends.imp_right fun h => h conn⟩
    simp [modifyConnection, connection?, hconn]
  · refine ⟨conn, ?_, ⟨rfl, rfl, id, id⟩, .inr ⟨rfl, rfl⟩⟩
    simp [modifyConnection, connection?, hcc, hconn]

theorem carries_purge {r₁ : Roster} (h : r₁.connections = r.connections) (id : String) :
    Carries ended r (r₁.purge id) := by
  intro c conn hconn
  have hconn : r₁.connections[c]? = some conn := by rwa [h]
  by_cases ht : r₁.isTracked c
  · refine ⟨{ conn with hooks := conn.hooks.filter (·.extension ≠ id) }, ?_,
      ⟨rfl, rfl, fun h => h, fun h => h⟩, .inr ⟨rfl, rfl⟩⟩
    simp [purge, connection?, hconn, ht]
  · refine ⟨conn, ?_, ⟨rfl, rfl, fun h => h, fun h => h⟩, .inr ⟨rfl, rfl⟩⟩
    simp [purge, connection?, hconn, ht]

/-- What an operation on the roster does to the connections and to their aliases. -/
inductive Changes (r r' : Roster) : Prop where
  | unaliased (hc : Carries (fun _ => False) r r') (ha : r'.aliases = r.aliases)
  | resolved (c : Nat) (topic : String) (number : Option UInt16)
      (hc : Carries (fun _ => False) r r') (ha : r'.aliases = (r.aliases.resolve? c topic number).2)
  | granted (maximum : UInt16) (hc : Carries (fun _ => False) r r')
      (hlive : r'.IsLive r.connections.length)
      (ha : r'.aliases = (r.aliases.grant r.connections.length maximum).2)
  | ended (c : Nat) (hc : Carries (· = c) r r') (ha : r'.aliases = r.aliases.drop c)

theorem Changes.carries (h : Changes r r') : Carries (fun _ => True) r r' := by
  intro c conn hconn
  cases h with
  | unaliased hc | resolved _ _ _ hc | granted _ hc | ended _ hc =>
    obtain ⟨conn', hconn', hbecomes, -⟩ := hc c conn hconn
    exact ⟨conn', hconn', hbecomes, .inl trivial⟩

theorem setEnabled_changes {id : String} {enabled : Bool} (h : r.setEnabled id enabled = .ok r') :
    r'.connections = r.connections ∧ r'.aliases = r.aliases := by
  unfold setEnabled at h
  split at h <;> cases h
  exact ⟨rfl, rfl⟩

end Roster

open Roster in
theorem RosterStep.changes {r r' : Roster} (h : RosterStep r r') : Changes r r' := by
  cases h with
  | openConnection clientId version aliasMaximum =>
    have hc : Carries (fun _ => False) r (r.openConnection clientId version aliasMaximum).2 := by
      -- Connections are only ever appended, so whatever was there keeps its place.
      intro c conn hconn
      have hlt := (List.getElem?_eq_some_iff.1 hconn).1
      exact ⟨conn, (List.getElem?_append_left hlt).trans hconn, ⟨rfl, rfl, id, id⟩, .inr ⟨rfl, rfl⟩⟩
    cases aliasMaximum with
    | none => exact .unaliased hc rfl
    | some maximum =>
      refine .granted maximum hc ⟨{ clientId, version }, ?_, rfl, rfl⟩ rfl
      simp [Roster.openConnection, connection?]
  | track c =>
    unfold Roster.track
    split <;> exact .unaliased (carries_of_connections rfl) rfl
  | untrack clientId => exact .unaliased (carries_of_connections rfl) rfl
  | close c reason =>
    unfold Roster.close
    split
    · exact .unaliased (carries_of_connections rfl) rfl
    · exact .ended c (carries_modify r c (fun conn => ⟨rfl, rfl, fun _ => rfl, id⟩) (.inl rfl)) rfl
  | resolve c topic number =>
    unfold Roster.resolve
    split
    · rename_i hresolve
      exact .resolved c topic number (carries_of_connections rfl) (by rw [hresolve])
    · exact .unaliased (carries_of_connections rfl) rfl
  | letGo c =>
    exact .unaliased (carries_modify r c (fun conn => ⟨rfl, rfl, id, id⟩) (.inr fun conn => ⟨rfl, rfl⟩)) rfl
  | release c =>
    exact .ended c (carries_modify r c (fun conn => ⟨rfl, rfl, id, fun _ => rfl⟩) (.inl rfl)) rfl
  | register hr =>
    unfold Roster.register at hr
    split at hr <;> cases hr
    exact .unaliased (carries_of_connections rfl) rfl
  | remove hr =>
    unfold Roster.remove at hr
    split at hr <;> cases hr
    exact .unaliased (carries_purge rfl _) rfl
  | enable hr =>
    obtain ⟨hc, ha⟩ := setEnabled_changes hr
    exact .unaliased (carries_of_connections hc) ha
  | @disable id r' hr =>
    unfold Roster.disable at hr
    cases henabled : r.setEnabled id false with
    | error e =>
      rw [henabled] at hr
      cases hr
    | ok r₁ =>
      rw [henabled] at hr
      cases hr
      obtain ⟨hc, ha⟩ := setEnabled_changes henabled
      exact .unaliased (carries_purge hc id) ha
  | add hr =>
    unfold Roster.add at hr
    split at hr
    · cases hr
    split at hr
    · cases hr
    simp only at hr
    split at hr <;> cases hr
    · exact .unaliased (carries_of_connections rfl) rfl
    · exact .unaliased (carries_modify _ _ (fun conn => ⟨rfl, rfl, id, id⟩) (.inr fun conn => ⟨rfl, rfl⟩)) rfl

namespace Broker

section

variable {P : Roster → Prop} (hP : ∀ r r', RosterStep r r' → P r → P r')
include hP

theorem tryUpdate_preserves {ε : Type} {r : Roster} (h : P r) (update : Except ε Roster)
    (hstep : ∀ r', update = .ok r' → RosterStep r r') : P (tryUpdate r update).2 := by
  cases update with
  | error e => exact h
  | ok r' => exact hP r r' (hstep r' rfl) h

omit hP in
theorem onTurn_roster {α : Type} (b : Broker) (s : Site) (default : α) (f : Turn → α × Turn) :
    (b.onTurn s default f).2.roster = b.roster := by
  unfold onTurn
  split <;> rfl

omit hP in
theorem check_roster (b : Broker) : b.check.2.roster = b.roster := by
  unfold check
  simp only
  split <;> simp

omit hP in
theorem admitted_preserves {α : Type} {b : Broker} (h : P b.roster) (f : Broker → α × Broker)
    (hf : ∀ b, P b.roster → P (f b).2.roster) : P (b.admitted f).2.roster := by
  have hcheck : P b.check.2.roster := by
    rw [check_roster]
    exact h
  unfold admitted
  split <;> rename_i heq <;> rw [heq] at hcheck
  · exact hcheck
  · exact hf _ hcheck

theorem perform_preserves {b : Broker} (h : P b.roster) (s : Site) (op : Op) :
    P (b.perform s op).2.roster := by
  cases op with
  | call | defer | resume | prevent | view =>
    unfold perform
    rw [onTurn_roster]
    exact h
  | close reason => exact hP _ _ (.close ..) h
  | resolve topic number => exact hP _ _ (.resolve ..) h
  | register id priority => exact tryUpdate_preserves hP h _ fun r' => .register
  | remove id => exact tryUpdate_preserves hP h _ fun r' => .remove
  | enable id => exact tryUpdate_preserves hP h _ fun r' => .enable
  | disable id => exact tryUpdate_preserves hP h _ fun r' => .disable
  | isEnabled | note => exact h
  | check =>
    unfold perform
    rw [check_roster]
    exact h
  | isConnected clientId => exact admitted_preserves h _ fun b hb => hb
  | disconnectClient clientId reason =>
    unfold perform disconnectClient
    simp only
    split
    · exact h
    · refine admitted_preserves h _ fun b hb => ?_
      split
      · exact hb
      · exact hP _ _ (.close ..) hb

theorem run_preserves {b : Broker} (h : P b.roster) (s : Site) (program : Program) :
    P (run s program b).2.roster := by
  induction program generalizing b with
  | done | fail | crash => exact h
  | perform op next ih => exact ih _ (perform_preserves hP h s op)
  | spawn delay task next _ ih => exact ih h

omit hP in
theorem standing_roster (b : Broker) (c : Chain) (turn : Nat) :
    (b.standing c turn).2.roster = b.roster := by
  unfold standing
  split
  · rfl
  · rename_i t _
    cases t.poll b.now with
    | mk completion t' =>
      cases completion with
      | none => rfl
      | some completion => cases completion <;> simp [setTurn]

theorem callback_preserves {b : Broker} (h : P b.roster) (c : Chain) (hook : Hook) (p : Packet) :
    P (b.callback c hook p).2.roster := by
  refine run_preserves hP ?_ _ _
  exact h

theorem serve_preserves {b : Broker} (h : P b.roster) (c : Chain) (r : Ranked) (p : Packet) :
    P (b.serve c r p).2.roster := by
  unfold serve
  split
  · have hcall := callback_preserves hP h c r.hook p
    cases hc : b.callback c r.hook p with
    | mk cause b' =>
      rw [hc] at hcall
      cases cause with
      | some cause => simpa using hcall
      | none =>
        rw [standing_roster]
        exact hcall
  · exact h

theorem proceed_preserves {b : Broker} (h : P b.roster) (c : Chain) (hooks : List Ranked)
    (p : Packet) : P (proceed c hooks p b).roster := by
  refine proceed_induction (motive := fun _ _ b => P b.roster) (Q := fun b => P b.roster)
    ?finished ?pending ?failed ?passed h
  case finished => exact fun p b hb => by simpa using hb
  case pending =>
    intro r rest p b b' hb hs
    have hserve := serve_preserves hP hb c r p
    rwa [hs] at hserve
  case failed =>
    intro r rest p b cause b' hb hs
    have hserve := serve_preserves hP hb c r p
    rw [hs] at hserve
    simpa [reportFailure] using hserve
  case passed =>
    intro r rest p b q b' hb hs
    have hserve := serve_preserves hP hb c r p
    rwa [hs] at hserve

theorem wake_preserves {b : Broker} (h : P b.roster) (s : Suspended) : P (b.wake s).roster := by
  have hstanding : P (b.standing s.chain s.turn).2.roster := by
    rw [standing_roster]
    exact h
  rw [wake_eq_conclude]
  cases hs : b.standing s.chain s.turn with
  | mk st b' =>
    rw [hs] at hstanding
    cases st with
    | pending => exact hstanding
    | failed cause => simpa [conclude, reportFailure] using hstanding
    | passed q => exact proceed_preserves hP hstanding _ _ _

theorem sweep_preserves {b : Broker} (h : P b.roster) : P b.sweep.roster := by
  unfold sweep
  simp only
  -- Which connections are released makes no difference.
  generalize (List.range b.roster.connections.length).filter _ = abandoned
  generalize b.roster = r at h
  induction abandoned generalizing r with
  | nil => exact h
  | cons c abandoned ih => exact ih _ (hP _ _ (.release c) h)

theorem move_preserves {b : Broker} (h : P b.roster) (m : Move) : P (b.move m).roster := by
  cases m with
  | submit connection point p =>
    unfold move submit
    simp only
    split <;> exact h
  | begin lane =>
    unfold move
    simp only
    split
    · split
      · refine proceed_preserves hP ?_ _ _ _
        exact h
      · exact h
    · exact h
  | wake i =>
    unfold move
    simp only
    split
    · refine wake_preserves hP ?_ _
      exact h
    · exact h
  | work i =>
    unfold move
    simp only
    split
    · refine run_preserves hP ?_ _ _
      exact h
    · exact h
  | elapse time | observeAliases => exact h
  | perform site op => exact perform_preserves hP h site op
  | openConnection clientId version aliasMaximum => exact hP _ _ (.openConnection ..) h
  | track c => exact hP _ _ (.track c) h
  | untrack clientId => exact hP _ _ (.untrack clientId) h
  | letGo c => exact hP _ _ (.letGo c) h
  | add place extension point family respond => exact tryUpdate_preserves hP h _ fun r' => .add
  | sweep => exact sweep_preserves hP h

theorem play_roster {b : Broker} (h : P b.roster) (ms : List Move) : P (b.play ms).roster :=
  play_preserves (P := fun b => P b.roster) (fun _ m hb => move_preserves hP hb m) h ms

end

end Broker
end BrokerHooks
