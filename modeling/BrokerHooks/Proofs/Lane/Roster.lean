import BrokerHooks.Proofs.Roster.Installation
import BrokerHooks.Proofs.Roster.Reach

namespace BrokerHooks

def Connection.seen (conn : Connection) : Connection :=
  { conn with closeReason := none, held := true, released := false }

theorem Connection.seen_hooks {conn conn' : Connection} (h : conn'.seen = conn.seen)
    (f : List Hook → List Hook) :
    { conn' with hooks := f conn'.hooks }.seen = { conn with hooks := f conn.hooks }.seen :=
  congrArg (fun seen : Connection => { seen with hooks := f seen.hooks }) h

namespace Roster

/-- The chains of the connection see no difference, as long as the connection is released in neither. -/
structure AlikeFor (c : Nat) (r r' : Roster) : Prop where
  extensions : r'.extensions = r.extensions
  shared : r'.shared = r.shared
  tracked : r'.tracked = r.tracked
  added : r'.added = r.added
  clientIds : r'.connections.map (·.clientId) = r.connections.map (·.clientId)
  own : r.isReleased c = false → r'.isReleased c = false →
    (r'.connection? c).map (·.seen) = (r.connection? c).map (·.seen)

/-- An update is refused alike, or carried out so that the connection sees no difference afterwards. -/
inductive AlikeUpdate (c : Nat) : Except RegistryError Roster → Except RegistryError Roster → Prop where
  | refused (e : RegistryError) : AlikeUpdate c (.error e) (.error e)
  | done {s s' : Roster} (h : AlikeFor c s s') : AlikeUpdate c (.ok s) (.ok s')

theorem AlikeUpdate.map {c : Nat} {f f' : Except RegistryError Roster} (hf : AlikeUpdate c f f')
    {g : Roster → Roster} (hg : ∀ s s', AlikeFor c s s' → AlikeFor c (g s) (g s')) :
    AlikeUpdate c (f.map g) (f'.map g) := by
  cases hf with
  | refused e => exact .refused e
  | done hs => exact .done (hg _ _ hs)

namespace AlikeFor

variable {c : Nat} {r r' : Roster}

theorem refl (c : Nat) (r : Roster) : AlikeFor c r r := ⟨rfl, rfl, rfl, rfl, rfl, fun _ _ => rfl⟩

theorem symm (h : AlikeFor c r r') : AlikeFor c r' r :=
  ⟨h.extensions.symm, h.shared.symm, h.tracked.symm, h.added.symm, h.clientIds.symm,
    fun hr hr' => (h.own hr' hr).symm⟩

theorem withAliases (h : AlikeFor c r r') (a a' : Alias.Ledger Nat) :
    AlikeFor c { r with aliases := a } { r' with aliases := a' } := { h with }

theorem length (h : AlikeFor c r r') : r'.connections.length = r.connections.length := by
  simpa using congrArg List.length h.clientIds

theorem clientId? (h : AlikeFor c r r') (i : Nat) :
    (r'.connection? i).map (·.clientId) = (r.connection? i).map (·.clientId) := by
  simpa [connection?] using congrArg (·[i]?) h.clientIds

theorem isRegistered (h : AlikeFor c r r') (id : String) : r'.isRegistered id = r.isRegistered id := by
  unfold Roster.isRegistered extension?
  rw [h.extensions]

theorem isEnabled (h : AlikeFor c r r') (id : String) : r'.isEnabled id = r.isEnabled id := by
  unfold Roster.isEnabled extension?
  rw [h.extensions]

theorem isTracked (h : AlikeFor c r r') (hr : r.isReleased c = false) (hr' : r'.isReleased c = false) :
    r'.isTracked c = r.isTracked c := by
  unfold Roster.isTracked
  rw [h.tracked, hr, hr']

/-- While nothing has released the connection, both have it, and it looks the same. -/
theorem exists_connection (h : AlikeFor c r r') (hr : r.isReleased c = false) (hr' : r'.isReleased c = false) :
    ∃ conn conn', r.connection? c = some conn ∧ r'.connection? c = some conn' ∧ conn'.seen = conn.seen := by
  have hown := h.own hr hr'
  cases hconn : r.connection? c with
  | none => simp [isReleased, hconn] at hr
  | some conn =>
    cases hconn' : r'.connection? c with
    | none => simp [isReleased, hconn'] at hr'
    | some conn' => exact ⟨conn, conn', rfl, rfl, by simpa [hconn, hconn'] using hown⟩

theorem isClosed (h : AlikeFor c r r') (hr : r.isReleased c = false) (hr' : r'.isReleased c = false) :
    r'.isClosed c = r.isClosed c := by
  obtain ⟨conn, conn', hconn, hconn', hseen⟩ := h.exists_connection hr hr'
  have hclosed : conn'.closed = conn.closed := congrArg (·.closed) hseen
  simp [Roster.isClosed, hconn, hconn', hclosed]

theorem ordered (h : AlikeFor c r r') (hr : r.isReleased c = false) (hr' : r'.isReleased c = false)
    (point : Point) : r'.ordered c point = r.ordered c point := by
  obtain ⟨conn, conn', hconn, hconn', hseen⟩ := h.exists_connection hr hr'
  have hhooks : conn'.hooks = conn.hooks := congrArg (·.hooks) hseen
  have hrank : r'.rank? = r.rank? := by
    funext hook
    unfold rank? extension?
    rw [h.extensions]
  unfold Roster.ordered hooksAt
  rw [hrank, h.shared, hconn, hconn', Option.map_some, Option.map_some, hhooks]

theorem connection?_modify (r : Roster) (i : Nat) (f : Connection → Connection) (c : Nat) :
    (r.modifyConnection i f).connection? c = if i = c then (r.connection? c).map f else r.connection? c := by
  unfold modifyConnection connection?
  rw [List.getElem?_modify]
  split <;> simp

/-- A connection is changed on both sides, each side in its own way. -/
theorem modify (h : AlikeFor c r r') (i : Nat) {f f' : Connection → Connection}
    (hid : ∀ conn, (f conn).clientId = conn.clientId) (hid' : ∀ conn, (f' conn).clientId = conn.clientId)
    (hreleased : ∀ conn, (f conn).released = false → conn.released = false)
    (hreleased' : ∀ conn, (f' conn).released = false → conn.released = false)
    (hseen : i = c → ∀ conn conn', r'.connection? i = some conn' → (f conn).released = false →
      (f' conn').released = false → conn'.seen = conn.seen → (f' conn').seen = (f conn).seen) :
    AlikeFor c (r.modifyConnection i f) (r'.modifyConnection i f') := by
  have hclientIds (connections : List Connection) {f : Connection → Connection}
      (hid : ∀ conn, (f conn).clientId = conn.clientId) :
      (connections.modify i f).map (·.clientId) = connections.map (·.clientId) := by
    apply List.ext_getElem?
    intro k
    rw [List.getElem?_map, List.getElem?_map, List.getElem?_modify]
    cases connections[k]? with
    | none => rfl
    | some conn => by_cases hk : i = k <;> simp [hk, hid]
  refine { h with
    clientIds := ((hclientIds _ hid').trans h.clientIds).trans (hclientIds _ hid).symm
    own := fun hr hr' => ?_ }
  -- Of all connections only `c` is compared, and that only as long as neither side has released it.
  by_cases hi : i = c
  · subst hi
    unfold isReleased at hr hr'
    rw [connection?_modify, if_pos rfl] at hr hr' ⊢
    rw [connection?_modify, if_pos rfl]
    cases hconn : r.connection? i with
    | none => simp [hconn] at hr
    | some conn =>
      cases hconn' : r'.connection? i with
      | none => simp [hconn'] at hr'
      | some conn' =>
        have hf : (f conn).released = false := by simpa [hconn] using hr
        have hf' : (f' conn').released = false := by simpa [hconn'] using hr'
        have hown := h.own (by simp [isReleased, hconn, hreleased conn hf])
          (by simp [isReleased, hconn', hreleased' conn' hf'])
        rw [hconn, hconn'] at hown
        simpa using hseen rfl conn conn' hconn' hf hf' (by simpa using hown)
  · unfold isReleased at hr hr'
    rw [connection?_modify, if_neg hi] at hr hr' ⊢
    rw [connection?_modify, if_neg hi]
    exact h.own hr hr'

theorem modify_congr (r : Roster) (i : Nat) {f g : Connection → Connection}
    (h : ∀ conn, r.connection? i = some conn → f conn = g conn) :
    r.modifyConnection i f = r.modifyConnection i g := by
  have hsame : r.connections.modify i f = r.connections.modify i g := by
    apply List.ext_getElem?
    intro k
    rw [List.getElem?_modify, List.getElem?_modify]
    by_cases hk : i = k
    · subst hk
      cases hconn : r.connections[i]? with
      | none => rfl
      | some conn => simp [h conn hconn]
    · simp [hk]
  unfold modifyConnection
  rw [hsame]

theorem modify_self (r : Roster) (i : Nat) : r.modifyConnection i (fun conn => conn) = r := by
  have hsame : r.connections.modify i (fun conn => conn) = r.connections := List.modify_id ..
  unfold modifyConnection
  rw [hsame]

/-- Who gives a connection up is not seen. -/
theorem release_left (h : AlikeFor c r r') (i : Nat) : AlikeFor c (r.release i) r' := by
  have hmodify : AlikeFor c (r.modifyConnection i fun conn => { conn with released := true })
      (r'.modifyConnection i fun conn => conn) :=
    h.modify i (fun _ => rfl) (fun _ => rfl) nofun (fun _ h => h) fun _ _ _ _ h => nomatch h
  rw [modify_self] at hmodify
  exact hmodify.withAliases _ _

def shut (reason : Option ReasonCode) (conn : Connection) : Connection :=
  if conn.closed then conn else { conn with closed := true, closeReason := reason }

theorem close_eq (r : Roster) (i : Nat) (reason : Option ReasonCode) :
    ∃ aliases, (r.close i reason).2 = { r.modifyConnection i (shut reason) with aliases } := by
  unfold close
  split
  · rename_i hclosed
    refine ⟨r.aliases, ?_⟩
    rw [modify_congr r i (g := fun conn => conn), modify_self]
    intro conn hconn
    have hconnClosed : conn.closed = true := by simpa [Roster.isClosed, hconn] using hclosed
    simp [shut, hconnClosed]
  · rename_i hopen
    refine ⟨r.aliases.drop i, ?_⟩
    rw [modify_congr r i (f := shut reason)]
    · rfl
    · intro conn hconn
      have hconnOpen : conn.closed = false := by simpa [Roster.isClosed, hconn] using hopen
      simp only [shut, hconnOpen, Bool.false_eq_true, if_false]

theorem shut_clientId (reason : Option ReasonCode) (conn : Connection) :
    (shut reason conn).clientId = conn.clientId := by
  unfold shut
  split <;> rfl

theorem shut_released (reason : Option ReasonCode) (conn : Connection) :
    (shut reason conn).released = conn.released := by
  unfold shut
  split <;> rfl

theorem shut_seen (reason : Option ReasonCode) (conn : Connection) :
    (shut reason conn).seen = { conn.seen with closed := true } := by
  unfold shut
  split <;> simp_all [Connection.seen]

theorem close (h : AlikeFor c r r') (i : Nat) (reason : Option ReasonCode) :
    AlikeFor c (r.close i reason).2 (r'.close i reason).2 := by
  obtain ⟨a, ha⟩ := close_eq r i reason
  obtain ⟨a', ha'⟩ := close_eq r' i reason
  rw [ha, ha']
  have hreleased (conn : Connection) (hs : (shut reason conn).released = false) : conn.released = false :=
    shut_released reason conn ▸ hs
  refine AlikeFor.withAliases (h.modify i (shut_clientId reason) (shut_clientId reason) hreleased hreleased ?_) a a'
  intro _ conn conn' _ _ _ hseen
  rw [shut_seen, shut_seen, hseen]

/-- Closing another connection, or one that is given up already, is not seen. -/
theorem close_left (h : AlikeFor c r r') {i : Nat} (hi : i = c → r'.isReleased c = true)
    (reason : Option ReasonCode) : AlikeFor c (r.close i reason).2 r' := by
  obtain ⟨a, ha⟩ := close_eq r i reason
  have hmodify : AlikeFor c (r.modifyConnection i (shut reason)) (r'.modifyConnection i fun conn => conn) := by
    refine h.modify i (shut_clientId reason) (fun _ => rfl) (fun conn hs => shut_released reason conn ▸ hs)
      (fun _ h => h) fun hic conn conn' hconn' _ hr' _ => ?_
    have hreleased := hi hic
    subst hic
    simp [isReleased, hconn', hr'] at hreleased
  rw [modify_self] at hmodify
  rw [ha]
  exact hmodify.withAliases a r'.aliases

theorem letGo (h : AlikeFor c r r') (i : Nat) : AlikeFor c (r.letGo i) (r'.letGo i) := by
  refine h.modify i (fun _ => rfl) (fun _ => rfl) (fun _ h => h) (fun _ h => h) fun _ conn conn' _ _ _ hseen => ?_
  exact hseen

/-- Hooks are discarded on the connection in both or in neither. -/
theorem purge (h : AlikeFor c r r') (id : String) : AlikeFor c (r.purge id) (r'.purge id) := by
  have hclientIds (r : Roster) : (r.purge id).connections.map (·.clientId) = r.connections.map (·.clientId) := by
    apply List.ext_getElem?
    intro k
    unfold Roster.purge
    rw [List.getElem?_map, List.getElem?_map, List.getElem?_mapIdx]
    cases r.connections[k]? with
    | none => rfl
    | some conn => by_cases hk : r.isTracked k <;> simp [hk]
  have hconnection (r : Roster) : (r.purge id).connection? c = (r.connection? c).map fun conn =>
      if r.isTracked c then { conn with hooks := conn.hooks.filter (·.extension ≠ id) } else conn :=
    List.getElem?_mapIdx ..
  have hreleased (r : Roster) (hr : (r.purge id).isReleased c = false) : r.isReleased c = false := by
    unfold isReleased at hr ⊢
    rw [hconnection] at hr
    cases hconn : r.connection? c with
    | none => simp [hconn] at hr
    | some conn =>
      rw [hconn] at hr
      by_cases ht : r.isTracked c <;> simpa [ht] using hr
  refine { h with clientIds := ((hclientIds r').trans h.clientIds).trans (hclientIds r).symm, own := fun hr hr' => ?_ }
  -- The connection is tracked in both or in neither, so its hooks go in both or stay in both.
  obtain ⟨conn, conn', hconn, hconn', hseen⟩ := h.exists_connection (hreleased r hr) (hreleased r' hr')
  rw [hconnection, hconnection, h.isTracked (hreleased r hr) (hreleased r' hr'), hconn, hconn']
  simp only [Option.map_some, Option.some.injEq]
  split
  · exact Connection.seen_hooks hseen (·.filter (·.extension ≠ id))
  · exact hseen

theorem track (h : AlikeFor c r r') (i : Nat) : AlikeFor c (r.track i) (r'.track i) := by
  have hclientId := h.clientId? i
  unfold Roster.track
  cases hconn : r.connection? i with
  | none =>
    cases hconn' : r'.connection? i with
    | none => exact h
    | some conn' => simp [hconn, hconn'] at hclientId
  | some conn =>
    cases hconn' : r'.connection? i with
    | none => simp [hconn, hconn'] at hclientId
    | some conn' =>
      have hsame : conn'.clientId = conn.clientId := by simpa [hconn, hconn'] using hclientId
      exact { h with tracked := by simp only [hsame, h.tracked] }

theorem openConnection (h : AlikeFor c r r') (clientId : String) (version : ProtocolVersion)
    (aliasMaximum : Option UInt16) : AlikeFor c (r.openConnection clientId version aliasMaximum).2
      (r'.openConnection clientId version aliasMaximum).2 := by
  have hconnection (r : Roster) : (r.openConnection clientId version aliasMaximum).2.connection? c =
      if c < r.connections.length then r.connection? c else [{ clientId, version }][c - r.connections.length]? :=
    List.getElem?_append ..
  refine { h with clientIds := ?_, own := fun hr hr' => ?_ }
  · unfold Roster.openConnection
    simp only [List.map_append, h.clientIds]
  · unfold isReleased at hr hr'
    rw [hconnection] at hr hr' ⊢
    rw [hconnection]
    rw [h.length] at hr' ⊢
    split at hr
    · rename_i hc
      rw [if_pos hc] at hr' ⊢
      rw [if_pos hc]
      exact h.own hr hr'
    · rename_i hc
      rw [if_neg hc, if_neg hc]

theorem resolve (h : AlikeFor c r r') (i : Nat) (topic : String) (number : Option UInt16) :
    AlikeFor c (r.resolve i topic number).2 (r'.resolve i topic number).2 := by
  have haliases (r : Roster) : ∃ aliases, (r.resolve i topic number).2 = { r with aliases } := by
    unfold Roster.resolve
    split
    · exact ⟨_, rfl⟩
    · exact ⟨r.aliases, rfl⟩
  obtain ⟨a, ha⟩ := haliases r
  obtain ⟨a', ha'⟩ := haliases r'
  rw [ha, ha']
  exact h.withAliases a a'

theorem register (h : AlikeFor c r r') (id : String) (priority : Int) :
    AlikeUpdate c (r.register id priority) (r'.register id priority) := by
  unfold Roster.register
  rw [h.isRegistered, h.extensions]
  split
  · exact .refused _
  · exact .done { h with extensions := rfl }

theorem remove (h : AlikeFor c r r') (id : String) : AlikeUpdate c (r.remove id) (r'.remove id) := by
  unfold Roster.remove
  rw [h.isRegistered, h.extensions, h.shared]
  split
  · have hremoved : AlikeFor c
        { r with
          extensions := r.extensions.filter (·.id ≠ id)
          shared := r.shared.filter (·.extension ≠ id) }
        { r' with
          extensions := r.extensions.filter (·.id ≠ id)
          shared := r.shared.filter (·.extension ≠ id) } := { h with extensions := rfl, shared := rfl }
    exact .done (hremoved.purge id)
  · exact .refused _

theorem setEnabled (h : AlikeFor c r r') (id : String) (enabled : Bool) :
    AlikeUpdate c (r.setEnabled id enabled) (r'.setEnabled id enabled) := by
  unfold Roster.setEnabled
  rw [h.isRegistered, h.extensions]
  split
  · exact .done { h with extensions := rfl }
  · exact .refused _

theorem disable (h : AlikeFor c r r') (id : String) : AlikeUpdate c (r.disable id) (r'.disable id) :=
  (h.setEnabled id false).map fun _ _ hs => hs.purge id

theorem add (h : AlikeFor c r r') (place : Place) (id : String) (point : Point) (family : Family)
    (respond : Nat → Input → Program) :
    AlikeUpdate c (r.add place id point family respond) (r'.add place id point family respond) := by
  unfold Roster.add
  rw [h.isRegistered, h.added]
  split
  · exact .refused _
  · split
    · exact .refused _
    · have hadded : AlikeFor c { r with added := r.added + 1 } { r' with added := r.added + 1 } :=
        { h with added := rfl }
      cases place with
      | shared => exact .done { hadded with shared := by rw [h.shared] }
      | connection i =>
        refine .done (hadded.modify i (fun _ => rfl) (fun _ => rfl) (fun _ h => h) (fun _ h => h) ?_)
        exact fun _ _ _ _ _ _ hseen => Connection.seen_hooks hseen (· ++ [_])

theorem tryUpdate (h : AlikeFor c r r') {f f' : Except RegistryError Roster} (hf : AlikeUpdate c f f') :
    AlikeFor c (Broker.tryUpdate r f).2 (Broker.tryUpdate r' f').2 := by
  cases hf with
  | refused e => exact h
  | done hs => exact hs

/-- Both rosters see no difference after a request. -/
theorem answer (h : AlikeFor c r r') (q : Request) : AlikeFor c (r.answer q).2 (r'.answer q).2 := by
  cases q with
  | openConnection clientId version aliasMaximum => exact h.openConnection clientId version aliasMaximum
  | track i => exact h.track i
  | untrack clientId =>
    unfold Roster.answer Roster.untrack
    exact { h with tracked := by rw [h.tracked] }
  | close i reason => exact h.close i reason
  | resolve i topic number => exact h.resolve i topic number
  | letGo i => exact h.letGo i
  | release i => exact ((h.release_left i).symm.release_left i).symm
  | register id priority => exact h.tryUpdate (h.register id priority)
  | remove id => exact h.tryUpdate (h.remove id)
  | enable id => exact h.tryUpdate (h.setEnabled id true)
  | disable id => exact h.tryUpdate (h.disable id)
  | add place id point family respond => exact h.tryUpdate (h.add place id point family respond)

end AlikeFor

variable {r : Roster}

theorem isReleased_answer {c : Nat} (h : r.isReleased c = false) {q : Request} (hq : q ≠ .release c) :
    (r.answer q).2.isReleased c = false := by
  have hlife {r' : Roster} (hsame : r'.life? c = r.life? c) : r'.isReleased c = false := by
    rw [isReleased_eq, hsame, ← isReleased_eq]
    exact h
  cases q with
  | openConnection clientId version aliasMaximum =>
    have hc : c < r.connections.length := by
      by_contra hge
      have hnone : r.connection? c = none := List.getElem?_eq_none (Nat.le_of_not_lt hge)
      simp [isReleased, hnone] at h
    exact hlife (life?_openConnection hc clientId version aliasMaximum)
  | track i =>
    simp only [answer, track]
    split <;> exact h
  | untrack clientId => exact h
  | release i =>
    have hi : i ≠ c := fun heq => hq (heq ▸ rfl)
    exact hlife ((life?_release r i c).trans (if_neg hi))
  | close | resolve | letGo | register | remove | enable | disable | add =>
    exact hlife ((answer_spares r _ rfl).life c)

theorem hooksOn_answer_all {P : (Nat → Input → Program) → Prop} (h : ∀ place, ∀ x ∈ r.hooksOn place, P x.respond)
    {q : Request} (hq : ∀ place id point family respond, q = .add place id point family respond → P respond) :
    ∀ place, ∀ x ∈ (r.answer q).2.hooksOn place, P x.respond := by
  intro place x hx
  rcases (mem_hooksOn_answer r place x q).1 hx with hplaces | ⟨hold, -⟩
  · exact hq _ _ _ _ _ hplaces.request
  · exact h place x hold

end Roster
end BrokerHooks
