import BrokerHooks.Session.Basic
import BrokerHooks.Proofs.Roster.History

namespace BrokerHooks.Roster

variable {r r' : Roster}

def life? (r : Roster) (c : Nat) : Option (String × Bool) :=
  (r.connection? c).map fun conn => (conn.clientId, conn.released)

theorem isReleased_eq (r : Roster) (c : Nat) : r.isReleased c = (r.life? c).all (·.2) := by
  unfold isReleased life?
  cases r.connection? c <;> rfl

theorem life?_of_modify {c : Nat} {f : Connection → Connection}
    (hconnections : r'.connections = r.connections.modify c f)
    (hf : ∀ conn, (f conn).clientId = conn.clientId ∧ (f conn).released = conn.released) (k : Nat) :
    r'.life? k = r.life? k := by
  unfold life? connection?
  rw [hconnections, List.getElem?_modify]
  cases r.connections[k]? with
  | none => rfl
  | some conn => by_cases hk : c = k <;> simp [hk, hf]

theorem life?_purge (r : Roster) (id : String) (k : Nat) : (r.purge id).life? k = r.life? k := by
  unfold life? purge connection?
  rw [List.getElem?_mapIdx]
  cases r.connections[k]? with
  | none => rfl
  | some conn => by_cases hk : r.isTracked k <;> simp [hk]

theorem life?_release (r : Roster) (c k : Nat) :
    (r.release c).life? k = if c = k then (r.life? k).map fun l => (l.1, true) else r.life? k := by
  unfold life? release modifyConnection connection?
  simp only [List.getElem?_modify]
  cases r.connections[k]? with
  | none => simp
  | some conn => by_cases hk : c = k <;> simp [hk]

theorem life?_openConnection {c : Nat} (hc : c < r.connections.length) (clientId : String)
    (version : ProtocolVersion) (aliasMaximum : Option UInt16) :
    (r.openConnection clientId version aliasMaximum).2.life? c = r.life? c := by
  unfold life? openConnection connection?
  simp only [List.getElem?_append_left hc]

/-- Entries of the map are of connections that exist, under their own identifiers, one for each. -/
structure Tracks (r : Roster) : Prop where
  own : ∀ entry ∈ r.tracked, (r.life? entry.2).map (·.1) = some entry.1
  once : (r.tracked.map (·.1)).Nodup

/-- The entry of this identifier is the connection, and something refers to it. -/
def Reaches (r : Roster) (client : String) (c : Nat) : Prop :=
  (client, c) ∈ r.tracked ∧ r.life? c = some (client, false)

theorem lookup_eq_some_iff {entries : List (String × Nat)} (h : (entries.map (·.1)).Nodup)
    {client : String} {c : Nat} : entries.lookup client = some c ↔ (client, c) ∈ entries := by
  induction entries with
  | nil => simp
  | cons entry entries ih =>
    obtain ⟨key, k⟩ := entry
    obtain ⟨hnew, hrest⟩ := List.nodup_cons.1 h
    rw [List.lookup_cons, List.mem_cons]
    by_cases hkey : client = key
    · subst hkey
      have hnot : (client, c) ∉ entries := fun hmem => hnew (List.mem_map.2 ⟨_, hmem, rfl⟩)
      simp [hnot, eq_comm]
    · have hbeq : (client == key) = false := by simpa using hkey
      simp [hbeq, hkey, ih hrest]

theorem Tracks.tracked?_iff (ht : Tracks r) {client : String} {c : Nat} :
    r.tracked? client = some c ↔ r.Reaches client c := by
  unfold tracked? Reaches
  rw [Option.filter_eq_some_iff, lookup_eq_some_iff ht.once, isReleased_eq]
  refine and_congr_right fun hmem => ?_
  have hown := ht.own _ hmem
  cases hlife : r.life? c with
  | none => simp [hlife] at hown
  | some l =>
    obtain ⟨id, released⟩ := l
    simp only [hlife, Option.map_some, Option.some.injEq] at hown
    simp [hown]

theorem Tracks.isTracked_iff (ht : Tracks r) {c : Nat} :
    r.isTracked c ↔ ∃ client, r.Reaches client c := by
  unfold isTracked Reaches
  rw [Bool.and_eq_true, List.any_eq_true, isReleased_eq]
  constructor
  · rintro ⟨⟨⟨client, c'⟩, hmem, hc⟩, hlive⟩
    obtain rfl : c' = c := of_decide_eq_true hc
    refine ⟨client, hmem, ?_⟩
    have hown := ht.own _ hmem
    cases hlife : r.life? c' with
    | none => simp [hlife] at hown
    | some l =>
      obtain ⟨id, released⟩ := l
      simp only [hlife, Option.map_some, Option.some.injEq] at hown
      simp only [hlife, Option.all_some, Bool.not_eq_true'] at hlive
      rw [hown, hlive]
  · rintro ⟨client, hmem, hlife⟩
    exact ⟨⟨_, hmem, by simp⟩, by simp [hlife]⟩

/-- The request takes the connection out of reach: it is released, its client is untracked, or another
connection of its client is tracked. -/
inductive Loses (r : Roster) (client : String) (c : Nat) : Request → Prop where
  | released : Loses r client c (.release c)
  | untracked : Loses r client c (.untrack client)
  | supplanted {c' : Nat} (hother : c' ≠ c) (hclient : (r.life? c').map (·.1) = some client) :
      Loses r client c (.track c')

structure Spares (r r' : Roster) : Prop where
  tracked : r'.tracked = r.tracked
  life : ∀ c, r'.life? c = r.life? c

theorem Spares.refl (r : Roster) : Spares r r := ⟨rfl, fun _ => rfl⟩

theorem Spares.reaches (h : Spares r r') (client : String) (c : Nat) :
    r'.Reaches client c ↔ r.Reaches client c := by
  unfold Reaches
  rw [h.tracked, h.life]

theorem Spares.tracks (h : Spares r r') (ht : Tracks r) : Tracks r' := by
  constructor
  · rw [h.tracked]
    intro entry hentry
    rw [h.life]
    exact ht.own entry hentry
  · rw [h.tracked]
    exact ht.once

theorem spares_setEnabled {id : String} {enabled : Bool} (h : r.setEnabled id enabled = .ok r') :
    Spares r r' := by
  obtain ⟨-, rfl⟩ := setEnabled_eq h
  exact ⟨rfl, fun _ => rfl⟩

theorem spares_tryUpdate (update : Except RegistryError Roster) (h : ∀ r', update = .ok r' → Spares r r') :
    Spares r (Broker.tryUpdate r update).2 := by
  cases update with
  | error e => exact .refl r
  | ok r' => exact h r' rfl

def Request.isOfLifecycle : Request → Bool
  | .openConnection .. | .track _ | .untrack _ | .release _ => true
  | _ => false

theorem answer_spares (r : Roster) (q : Request) (h : q.isOfLifecycle = false) :
    Spares r (r.answer q).2 := by
  -- Requests beyond the lifecycle of connections write neither the map nor who is released.
  cases q with
  | openConnection | track | untrack | release => cases h
  | close c reason =>
    simp only [answer, close]
    split
    · exact .refl r
    · exact ⟨rfl, life?_of_modify rfl fun _ => ⟨rfl, rfl⟩⟩
  | resolve c topic number =>
    simp only [answer, resolve]
    split <;> exact ⟨rfl, fun _ => rfl⟩
  | letGo c => exact ⟨rfl, life?_of_modify rfl fun _ => ⟨rfl, rfl⟩⟩
  | register id priority =>
    refine spares_tryUpdate _ fun r' hr => ?_
    unfold register at hr
    split at hr <;> cases hr
    exact ⟨rfl, fun _ => rfl⟩
  | remove id =>
    refine spares_tryUpdate _ fun r' hr => ?_
    obtain ⟨-, rfl⟩ := remove_eq hr
    exact ⟨rfl, life?_purge _ id⟩
  | enable id => exact spares_tryUpdate _ fun r' hr => spares_setEnabled hr
  | disable id =>
    refine spares_tryUpdate _ fun r' hr => ?_
    obtain ⟨r₁, hset, rfl⟩ := disable_eq hr
    have hspares := spares_setEnabled hset
    exact ⟨hspares.tracked, fun c => (life?_purge r₁ id c).trans (hspares.life c)⟩
  | add place id point family respond =>
    refine spares_tryUpdate _ fun r' hr => ?_
    obtain ⟨-, rfl⟩ := add_eq hr
    cases place with
    | shared => exact ⟨rfl, fun _ => rfl⟩
    | connection c => exact ⟨rfl, life?_of_modify rfl fun _ => ⟨rfl, rfl⟩⟩

theorem Tracks.exists_connection (ht : Tracks r) {entry : String × Nat} (h : entry ∈ r.tracked) :
    entry.2 < r.connections.length := by
  have hown := ht.own entry h
  unfold life? connection? at hown
  by_contra hge
  rw [List.getElem?_eq_none (Nat.le_of_not_lt hge)] at hown
  cases hown

theorem tracked_track {c : Nat} {client : String} (hclient : (r.life? c).map (·.1) = some client) :
    r.track c = { r with tracked := (client, c) :: r.tracked.filter (·.1 ≠ client) } := by
  unfold life? at hclient
  unfold track
  cases hconn : r.connection? c with
  | none => simp [hconn] at hclient
  | some conn =>
    obtain rfl : conn.clientId = client := by simpa [hconn] using hclient
    rfl

theorem track_of_none {c : Nat} (hnone : r.life? c = none) : r.track c = r := by
  unfold life? at hnone
  unfold track
  rw [Option.map_eq_none_iff.1 hnone]

theorem nodup_filter_keys {entries : List (String × Nat)} (h : (entries.map (·.1)).Nodup)
    (client : String) : ((entries.filter (·.1 ≠ client)).map (·.1)).Nodup :=
  h.sublist (List.filter_sublist.map _)

theorem Tracks.answer (ht : Tracks r) (q : Request) : Tracks (r.answer q).2 := by
  cases q with
  | openConnection clientId version aliasMaximum =>
    refine ⟨fun entry hentry => ?_, ht.once⟩
    exact (congrArg _ (life?_openConnection (ht.exists_connection hentry) ..)).trans (ht.own entry hentry)
  | track c =>
    simp only [Roster.answer]
    cases hlife : r.life? c with
    | none => rwa [track_of_none hlife]
    | some l =>
      have hclient : (r.life? c).map (·.1) = some l.1 := by rw [hlife]; rfl
      -- The new entry takes the place of any other of its client.
      rw [tracked_track hclient]
      constructor
      · intro entry hentry
        rcases List.mem_cons.1 hentry with rfl | hentry
        · exact hclient
        · exact ht.own entry (List.mem_filter.1 hentry).1
      · refine List.nodup_cons.2 ⟨?_, nodup_filter_keys ht.once l.1⟩
        simp
  | untrack clientId =>
    exact ⟨fun entry hentry => ht.own entry (List.mem_filter.1 hentry).1, nodup_filter_keys ht.once clientId⟩
  | release c =>
    refine ⟨fun entry hentry => ?_, ht.once⟩
    have hown := ht.own entry hentry
    simp only [Roster.answer]
    rw [life?_release]
    split
    · rw [Option.map_map]
      exact hown
    · exact hown
  | close | resolve | letGo | register | remove | enable | disable | add =>
    exact Spares.tracks (answer_spares r _ rfl) ht

theorem tracks_after (aliases : Alias.Ledger Nat) (history : List Request) :
    Tracks (({ aliases } : Roster).after history) := by
  induction history using List.reverseRecOn with
  | nil => exact ⟨nofun, List.nodup_nil⟩
  | append_singleton history q ih =>
    rw [after_concat]
    exact ih.answer q

theorem loses_release_iff {client : String} {c c' : Nat} : r.Loses client c (.release c') ↔ c' = c := by
  constructor
  · rintro ⟨⟩
    rfl
  · rintro rfl
    exact .released

theorem loses_untrack_iff {client clientId : String} {c : Nat} :
    r.Loses client c (.untrack clientId) ↔ client = clientId := by
  constructor
  · rintro ⟨⟩
    rfl
  · rintro rfl
    exact .untracked

theorem loses_track_iff {client : String} {c c' : Nat} :
    r.Loses client c (.track c') ↔ c' ≠ c ∧ (r.life? c').map (·.1) = some client := by
  constructor
  · rintro ⟨⟩
    exact ⟨‹_›, ‹_›⟩
  · rintro ⟨hother, hclient⟩
    exact .supplanted hother hclient

/-- Opening changes nothing in reach: whatever is in the map was there before. -/
theorem Tracks.reaches_openConnection (ht : Tracks r) (clientId : String) (version : ProtocolVersion)
    (aliasMaximum : Option UInt16) (client : String) (c : Nat) :
    (r.openConnection clientId version aliasMaximum).2.Reaches client c ↔ r.Reaches client c := by
  refine and_congr_right fun hmem => ?_
  rw [← life?_openConnection (ht.exists_connection hmem) clientId version aliasMaximum]

/-- What is tracked takes the place of what was tracked for its client before. -/
theorem reaches_track (r : Roster) (c' : Nat) (client : String) (c : Nat) :
    (r.track c').Reaches client c ↔ (c' = c ∧ r.life? c = some (client, false)) ∨
      r.Reaches client c ∧ ¬(c' ≠ c ∧ (r.life? c').map (·.1) = some client) := by
  cases hlife : r.life? c' with
  | none =>
    rw [track_of_none hlife]
    have hnot : ¬(c' = c ∧ r.life? c = some (client, false)) := by
      rintro ⟨rfl, hlife'⟩
      rw [hlife] at hlife'
      cases hlife'
    simp [hnot]
  | some l =>
    have hclient : (r.life? c').map (·.1) = some l.1 := by rw [hlife]; rfl
    have hown (hc : c' = c) (h : r.life? c = some (client, false)) : client = l.1 := by
      rw [hc, h] at hlife
      cases hlife
      rfl
    -- After the tracking the map holds the new entry and those of all other clients.
    have hafter : (r.track c').Reaches client c ↔
        ((client, c) = (l.1, c') ∨ (client, c) ∈ r.tracked ∧ client ≠ l.1) ∧
          r.life? c = some (client, false) := by
      rw [tracked_track hclient]
      simp [Reaches, life?, connection?]
    rw [hafter, Option.map_some, Option.some.injEq, Prod.mk.injEq]
    unfold Reaches
    grind

theorem reaches_untrack (r : Roster) (clientId client : String) (c : Nat) :
    (r.untrack clientId).Reaches client c ↔ r.Reaches client c ∧ client ≠ clientId := by
  simp only [Reaches, untrack, life?, connection?, List.mem_filter, decide_eq_true_eq]
  exact and_right_comm

theorem reaches_release (r : Roster) (c' : Nat) (client : String) (c : Nat) :
    (r.release c').Reaches client c ↔ r.Reaches client c ∧ c' ≠ c := by
  have hafter : (r.release c').Reaches client c ↔
      (client, c) ∈ r.tracked ∧ (r.release c').life? c = some (client, false) := Iff.rfl
  rw [hafter, life?_release]
  unfold Reaches
  by_cases hc : c' = c <;> simp [hc]

theorem Tracks.reaches_answer (ht : Tracks r) (client : String) (c : Nat) (q : Request) :
    (r.answer q).2.Reaches client c ↔
      (q = .track c ∧ r.life? c = some (client, false)) ∨
        r.Reaches client c ∧ ¬r.Loses client c q := by
  have hkept (hreaches : (r.answer q).2.Reaches client c ↔ r.Reaches client c) (htrack : q ≠ .track c)
      (hloses : ¬r.Loses client c q) : (r.answer q).2.Reaches client c ↔
        (q = .track c ∧ r.life? c = some (client, false)) ∨
          r.Reaches client c ∧ ¬r.Loses client c q := by
    simp [hreaches, htrack, hloses]
  cases q with
  | openConnection => exact hkept (ht.reaches_openConnection ..) (by simp) (by rintro ⟨⟩)
  | track c' =>
    rw [loses_track_iff, Request.track.injEq]
    exact reaches_track r c' client c
  | untrack clientId =>
    rw [loses_untrack_iff]
    exact (reaches_untrack r clientId client c).trans (by simp)
  | release c' =>
    rw [loses_release_iff]
    exact (reaches_release r c' client c).trans (by simp)
  | close | resolve | letGo | register | remove | enable | disable | add =>
    exact hkept (Spares.reaches (answer_spares r _ rfl) client c) (by simp) (by rintro ⟨⟩)

/-- The connection was tracked as its client's, before its release, and nothing has taken it out of reach
since. -/
def Reachable (r : Roster) (client : String) (c : Nat) (history : List Request) : Prop :=
  Since (fun before q => q = .track c ∧ (r.after before).life? c = some (client, false))
    (fun before q => (r.after before).Loses client c q) history

theorem reachable_iff (aliases : Alias.Ledger Nat) (client : String) (c : Nat) (history : List Request) :
    Reachable { aliases } client c history ↔
      (({ aliases } : Roster).after history).Reaches client c := by
  refine Since.iff_of_steps (S := fun history => (({ aliases } : Roster).after history).Reaches client c)
    (fun h => nomatch h.1) (fun history q => ?_) history
  rw [after_concat]
  exact (tracks_after aliases history).reaches_answer client c q

/-- A connection stands for its client, and is reached when an extension is removed or disabled, exactly as
long as it was tracked and neither has it been released nor has its client been untracked or another
connection of the same client been tracked since. Out of reach, it keeps all its hooks. -/
theorem reached_exactly (aliases : Alias.Ledger Nat) (history : List Request) (c : Nat) :
    let r := ({ aliases } : Roster).after history
    (∀ client, r.tracked? client = some c ↔ Reachable { aliases } client c history) ∧
      ∀ id q, q = .remove id ∨ q = .disable id → r.Grants q →
        ((∃ client, Reachable { aliases } client c history) →
          (r.answer q).2.hooksOn (.connection c) =
            (r.hooksOn (.connection c)).filter (·.extension ≠ id)) ∧
        ((¬∃ client, Reachable { aliases } client c history) →
          (r.answer q).2.hooksOn (.connection c) = r.hooksOn (.connection c)) := by
  intro r
  have ht : Tracks r := tracks_after aliases history
  have htracked : r.isTracked c ↔ ∃ client, Reachable { aliases } client c history :=
    ht.isTracked_iff.trans (exists_congr fun client => (reachable_iff ..).symm)
  refine ⟨fun client => ht.tracked?_iff.trans (reachable_iff ..).symm, fun id q hq hok => ?_⟩
  rw [← htracked, hooksOn_discard hq hok c]
  exact ⟨fun h => if_pos h, fun h => if_neg h⟩

/-- What happens to connections, with the connection of which a closing is told. -/
inductive Life where
  | opened (c : Nat)
  | closed (c : Nat)
  | asked (q : Request)

def Life.request (r : Roster) : Life → Request
  | .opened c => .track c
  | .closed c => .untrack (((r.life? c).map (·.1)).getD "")
  | .asked q => q

def lived (r : Roster) (lives : List Life) : Roster :=
  lives.foldl (fun r l => (r.answer (l.request r)).2) r

/-- Each connection is opened once and closed at most once, after it was opened. -/
inductive Orderly : List Life → Prop where
  | nil : Orderly []
  | opened {lives : List Life} {c : Nat} (h : Orderly lives) (hnew : .opened c ∉ lives) :
      Orderly (lives ++ [.opened c])
  | closed {lives : List Life} {c : Nat} (h : Orderly lives) (hopened : .opened c ∈ lives)
      (hopen : .closed c ∉ lives) : Orderly (lives ++ [.closed c])
  | asked {lives : List Life} {q : Request} (h : Orderly lives) (htrack : ∀ c, q ≠ .track c)
      (huntrack : ∀ clientId, q ≠ .untrack clientId) : Orderly (lives ++ [.asked q])

/-- The connection is open and held, and of its client's connections it is the last one that was opened. -/
structure Current (r : Roster) (lives : List Life) (c : Nat) : Prop where
  latest : ∃ before later, lives = before ++ .opened c :: later ∧ ∀ c', .opened c' ∈ later →
    ((r.lived lives).life? c').map (·.1) ≠ ((r.lived lives).life? c).map (·.1)
  unclosed : .closed c ∉ lives
  held : ((r.lived lives).connection? c).any (·.held)

/-- A client takes over its connection 0 with connection 1, and then connection 0 closes. -/
def takeover : List Life :=
  [.asked (.openConnection "client" .v5 none), .asked (.openConnection "client" .v5 none),
    .opened 0, .opened 1, .asked (.register "guard" 1),
    .asked (.add (.connection 1) "guard" .pingreqInbound .ping fun _ _ => .done), .closed 0]

theorem orderly_takeover : Orderly takeover := by
  have h₀ : Orderly ([] ++ [.asked (.openConnection "client" .v5 none)]) := .asked .nil nofun nofun
  have h₁ := h₀.asked (q := .openConnection "client" .v5 none) nofun nofun
  have h₂ := h₁.opened (c := 0) (by simp)
  have h₃ := h₂.opened (c := 1) (by simp)
  have h₄ := h₃.asked (q := .register "guard" 1) nofun nofun
  have h₅ := h₄.asked (q := .add (.connection 1) "guard" .pingreqInbound .ping fun _ _ => .done) nofun nofun
  exact h₅.closed (c := 0) (by simp) (by simp)

/-- The closing of the connection that was taken over takes the other one out of reach. -/
theorem takeover_out_of_reach :
    let r := (Broker.ofConfig {} true).roster
    Orderly takeover ∧ r.Current takeover 1 ∧ (r.lived takeover).tracked? "client" = none ∧
      (r.lived takeover).Grants (.disable "guard") ∧
      ∃ h ∈ ((r.lived takeover).answer (.disable "guard")).2.hooksOn (.connection 1),
        h.extension = "guard" := by
  refine ⟨orderly_takeover, ⟨⟨takeover.take 3, takeover.drop 4, rfl, ?_⟩, ?_, rfl⟩, rfl, rfl, _,
    List.mem_singleton_self _, rfl⟩
  · simp [takeover]
  · simp [takeover]

end BrokerHooks.Roster
