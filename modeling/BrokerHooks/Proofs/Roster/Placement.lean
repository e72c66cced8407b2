import Mathlib.Logic.Relation
import BrokerHooks.Proofs.Run.Rosters

namespace BrokerHooks

namespace Roster

open Relation

def hooksOn (r : Roster) : Place → List Hook
  | .shared => r.shared
  | .connection c => ((r.connection? c).map (·.hooks)).getD []

theorem rank?_eq_some_iff {r : Roster} {h : Hook} {x : Ranked} : r.rank? h = some x ↔
    h = x.hook ∧ (r.extension? h.extension).map (·.priority) = some x.priority ∧
      h.family = h.point.family := by
  unfold rank?
  obtain ⟨priority, hook⟩ := x
  cases r.extension? h.extension with
  | none => simp
  | some e =>
    by_cases hfamily : h.family = h.point.family
    · simp [hfamily, and_comm]
    · simp [hfamily]

theorem mem_ordered {r : Roster} {c : Nat} {point : Point} {x : Ranked} (h : x ∈ r.ordered c point) :
    x.hook ∈ r.hooksOn .shared ∨ x.hook ∈ r.hooksOn (.connection c) := by
  unfold ordered at h
  rw [List.mem_mergeSort] at h
  obtain ⟨hook, hmem, hrank⟩ := List.mem_filterMap.1 h
  obtain ⟨rfl, -, -⟩ := rank?_eq_some_iff.1 hrank
  exact List.mem_append.1 (List.mem_filter.1 hmem).1

/-- What a step does to the hooks: none comes, or one with the number that is next. -/
inductive Installs (r r' : Roster) : Prop where
  | none (hadded : r'.added = r.added) (hsub : ∀ place, r'.hooksOn place ⊆ r.hooksOn place)
  | one (place : Place) (hadded : r'.added = r.added + 1)
      (hsub : ∀ place', ∀ h ∈ r'.hooksOn place', h ∈ r.hooksOn place' ∨
        place' = place ∧ h.number = r.added)

theorem Installs.of_same {r r' : Roster} (hadded : r'.added = r.added)
    (hhooks : ∀ place, r'.hooksOn place = r.hooksOn place) : Installs r r' :=
  .none hadded fun place => by rw [hhooks]; exact List.Subset.refl _

theorem hooksOn_modifyConnection (r : Roster) (c : Nat) (f : Connection → Connection) {place : Place}
    {h : Hook} (hh : h ∈ (r.modifyConnection c f).hooksOn place) :
    h ∈ r.hooksOn place ∨
      place = .connection c ∧ ∃ conn, r.connection? c = some conn ∧ h ∈ (f conn).hooks := by
  cases place with
  | shared => exact .inl hh
  | connection k =>
    by_cases hk : c = k
    · subst hk
      cases hconn : r.connection? c with
      | none =>
        have hconn' : r.connections[c]? = none := hconn
        simp [hooksOn, modifyConnection, connection?, hconn'] at hh
      | some conn =>
        have hconn' : r.connections[c]? = some conn := hconn
        have hh : h ∈ (f conn).hooks := by
          simpa [hooksOn, modifyConnection, connection?, hconn'] using hh
        exact .inr ⟨rfl, conn, rfl, hh⟩
    · refine .inl ?_
      simpa [hooksOn, modifyConnection, connection?, hk] using hh

/-- A change of a connection that is not one of its hooks leaves all hooks where they are. -/
theorem hooksOn_of_modify {r r' : Roster} {c : Nat} {f : Connection → Connection}
    (hshared : r'.shared = r.shared) (hconnections : r'.connections = r.connections.modify c f)
    (hf : ∀ conn, (f conn).hooks = conn.hooks) (place : Place) :
    r'.hooksOn place = r.hooksOn place := by
  cases place with
  | shared => exact hshared
  | connection k =>
    have hhooks : (r'.connection? k).map (·.hooks) = (r.connection? k).map (·.hooks) := by
      unfold connection?
      rw [hconnections, List.getElem?_modify]
      cases r.connections[k]? with
      | none => rfl
      | some conn => by_cases hk : c = k <;> simp [hk, hf]
    exact congrArg (·.getD []) hhooks

theorem hooksOn_purge_connection (r : Roster) (id : String) (c : Nat) :
    (r.purge id).hooksOn (.connection c) =
      if r.isTracked c then (r.hooksOn (.connection c)).filter (·.extension ≠ id)
      else r.hooksOn (.connection c) := by
  unfold hooksOn purge connection?
  simp only [List.getElem?_mapIdx]
  cases r.connections[c]? with
  | none => simp
  | some conn => by_cases h : r.isTracked c <;> simp [h]

/-- What is left of an extension's hooks by a purge is on connections that cannot be reached. -/
theorem hooksOn_purge (r : Roster) (id : String) {place : Place} {h : Hook}
    (hh : h ∈ (r.purge id).hooksOn place) :
    h ∈ r.hooksOn place ∧ ∀ c, place = .connection c → r.isTracked c → h.extension ≠ id := by
  cases place with
  | shared => exact ⟨hh, nofun⟩
  | connection k =>
    rw [hooksOn_purge_connection] at hh
    by_cases htracked : r.isTracked k
    · rw [if_pos htracked] at hh
      obtain ⟨hh, hid⟩ := List.mem_filter.1 hh
      exact ⟨hh, fun c hc _ => of_decide_eq_true hid⟩
    · rw [if_neg htracked] at hh
      refine ⟨hh, ?_⟩
      rintro c ⟨⟩ htracked'
      exact absurd htracked' htracked

theorem setEnabled_eq {r r' : Roster} {id : String} {enabled : Bool}
    (h : r.setEnabled id enabled = .ok r') :
    r.isRegistered id ∧
      r' = { r with extensions := r.extensions.map fun e => if e.id = id then { e with enabled } else e } := by
  unfold setEnabled at h
  split at h
  · rename_i hregistered
    cases h
    exact ⟨hregistered, rfl⟩
  · cases h

theorem disable_eq {r r' : Roster} {id : String} (h : r.disable id = .ok r') :
    ∃ r₁, r.setEnabled id false = .ok r₁ ∧ r' = r₁.purge id := by
  unfold disable at h
  cases hset : r.setEnabled id false with
  | error e =>
    rw [hset] at h
    cases h
  | ok r₁ =>
    rw [hset] at h
    cases h
    exact ⟨r₁, rfl, rfl⟩

theorem hooksOn_openConnection (r : Roster) (clientId : String) (version : ProtocolVersion)
    (aliasMaximum : Option UInt16) (place : Place) :
    (r.openConnection clientId version aliasMaximum).2.hooksOn place = r.hooksOn place := by
  cases place with
  | shared => rfl
  | connection k =>
    unfold hooksOn openConnection connection?
    simp only
    rcases Nat.lt_or_ge k r.connections.length with hlt | hge
    · rw [List.getElem?_append_left hlt]
    · rw [List.getElem?_append_right hge, List.getElem?_eq_none hge]
      cases k - r.connections.length <;> simp

def install (r : Roster) (hook : Hook) : Place → Roster
  | .shared => { r with shared := r.shared ++ [hook] }
  | .connection c => r.modifyConnection c fun conn => { conn with hooks := conn.hooks ++ [hook] }

@[simp] theorem install_added (r : Roster) (hook : Hook) (place : Place) :
    (r.install hook place).added = r.added := by
  cases place <;> rfl

theorem add_def (r : Roster) (place : Place) (id : String) (point : Point) (family : Family)
    (respond : Nat → Input → Program) : r.add place id point family respond =
      if point.family ≠ family then .error (.unsupportedPoint point family)
      else if !r.isRegistered id then .error (.unknownExtension id)
      else .ok ({ r with added := r.added + 1 }.install
        { extension := id, point, number := r.added, family, respond } place) := by
  unfold add
  cases place <;> rfl

theorem add_eq {r r' : Roster} {place : Place} {id : String} {point : Point} {family : Family}
    {respond : Nat → Input → Program} (h : r.add place id point family respond = .ok r') :
    point.family = family ∧ r' = { r with added := r.added + 1 }.install
      { extension := id, point, number := r.added, family, respond } place := by
  rw [add_def] at h
  split at h
  · cases h
  rename_i hfamily
  split at h <;> cases h
  exact ⟨Decidable.not_not.1 hfamily, rfl⟩

theorem remove_eq {r r' : Roster} {id : String} (h : r.remove id = .ok r') :
    r.isRegistered id ∧ r' =
      ({ r with
        extensions := r.extensions.filter (·.id ≠ id)
        shared := r.shared.filter (·.extension ≠ id) }.purge id) := by
  unfold remove at h
  split at h
  · rename_i hregistered
    cases h
    exact ⟨hregistered, rfl⟩
  · cases h

/-- A removal leaves hooks of the extension behind only on connections that cannot be reached. -/
theorem hooksOn_remove {r r' : Roster} {id : String} (hr : r.remove id = .ok r') {place : Place}
    {h : Hook} (hh : h ∈ r'.hooksOn place) (hid : h.extension = id) :
    h ∈ r.hooksOn place ∧ ∃ c, place = .connection c ∧ ¬r.isTracked c := by
  obtain ⟨-, rfl⟩ := remove_eq hr
  obtain ⟨hh, hreached⟩ := hooksOn_purge _ _ hh
  cases place with
  | shared => exact absurd hid (by simpa using (List.mem_filter.1 hh).2)
  | connection c => exact ⟨hh, c, rfl, fun htracked => hreached c rfl htracked hid⟩

theorem hooksOn_disable_subset {r r' : Roster} {id : String} (hr : r.disable id = .ok r')
    {place : Place} {h : Hook} (hh : h ∈ r'.hooksOn place) : h ∈ r.hooksOn place := by
  obtain ⟨r₁, hset, rfl⟩ := disable_eq hr
  obtain ⟨-, rfl⟩ := setEnabled_eq hset
  exact (hooksOn_purge _ _ hh).1

theorem hooksOn_disable {r r' : Roster} {id : String} (hr : r.disable id = .ok r') {c : Nat} {h : Hook}
    (hh : h ∈ r'.hooksOn (.connection c)) (htracked : r.isTracked c) : h.extension ≠ id := by
  obtain ⟨r₁, hset, rfl⟩ := disable_eq hr
  obtain ⟨-, rfl⟩ := setEnabled_eq hset
  exact (hooksOn_purge _ _ hh).2 c rfl htracked

end Roster

open Roster in
theorem RosterStep.installs {r r' : Roster} (h : RosterStep r r') : Installs r r' := by
  -- Only an addition installs a hook. A removal and a disabling may leave some out, which `Installs` allows.
  cases h with
  | openConnection clientId version aliasMaximum =>
    exact .of_same rfl (hooksOn_openConnection r _ _ _)
  | track c =>
    unfold Roster.track
    split <;> exact .none rfl fun place h hh => hh
  | untrack clientId => exact .none rfl fun place h hh => hh
  | close c reason =>
    unfold Roster.close
    split
    · exact .none rfl fun place h hh => hh
    · exact .of_same rfl (hooksOn_of_modify rfl rfl fun _ => rfl)
  | resolve c topic number =>
    unfold Roster.resolve
    split <;> exact .none rfl fun place h hh => hh
  | letGo c => exact .of_same rfl (hooksOn_of_modify rfl rfl fun _ => rfl)
  | release c => exact .of_same rfl (hooksOn_of_modify rfl rfl fun _ => rfl)
  | register hr =>
    unfold Roster.register at hr
    split at hr <;> cases hr
    exact .none rfl fun place h hh => hh
  | remove hr =>
    unfold Roster.remove at hr
    split at hr <;> cases hr
    refine .none rfl fun place h hh => ?_
    have hh := (hooksOn_purge _ _ hh).1
    cases place with
    | shared => exact (List.mem_filter.1 hh).1
    | connection k => exact hh
  | enable hr =>
    obtain ⟨-, rfl⟩ := setEnabled_eq hr
    exact .none rfl fun place h hh => hh
  | disable hr =>
    have hadded : r'.added = r.added := by
      obtain ⟨r₁, hset, rfl⟩ := disable_eq hr
      obtain ⟨-, rfl⟩ := setEnabled_eq hset
      rfl
    exact .none hadded fun place h hh => hooksOn_disable_subset hr hh
  | add hr =>
    unfold Roster.add at hr
    split at hr
    · cases hr
    split at hr
    · cases hr
    simp only at hr
    split at hr <;> cases hr
    · refine .one .shared rfl fun place' h hh => ?_
      cases place' with
      | shared =>
        rcases List.mem_append.1 hh with hh | hh
        · exact .inl hh
        · obtain rfl := List.mem_singleton.1 hh
          exact .inr ⟨rfl, rfl⟩
      | connection k => exact .inl hh
    · rename_i c
      refine .one (.connection c) rfl fun place' h hh => ?_
      rcases hooksOn_modifyConnection _ c _ hh with hh | ⟨rfl, conn, hconn, hh⟩
      · exact .inl hh
      · rcases List.mem_append.1 hh with hh | hh
        · have hconn : r.connection? c = some conn := hconn
          exact .inl (by simpa [hooksOn, hconn] using hh)
        · obtain rfl := List.mem_singleton.1 hh
          exact .inr ⟨rfl, rfl⟩

namespace Roster

open Relation

/-- Whatever is old enough to have been there before was there, at the same place. -/
structure Shrinks (r r' : Roster) : Prop where
  added : r.added ≤ r'.added
  old : ∀ place, ∀ h ∈ r'.hooksOn place, h.number < r.added → h ∈ r.hooksOn place

theorem Installs.shrinks {r r' : Roster} (h : Installs r r') : Shrinks r r' := by
  cases h with
  | none hadded hsub => exact ⟨Nat.le_of_eq hadded.symm, fun place h hh _ => hsub place hh⟩
  | one place hadded hsub =>
    refine ⟨by omega, fun place' h hh hlt => ?_⟩
    rcases hsub place' h hh with hh | ⟨-, hnumber⟩
    · exact hh
    · omega

theorem shrinks_of_steps {r r' : Roster} (h : ReflTransGen RosterStep r r') : Shrinks r r' := by
  induction h with
  | refl => exact ⟨Nat.le_refl _, fun place h hh _ => hh⟩
  | tail _ hstep ih =>
    obtain ⟨hadded, hold⟩ := hstep.installs.shrinks
    refine ⟨Nat.le_trans ih.added hadded, fun place h hh hlt => ?_⟩
    exact ih.old place h (hold place h hh (Nat.lt_of_lt_of_le hlt ih.added)) hlt

/-- Every hook has a number that is used up, and no number is used at two places. -/
structure Numbered (r : Roster) : Prop where
  below : ∀ place, ∀ h ∈ r.hooksOn place, h.number < r.added
  apart : ∀ place, ∀ h ∈ r.hooksOn place, ∀ place', ∀ h' ∈ r.hooksOn place',
    h.number = h'.number → place = place'

theorem Numbered.step {r r' : Roster} (hstep : RosterStep r r') (hr : Numbered r) : Numbered r' := by
  cases hstep.installs with
  | none hadded hsub =>
    refine ⟨fun place h hh => hadded ▸ hr.below place h (hsub place hh), ?_⟩
    intro place h hh place' h' hh' heq
    exact hr.apart place h (hsub place hh) place' h' (hsub place' hh') heq
  | one place₀ hadded hsub =>
    constructor
    · intro place h hh
      rcases hsub place h hh with hh | ⟨-, hnumber⟩
      · have := hr.below place h hh
        omega
      · omega
    · intro place h hh place' h' hh' heq
      -- The new hook has a number that no other has.
      rcases hsub place h hh with hh | ⟨rfl, hnumber⟩ <;>
        rcases hsub place' h' hh' with hh' | ⟨rfl, hnumber'⟩
      · exact hr.apart place h hh place' h' hh' heq
      · have := hr.below place h hh
        omega
      · have := hr.below place' h' hh'
        omega
      · rfl

theorem Numbered.steps {r r' : Roster} (h : ReflTransGen RosterStep r r') (hr : Numbered r) :
    Numbered r' := by
  induction h with
  | refl => exact hr
  | tail _ hstep ih => exact ih.step hstep

theorem numbered_of_empty {r : Roster} (hshared : r.shared = []) (hconnections : r.connections = []) :
    Numbered r := by
  have hnone (place : Place) : r.hooksOn place = [] := by
    cases place <;> simp [hooksOn, connection?, hshared, hconnections]
  constructor
  · intro place h hh
    rw [hnone] at hh
    cases hh
  · intro place h hh
    rw [hnone] at hh
    cases hh

end Roster
end BrokerHooks
