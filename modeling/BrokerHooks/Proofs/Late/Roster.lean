import BrokerHooks.Proofs.Late.Code
import BrokerHooks.Proofs.Roster.Installation

namespace BrokerHooks

def Connection.bare (conn : Connection) : Connection := { conn with hooks := [] }

namespace Roster

variable {r r' : Roster}

def bare (r : Roster) : Roster := { r with shared := [], connections := r.connections.map (·.bare) }

structure Agrees (r r' : Roster) : Prop where
  bare : r'.bare = r.bare
  hooks : ∀ place, List.Forall₂ Hook.Agrees (r.hooksOn place) (r'.hooksOn place)

theorem Agrees.refl (r : Roster) : Agrees r r :=
  ⟨rfl, fun _ => List.forall₂_same.2 fun h _ => .refl h⟩

theorem Agrees.symm (h : Agrees r r') : Agrees r' r :=
  ⟨h.bare.symm, fun place => forall₂_symm Hook.Agrees.symm (h.hooks place)⟩

theorem bare_bare (r : Roster) : r.bare.bare = r.bare := by
  unfold bare
  rw [List.map_map]
  rfl

theorem bare_connection? (r : Roster) (c : Nat) :
    r.bare.connection? c = (r.connection? c).map (·.bare) := List.getElem?_map ..

@[simp] theorem bare_isReleased (r : Roster) (c : Nat) : r.bare.isReleased c = r.isReleased c := by
  unfold isReleased
  rw [bare_connection?]
  cases r.connection? c <;> rfl

@[simp] theorem bare_isClosed (r : Roster) (c : Nat) : r.bare.isClosed c = r.isClosed c := by
  unfold isClosed
  rw [bare_connection?]
  cases r.connection? c <;> rfl

@[simp] theorem bare_tracked? (r : Roster) (clientId : String) :
    r.bare.tracked? clientId = r.tracked? clientId := by
  unfold tracked?
  simp only [bare_isReleased]
  rfl

@[simp] theorem bare_isTracked (r : Roster) (c : Nat) : r.bare.isTracked c = r.isTracked c := by
  unfold isTracked
  rw [bare_isReleased]
  rfl

theorem bare_modifyConnection (r : Roster) (c : Nat) {f : Connection → Connection}
    (hf : ∀ conn, f conn.bare = (f conn).bare) :
    r.bare.modifyConnection c f = (r.modifyConnection c f).bare := by
  have hconnections : (r.connections.map (·.bare)).modify c f =
      (r.connections.modify c f).map (·.bare) := by
    apply List.ext_getElem?
    intro k
    rw [List.getElem?_modify, List.getElem?_map, List.getElem?_map, List.getElem?_modify]
    cases r.connections[k]? with
    | none => rfl
    | some conn => by_cases hk : c = k <;> simp [hk, hf]
  exact congrArg (fun connections => ({ r.bare with connections } : Roster)) hconnections

/-- What is done to the hooks of connections makes no difference. -/
theorem bare_purge (r : Roster) (id : String) : (r.purge id).bare = r.bare := by
  have hconnections : (r.purge id).connections.map (·.bare) = r.connections.map (·.bare) := by
    apply List.ext_getElem?
    intro k
    unfold purge
    rw [List.getElem?_map, List.getElem?_map, List.getElem?_mapIdx]
    cases r.connections[k]? with
    | none => rfl
    | some conn => by_cases hk : r.isTracked k <;> simp [hk, Connection.bare]
  exact congrArg (fun connections => ({ r.bare with connections } : Roster)) hconnections

theorem bare_install (r : Roster) (hook : Hook) (place : Place) : (r.install hook place).bare = r.bare := by
  cases place with
  | shared => rfl
  | connection c =>
    have hconnections : (r.install hook (.connection c)).connections.map (·.bare) =
        r.connections.map (·.bare) := by
      apply List.ext_getElem?
      intro k
      unfold install modifyConnection
      rw [List.getElem?_map, List.getElem?_map, List.getElem?_modify]
      cases r.connections[k]? with
      | none => rfl
      | some conn => by_cases hk : c = k <;> simp [hk, Connection.bare]
    exact congrArg (fun connections => ({ r.bare with connections } : Roster)) hconnections

theorem bare_openConnection (r : Roster) (clientId : String) (version : ProtocolVersion)
    (aliasMaximum : Option UInt16) : r.bare.openConnection clientId version aliasMaximum =
      Prod.map id bare (r.openConnection clientId version aliasMaximum) := by
  simp [openConnection, bare, Connection.bare]

theorem bare_track (r : Roster) (c : Nat) : r.bare.track c = (r.track c).bare := by
  unfold track
  rw [bare_connection?]
  cases r.connection? c <;> rfl

theorem bare_close (r : Roster) (c : Nat) (reason : Option ReasonCode) :
    r.bare.close c reason = Prod.map id bare (r.close c reason) := by
  unfold close
  rw [bare_isClosed]
  split
  · rfl
  · exact congrArg (fun r : Roster => (true, { r with aliases := r.aliases.drop c }))
      (bare_modifyConnection r c (f := fun conn => { conn with closed := true, closeReason := reason })
        fun _ => rfl)

theorem bare_resolve (r : Roster) (c : Nat) (topic : String) (number : Option UInt16) :
    r.bare.resolve c topic number = Prod.map id bare (r.resolve c topic number) := by
  have haliases : r.bare.aliases = r.aliases := rfl
  unfold resolve
  rw [haliases]
  split <;> rfl

theorem bare_letGo (r : Roster) (c : Nat) : r.bare.letGo c = (r.letGo c).bare :=
  bare_modifyConnection r c fun _ => rfl

theorem bare_release (r : Roster) (c : Nat) : r.bare.release c = (r.release c).bare :=
  congrArg (fun r : Roster => { r with aliases := r.aliases.drop c })
    (bare_modifyConnection r c (f := fun conn => { conn with released := true }) fun _ => rfl)

theorem bare_register (r : Roster) (id : String) (priority : Int) :
    r.bare.register id priority = (r.register id priority).map bare := by
  have hregistered : r.bare.isRegistered id = r.isRegistered id := rfl
  unfold register
  rw [hregistered]
  split <;> rfl

theorem bare_setEnabled (r : Roster) (id : String) (enabled : Bool) :
    r.bare.setEnabled id enabled = (r.setEnabled id enabled).map bare := by
  have hregistered : r.bare.isRegistered id = r.isRegistered id := rfl
  unfold setEnabled
  rw [hregistered]
  split <;> rfl

theorem bare_remove (r : Roster) (id : String) :
    (r.bare.remove id).map bare = (r.remove id).map bare := by
  have hregistered : r.bare.isRegistered id = r.isRegistered id := rfl
  unfold remove
  rw [hregistered]
  split
  · simp only [Except.map, bare_purge]
    exact congrArg (fun r' : Roster => Except.ok { r' with extensions := r.extensions.filter (·.id ≠ id) })
      (bare_bare r)
  · rfl

theorem bare_disable (r : Roster) (id : String) :
    (r.bare.disable id).map bare = (r.disable id).map bare := by
  unfold disable
  rw [bare_setEnabled]
  cases r.setEnabled id false with
  | error e => rfl
  | ok r' =>
    simp only [Except.map, bare_purge]
    rw [bare_bare]

theorem bare_add (r : Roster) (place : Place) (id : String) (point : Point) (family : Family)
    (respond respond' : Nat → Input → Program) :
    (r.bare.add place id point family respond').map bare = (r.add place id point family respond).map bare := by
  have hregistered : r.bare.isRegistered id = r.isRegistered id := rfl
  rw [add_def, add_def, hregistered]
  split
  · rfl
  split
  · rfl
  simp only [Except.map, bare_install]
  exact congrArg (fun r' : Roster => Except.ok { r' with added := r.added + 1 }) (bare_bare r)

/-- The requests ask for the same, with code that agrees. -/
inductive Request.Agrees : Request → Request → Prop where
  | same (q : Request) : Agrees q q
  | add {place : Place} {id : String} {point : Point} {family : Family}
      {respond respond' : Nat → Input → Program}
      (h : ∀ n input, (respond n input).Agrees False (respond' n input)) :
      Agrees (.add place id point family respond) (.add place id point family respond')

theorem Request.Agrees.symm {q q' : Request} (h : q.Agrees q') : q'.Agrees q := by
  cases h with
  | same q => exact .same q
  | add h => exact .add fun n input => (h n input).symm

theorem tryUpdate_bare {update update' : Except RegistryError Roster} (h : update'.map bare = update.map bare) :
    (Broker.tryUpdate r.bare update').1 = (Broker.tryUpdate r update).1 ∧
      (Broker.tryUpdate r.bare update').2.bare = (Broker.tryUpdate r update).2.bare := by
  cases update <;> cases update' <;> simp_all [Except.map, Broker.tryUpdate, bare_bare]

/-- The answer and what becomes of the rest do not depend on the hooks, nor on the code of a new one. -/
theorem answer_bare {q q' : Request} (h : q.Agrees q') :
    (r.bare.answer q').1 = (r.answer q).1 ∧ (r.bare.answer q').2.bare = (r.answer q).2.bare := by
  cases h with
  | add h => exact tryUpdate_bare (bare_add ..)
  | same q =>
    cases q with
    | openConnection clientId version aliasMaximum =>
      exact ⟨rfl, by simp only [answer, bare_openConnection, Prod.map, bare_bare]⟩
    | track c => exact ⟨rfl, by simp only [answer, bare_track, bare_bare]⟩
    | untrack clientId => exact ⟨rfl, bare_bare (r.untrack clientId)⟩
    | close c reason => exact ⟨rfl, by simp only [answer, bare_close, Prod.map, bare_bare]⟩
    | resolve c topic number => exact ⟨rfl, by simp only [answer, bare_resolve, Prod.map, bare_bare]⟩
    | letGo c => exact ⟨rfl, by simp only [answer, bare_letGo, bare_bare]⟩
    | release c => exact ⟨rfl, by simp only [answer, bare_release, bare_bare]⟩
    | register id priority =>
      refine tryUpdate_bare ?_
      rw [bare_register]
      cases r.register id priority <;> simp [Except.map, bare_bare]
    | enable id =>
      refine tryUpdate_bare ?_
      rw [enable, bare_setEnabled]
      cases h : r.setEnabled id true <;> simp [enable, h, Except.map, bare_bare]
    | remove id => exact tryUpdate_bare (bare_remove r id)
    | disable id => exact tryUpdate_bare (bare_disable r id)
    | add place id point family respond => exact tryUpdate_bare (bare_add ..)

namespace Agrees

theorem bare_answer (h : Agrees r r') {q q' : Request} (hq : q.Agrees q') :
    (r'.answer q').1 = (r.answer q).1 ∧ (r'.answer q').2.bare = (r.answer q).2.bare := by
  have hright := answer_bare (r := r') (.same q')
  have hleft := answer_bare (r := r) hq
  rw [h.bare] at hright
  exact ⟨hright.1.symm.trans hleft.1, hright.2.symm.trans hleft.2⟩

theorem isTracked (h : Agrees r r') (c : Nat) : r'.isTracked c = r.isTracked c := by
  rw [← bare_isTracked, h.bare, bare_isTracked]

theorem isReleased (h : Agrees r r') (c : Nat) : r'.isReleased c = r.isReleased c := by
  rw [← bare_isReleased, h.bare, bare_isReleased]

theorem isClosed (h : Agrees r r') (c : Nat) : r'.isClosed c = r.isClosed c := by
  rw [← bare_isClosed, h.bare, bare_isClosed]

theorem tracked? (h : Agrees r r') (clientId : String) : r'.tracked? clientId = r.tracked? clientId := by
  rw [← bare_tracked?, h.bare, bare_tracked?]

theorem isEnabled (h : Agrees r r') (id : String) : r'.isEnabled id = r.isEnabled id :=
  congrArg (·.isEnabled id) h.bare

theorem aliases (h : Agrees r r') : r'.aliases = r.aliases := congrArg (·.aliases) h.bare

theorem added (h : Agrees r r') : r'.added = r.added := congrArg (·.added) h.bare

theorem connection? (h : Agrees r r') (c : Nat) :
    (r'.connection? c).map (·.bare) = (r.connection? c).map (·.bare) := by
  rw [← bare_connection?, h.bare, bare_connection?]

theorem has (h : Agrees r r') (place : Place) : r'.has place = r.has place := by
  cases place with
  | shared => rfl
  | connection c => simpa [Roster.has] using congrArg Option.isSome (h.connection? c)

theorem grants (h : Agrees r r') {q q' : Request} (hq : q.Agrees q') : r'.Grants q' ↔ r.Grants q := by
  unfold Grants
  rw [(h.bare_answer hq).1]

theorem withdraws (h : Agrees r r') {q q' : Request} (hq : q.Agrees q') {id : String} {place : Place}
    (hw : r.Withdraws id place q) : r'.Withdraws id place q' := by
  have hgrants := h.grants hq
  cases hw with
  | removed hok =>
    cases hq
    exact .removed (hgrants.2 hok)
  | removedFrom hok htracked =>
    cases hq
    exact .removedFrom (hgrants.2 hok) (h.isTracked _ ▸ htracked)
  | disabledOn hok htracked =>
    cases hq
    exact .disabledOn (hgrants.2 hok) (h.isTracked _ ▸ htracked)

theorem places (h : Agrees r r') {q q' : Request} (hq : q.Agrees q') {place : Place} {hook : Hook}
    (hp : r.Places place hook q) : ∃ hook', r'.Places place hook' q' ∧ hook.Agrees hook' := by
  have hgranted := (h.grants hq).2 hp.granted
  have hthere : r'.has place := h.has place ▸ hp.there
  have hnumber : hook.number = r'.added := hp.number.trans h.added.symm
  obtain ⟨rfl, -, -, -⟩ := hp
  cases hq with
  | same => exact ⟨hook, ⟨rfl, hgranted, hthere, hnumber⟩, .refl hook⟩
  | @add _ _ _ _ _ respond' hcode =>
    exact ⟨{ hook with respond := respond' }, ⟨rfl, hgranted, hthere, hnumber⟩, rfl, rfl, rfl, rfl, hcode⟩

theorem answer (h : Agrees r r') {q q' : Request} (hq : q.Agrees q') :
    Agrees (r.answer q).2 (r'.answer q').2 := by
  refine ⟨(h.bare_answer hq).2, fun place => ?_⟩
  -- What the request makes of the hooks at a place is the same on both sides, since it asks for the same.
  cases r.refits place q with
  | kept hhooks hplaces hwithdraws =>
    have hhooks' : (r'.answer q').2.hooksOn place = r'.hooksOn place := by
      cases r'.refits place q' with
      | kept hhooks' => exact hhooks'
      | withdrawn id hw => exact absurd (h.symm.withdraws hq.symm hw) (hwithdraws id)
      | placed hook hp =>
        obtain ⟨hook', hp', -⟩ := h.symm.places hq.symm hp
        exact absurd hp' (hplaces hook')
    rw [hhooks, hhooks']
    exact h.hooks place
  | withdrawn id hw hhooks =>
    have hw' := h.withdraws hq hw
    have hhooks' : (r'.answer q').2.hooksOn place = (r'.hooksOn place).filter (·.extension ≠ id) := by
      cases r'.refits place q' with
      | kept _ _ hwithdraws => exact absurd hw' (hwithdraws id)
      | withdrawn id' hw'' hhooks' => exact hw'.unique hw'' ▸ hhooks'
      | placed hook hp => exact absurd hw' (hp.not_withdraws id)
    rw [hhooks, hhooks']
    refine List.rel_filter (fun hook hook' hagrees => ?_) (h.hooks place)
    simp [hagrees.extension]
  | placed hook hp hhooks =>
    obtain ⟨hook', hp', hagrees⟩ := h.places hq hp
    have hhooks' : (r'.answer q').2.hooksOn place = r'.hooksOn place ++ [hook'] := by
      cases r'.refits place q' with
      | kept _ hplaces => exact absurd hp' (hplaces hook')
      | withdrawn id hw => exact absurd hw (hp'.not_withdraws id)
      | placed hook'' hp'' hhooks' => exact hp'.unique hp'' ▸ hhooks'
    rw [hhooks, hhooks']
    exact List.rel_append (h.hooks place) (.cons hagrees .nil)

theorem ordered (h : Agrees r r') (c : Nat) (point : Point) :
    List.Forall₂ Ranked.Agrees (r.ordered c point) (r'.ordered c point) := by
  have hat : List.Forall₂ Hook.Agrees (r.hooksAt c point) (r'.hooksAt c point) := by
    refine List.rel_filter (fun hook hook' hagrees => ?_)
      (List.rel_append (h.hooks .shared) (h.hooks (.connection c)))
    simp [hagrees.point]
  refine forall₂_mergeSort (List.rel_filterMap (fun hook hook' hagrees => ?_) hat)
    fun hx hy => hx.precedes hy
  have hextension : r'.extension? hook'.extension = r.extension? hook.extension := by
    rw [hagrees.extension]
    exact congrArg (·.extension? hook.extension) h.bare
  unfold rank?
  rw [hextension, hagrees.family, hagrees.point]
  cases r.extension? hook.extension with
  | none => exact .none
  | some e =>
    rw [Option.bind_some, Option.bind_some]
    split
    · exact .some ⟨rfl, hagrees⟩
    · exact .none

end Agrees

end Roster
end BrokerHooks
