import BrokerHooks.Draft.Basic
import BrokerHooks.Proofs.Draft.Revision
import Mathlib.Data.List.Basic

namespace BrokerHooks

namespace PropertyEdit

def added? : PropertyEdit → Option UserProperty
  | .add p => some p
  | .remove _ | .removeName _ | .clear => none

def takes : PropertyEdit → UserProperty → Bool
  | .add _, _ => false
  | .remove p, q => q = p
  | .removeName name, q => q.name = name
  | .clear, _ => true

def leaves (e : PropertyEdit) (ps : UserProperties) : UserProperties :=
  ps.filter (!e.takes ·) ++ e.added?.toList

variable (limits : PacketLimits) (ps : UserProperties)

/-- A removal is never refused. -/
theorem apply_removal {e : PropertyEdit} (h : e.added? = none) :
    e.apply limits ps = .ok (.pruned ps (e.leaves ps)) := by
  cases e with
  | add p => cases h
  | remove p => simp [apply, leaves, takes, added?, UserProperties.removePair]
  | removeName name => simp [apply, leaves, takes, added?, UserProperties.removeName]
  | clear => simp [apply, leaves, takes, added?, List.filter_false]

theorem apply_leaves (e : PropertyEdit) : Yields (e.apply limits ps) fun r => r.value = e.leaves ps := by
  cases e with
  | add p => simp [apply, leaves, takes, added?, Revision.grown, List.filter_true]
  | remove | removeName | clear =>
    rw [apply_removal limits ps rfl]
    exact (yields_ok _).2 rfl

theorem length_sub_length_leaves {e : PropertyEdit} (h : e.added? = none) :
    ps.length - (e.leaves ps).length = ps.countP e.takes := by
  have hsplit := ps.length_eq_countP_add_countP e.takes
  have hrest : (e.leaves ps).length = ps.countP fun q => ¬e.takes q := by
    simp [leaves, h, List.countP_eq_length_filter]
  omega

end PropertyEdit

namespace UserProperties

/-- An occurrence of a property in a list, with the changes that are made to the list after it came in. -/
structure Occurrence where
  property : UserProperty
  later : List PropertyEdit
deriving DecidableEq, Repr

def Occurrence.survives (o : Occurrence) : Bool := o.later.all (!·.takes o.property)

/-- The occurrences that come in by the changes, in their order. -/
def additions : List PropertyEdit → List Occurrence
  | [] => []
  | e :: later => e.added?.toList.map (⟨·, later⟩) ++ additions later

/-- All that the list ever holds if the changes are made to it: what it starts with, and behind that what is added. -/
def occurrences (start : UserProperties) (es : List PropertyEdit) : List Occurrence :=
  start.map (⟨·, es⟩) ++ additions es

def surviving (start : UserProperties) (es : List PropertyEdit) : List Occurrence :=
  (start.occurrences es).filter (·.survives)

variable (start : UserProperties) (es : List PropertyEdit)

theorem map_property_occurrences :
    (start.occurrences es).map (·.property) = start ++ es.filterMap (·.added?) := by
  have hadditions : (additions es).map (·.property) = es.filterMap (·.added?) := by
    induction es with
    | nil => rfl
    | cons e es ih => cases h : e.added? <;> simp [additions, h, ih]
  simp [occurrences, hadditions, Function.comp_def]

/-- Of properties that came in together, those survive that no later change takes. -/
theorem map_property_filter_survives :
    ((start.map (⟨·, es⟩ : UserProperty → Occurrence)).filter (·.survives)).map (·.property) =
      start.filter fun p => es.all (!·.takes p) := by
  simp [List.filter_map, Occurrence.survives, Function.comp_def]

theorem map_property_surviving_nil : (start.surviving []).map (·.property) = start := by
  rw [surviving, occurrences, additions, List.append_nil, map_property_filter_survives]
  simp

/-- The first change reaches the start alone, and what it adds fares like the rest of a start. -/
theorem map_property_surviving_cons (e : PropertyEdit) :
    (start.surviving (e :: es)).map (·.property) = (surviving (e.leaves start) es).map (·.property) := by
  simp only [surviving, occurrences, additions, PropertyEdit.leaves, List.filter_append, List.map_append,
    map_property_filter_survives, List.filter_filter, List.all_cons, Bool.and_comm, List.append_assoc]

end UserProperties

def Call.propertyEdit? : Call → Option PropertyEdit
  | .edit (.property e) => some e
  | .edit _ | .query _ => none

section Frame

open Revision (store kept)

variable (limits : PacketLimits)

theorem ConnectEdit.userProperties (p : ConnectPacket) (e : ConnectEdit) :
    Yields (e.apply limits p) fun r => r.value.userProperties = p.userProperties := by
  cases e with
  | will value => cases value <;> simp [apply, store]
  | _ => simp [apply, store]

theorem ConnackEdit.userProperties (p : ConnackPacket) (e : ConnackEdit) :
    Yields (e.apply limits p) fun r => r.value.userProperties = p.userProperties := by
  cases e <;> simp [apply, store]

theorem DisconnectEdit.userProperties (p : DisconnectPacket) (e : DisconnectEdit) :
    Yields (e.apply limits p) fun r => r.value.userProperties = p.userProperties := by
  cases h : p.direction <;> cases e <;> simp [apply, store, kept, DisconnectPacket.isInbound, h]

/-- No change to another part of the packet reaches the user properties. -/
theorem Edit.userProperties?_of_other {e : Edit} (he : (Call.edit e).propertyEdit? = none) (p : Packet) :
    Yields (e.apply limits p) fun r => r.value.userProperties? = p.userProperties? := by
  unfold apply
  split
  · cases he
  · unfold setReasonString
    split
    · exact yields_error _
    · simp only [yields_check, yields_ite, yields_error, implies_true, true_and, yields_ok, store]
      intro _ _
      cases p <;> rfl
  · exact (yields_map _ _).2 ((ConnectEdit.userProperties limits _ _).mono fun r hr => congrArg some hr)
  · exact (yields_map _ _).2 ((ConnackEdit.userProperties limits _ _).mono fun r hr => congrArg some hr)
  · simp [AckPacket.withReasonCode, store, Revision.map, Packet.userProperties?]
  · simp [SubscribePacket.editAt, Revision.map, Packet.userProperties?]
  · simp [SubackPacket.editCodes, store, Revision.map, Packet.userProperties?]
  · simp [UnsubscribePacket.editFilters, store, Revision.map, Packet.userProperties?]
  · simp [UnsubackPacket.editCodes, store, Revision.map, Packet.userProperties?]
  · exact (yields_map _ _).2 ((DisconnectEdit.userProperties limits _ _).mono fun r hr => congrArg some hr)
  · exact yields_error _

theorem Edit.userProperties?_property {p : Packet} {ps : UserProperties} (h : p.userProperties? = some ps)
    (e : PropertyEdit) :
    Yields ((property e).apply limits p) fun r => r.value.userProperties? = some (e.leaves ps) := by
  simp only [apply, setUserProperties, h, yields_bind, yields_ok]
  intro changed hchanged
  rw [Revision.map, Packet.userProperties?_withUserProperties, h, e.apply_leaves limits ps changed hchanged]
  rfl

end Frame

namespace Draft

open UserProperties (Occurrence map_property_surviving_nil map_property_surviving_cons map_property_occurrences)

def propertyChange? (d : Draft) (c : Call) : Option PropertyEdit :=
  if (d.call c).1.isOk then c.propertyEdit? else none

def propertyChanges (d : Draft) : List Call → List PropertyEdit
  | [] => []
  | c :: cs => (d.propertyChange? c).toList ++ (d.call c).2.propertyChanges cs

/-- What a draft tells of its user properties, and what it answers to the next change of them, if `kept` are the
occurrences that are left. It does not say how many of them it clears, but takes down whether there were any. -/
structure Lists (d : Draft) (kept : List Occurrence) : Prop where
  userProperties : d.packet.userProperties? = some (kept.map (·.property))
  getAll : ∀ name, (d.call (.query (.allProperties name))).1 =
    .ok (.texts ((kept.filter (·.property.name = name)).map (·.property.value)))
  getFirst : ∀ name, (d.call (.query (.firstProperty name))).1 =
    .ok (.text ((kept.filter (·.property.name = name)).map (·.property.value)).head?)
  add : ∀ p, (d.call (.edit (.property (.add p)))).1 = (checkProperty d.limits p).map fun _ => .done
  remove : ∀ p, (d.call (.edit (.property (.remove p)))).1 = .ok (.removed (kept.countP (·.property = p)))
  removeName : ∀ name, (d.call (.edit (.property (.removeName name)))).1 =
    .ok (.removed (kept.countP (·.property.name = name)))
  clear : ∃ d', d.call (.edit (.property .clear)) = (.ok .done, d') ∧ d.removedCount d' = kept.length ∧
    d'.modified = (d.modified || 0 < kept.length)

variable {d : Draft} {ps : UserProperties}

theorem call_userProperties (h : d.packet.userProperties? = some ps) (c : Call) :
    (d.call c).2.packet.userProperties? = some ((d.propertyChange? c).elim ps (·.leaves ps)) := by
  cases c with
  | query q =>
    rw [propertyChange?, Call.propertyEdit?, ite_self]
    exact h
  | edit e =>
    cases happly : e.apply d.limits d.packet with
    | error err =>
      rw [propertyChange?, call_edit_of_error happly]
      exact h
    | ok r =>
      rw [propertyChange?, call_edit_of_ok happly]
      cases e with
      | property e => exact Edit.userProperties?_property d.limits h e r happly
      | reasonString | connect | connack | ackReasonCode | subscription | subackCodes | topicFilters | unsubackCodes |
        disconnect => exact (Edit.userProperties?_of_other d.limits rfl d.packet r happly).trans h

theorem after_userProperties (h : d.packet.userProperties? = some ps) (cs : List Call) :
    (d.after cs).packet.userProperties? = some ((ps.surviving (d.propertyChanges cs)).map (·.property)) := by
  induction cs generalizing d ps with
  | nil => rw [after_nil, propertyChanges, map_property_surviving_nil, h]
  | cons c cs ih =>
    -- what the first call leaves is the start for the others
    rw [after_cons, ih (call_userProperties h c), propertyChanges]
    cases d.propertyChange? c with
    | none => rfl
    | some e => exact congrArg some (map_property_surviving_cons ps _ e).symm

theorem call_removal (h : d.packet.userProperties? = some ps) {e : PropertyEdit} (he : e.added? = none) :
    ∃ d', d.call (.edit (.property e)) = (.ok (d.reply d' (.property e)), d') ∧
      d.removedCount d' = ps.countP e.takes ∧ d'.modified = (d.modified || 0 < ps.countP e.takes) := by
  have happly : (Edit.property e).apply d.limits d.packet =
      .ok ((Revision.pruned ps (e.leaves ps)).map d.packet.withUserProperties) := by
    simp only [Edit.apply, Edit.setUserProperties, h, PropertyEdit.apply_removal d.limits ps he]
    rfl
  have hcount := PropertyEdit.length_sub_length_leaves ps he
  refine ⟨_, call_edit_of_ok happly, ?_, ?_⟩
  · simp [removedCount, revise, Revision.map, Revision.pruned, h, hcount]
  · simp [revise, Revision.map, Revision.pruned, hcount]

theorem lists_of_userProperties {kept : List Occurrence}
    (h : d.packet.userProperties? = some (kept.map (·.property))) : d.Lists kept where
  userProperties := h
  getAll name := by
    simp [call, query, h, UserProperties.getAll, List.filter_map, Function.comp_def]
  getFirst name := by
    simp [call, query, h, UserProperties.getFirst?_eq_head?, UserProperties.getAll, List.filter_map, Function.comp_def]
  add p := by
    have happly : (Edit.property (.add p)).apply d.limits d.packet = (checkProperty d.limits p).map fun _ =>
        (Revision.grown (kept.map (·.property) ++ [p])).map d.packet.withUserProperties := by
      simp only [Edit.apply, Edit.setUserProperties, h, PropertyEdit.apply]
      cases checkProperty d.limits p <;> rfl
    cases hcheck : checkProperty d.limits p with
    | error err =>
      rw [hcheck] at happly
      rw [call_edit_of_error happly]
      rfl
    | ok _ =>
      rw [hcheck] at happly
      rw [call_edit_of_ok happly]
      rfl
  remove p := by
    obtain ⟨d', hcall, hcount, -⟩ := call_removal h (e := .remove p) rfl
    rw [hcall, reply, hcount, List.countP_map]
    rfl
  removeName name := by
    obtain ⟨d', hcall, hcount, -⟩ := call_removal h (e := .removeName name) rfl
    rw [hcall, reply, hcount, List.countP_map]
    rfl
  clear := by
    -- Clearing is a removal that takes every entry.
    obtain ⟨d', hcall, hcount, hmodified⟩ := call_removal h (e := .clear) rfl
    have hall : (kept.map (·.property)).countP PropertyEdit.clear.takes = kept.length := by
      simp [PropertyEdit.takes, List.countP_map, Function.comp_def]
    rw [hall] at hcount hmodified
    exact ⟨d', hcall, hcount, hmodified⟩

/-- The user properties of any packet under any calls. The occurrences that there ever were are those it came with
and, behind them, those that were added, in the order of the calls that did; a call that is refused, or is for another
part of the packet, has no part in them. Left of them, each in its place, are those that no removal took which came
after them. The draft tells of these and no others, and answers a removal with how many of them it takes. -/
theorem occurrences_stay_until_taken (limits : PacketLimits) (p : Packet) (start : UserProperties)
    (h : p.userProperties? = some start) (cs : List Call) :
    let changes := (ofPacket limits p).propertyChanges cs
    (start.occurrences changes).map (·.property) = start ++ changes.filterMap (·.added?) ∧
    ((ofPacket limits p).after cs).Lists ((start.occurrences changes).filter (·.survives)) :=
  ⟨map_property_occurrences start _, lists_of_userProperties (after_userProperties h cs)⟩

/-- A pair that is added again after it was removed stays, at its new place, and a text that is refused adds nothing. -/
theorem readded_property_stays :
    let start : UserProperties := [⟨"k", "1"⟩, ⟨"k", "2"⟩]
    let p : Packet := .ack { kind := .pubrec, packetId := 7, userProperties := start }
    let calls : List Call :=
      [.edit (.property (.add ⟨"k", "1"⟩)), .edit (.property (.remove ⟨"k", "1"⟩)),
        .edit (.property (.add ⟨"a", "0"⟩)), .edit (.property (.add ⟨"k", "1"⟩)), .edit (.ackReasonCode .quotaExceeded),
        .edit (.property (.add ⟨"k", "\x00"⟩)), .edit (.property (.removeName "a"))]
    let d := (ofPacket {} p).after calls
    p.userProperties? = some start ∧
      (ofPacket {} p).propertyChanges calls =
        [.add ⟨"k", "1"⟩, .remove ⟨"k", "1"⟩, .add ⟨"a", "0"⟩, .add ⟨"k", "1"⟩, .removeName "a"] ∧
      d.packet.userProperties? = some [⟨"k", "2"⟩, ⟨"k", "1"⟩] ∧
      (d.call (.query (.allProperties "k"))).1 = .ok (.texts ["2", "1"]) ∧
      (d.call (.edit (.property (.removeName "k")))).1 = .ok (.removed 2) := by
  intro start p calls d
  have hchanges : (ofPacket {} p).propertyChanges calls =
      [.add ⟨"k", "1"⟩, .remove ⟨"k", "1"⟩, .add ⟨"a", "0"⟩, .add ⟨"k", "1"⟩, .removeName "a"] := by decide
  obtain ⟨-, hlists⟩ := occurrences_stay_until_taken {} p start rfl calls
  rw [hchanges] at hlists
  exact ⟨rfl, hchanges, hlists.userProperties, hlists.getAll "k", hlists.removeName "k"⟩

end Draft
end BrokerHooks
