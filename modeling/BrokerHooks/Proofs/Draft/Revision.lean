import BrokerHooks.Draft.Edit
import Mathlib.Logic.Basic

namespace BrokerHooks

section Yields

variable {ε α β : Type}

theorem bind_eq_ok {x : Except ε α} {f : α → Except ε β} {b : β} :
    x >>= f = .ok b ↔ ∃ a, x = .ok a ∧ f a = .ok b := by
  cases x <;> simp [bind, Except.bind]

theorem check_bind_eq_ok {x : Except ε Unit} {f : Unit → Except ε β} {b : β} :
    x >>= f = .ok b ↔ x = .ok () ∧ f () = .ok b := by
  rw [bind_eq_ok]
  exact ⟨fun ⟨(), h⟩ => h, fun h => ⟨(), h⟩⟩

theorem map_eq_ok {x : Except ε α} {f : α → β} {b : β} : x.map f = .ok b ↔ ∃ a, x = .ok a ∧ f a = b := by
  cases x <;> simp [Except.map]

/-- Whatever the computation answers satisfies `post`; it may also refuse. -/
def Yields (x : Except ε α) (post : α → Prop) : Prop := ∀ a, x = .ok a → post a

variable {post : α → Prop}

@[simp] theorem yields_ok (a : α) : Yields (.ok a : Except ε α) post ↔ post a := by
  simp [Yields]

@[simp] theorem yields_error (e : ε) : Yields (.error e : Except ε α) post := nofun

@[simp] theorem yields_bind (x : Except ε β) (f : β → Except ε α) :
    Yields (x >>= f) post ↔ ∀ b, x = .ok b → Yields (f b) post := by
  cases x with
  | error e => simp [Yields, bind, Except.bind]
  | ok b => simp [Yields, bind, Except.bind]

/-- A check answers nothing but that it passes. -/
@[simp] theorem yields_check (x : Except ε Unit) (f : Unit → Except ε α) :
    Yields (x >>= f) post ↔ (x = .ok () → Yields (f ()) post) := by
  rw [yields_bind]
  exact ⟨fun h => h (), fun h _ => h⟩

@[simp] theorem yields_map (x : Except ε β) (f : β → α) :
    Yields (x.map f) post ↔ Yields x fun b => post (f b) := by
  cases x <;> simp [Except.map]

@[simp] theorem yields_ite (c : Prop) [Decidable c] (x y : Except ε α) :
    Yields (if c then x else y) post ↔ (c → Yields x post) ∧ (¬ c → Yields y post) := by
  by_cases h : c <;> simp [h]

theorem Yields.mono {post' : α → Prop} {x : Except ε α} (h : Yields x post)
    (hpost : ∀ a, post a → post' a) : Yields x post' := fun a ha => hpost a (h a ha)

end Yields

namespace Revision

variable {α β : Type}

/-- The revision tells truly whether it differs from what was there before. -/
def Tells (r : Revision α) (before : α) : Prop := r.differs ↔ r.value ≠ before

theorem kept_tells (before : α) : (kept before).Tells before := by simp [Tells, kept]

theorem store_tells [DecidableEq β] {old new : β} {value before : α} :
    (store old new value).Tells before ↔ (value = before ↔ new = old) := by
  simp only [Tells, store, decide_eq_true_eq, ne_eq, not_iff_not]
  rw [eq_comm (a := old)]
  exact iff_comm

theorem grown_tells (xs : List α) (x : α) : (grown (xs ++ [x])).Tells xs := by
  simp [Tells, grown]

/-- What is left of a list without some entries is the list itself only if none of them went. -/
theorem pruned_tells {xs ys : List α} (h : ys.Sublist xs) : (pruned xs ys).Tells xs := by
  have hle := h.length_le
  simp only [Tells, pruned, decide_eq_true_eq, ne_eq, ← h.length_eq]
  omega

theorem Tells.map {r : Revision α} {before : α} (h : r.Tells before) {f : α → β} {whole : β}
    (hf : ∀ a, f a = whole ↔ a = before) : (r.map f).Tells whole := by
  simpa only [Tells, Revision.map, ne_eq, hf] using h

end Revision

open Revision (store_tells kept_tells)

variable (limits : PacketLimits)

theorem ConnectEdit.tells (p : ConnectPacket) (e : ConnectEdit) :
    Yields (e.apply limits p) (·.Tells p) := by
  cases e with
  | will value => cases p; cases value <;> simp [apply, store_tells]
  | _ => cases p; simp [apply, store_tells]

theorem ConnackEdit.tells (p : ConnackPacket) (e : ConnackEdit) :
    Yields (e.apply limits p) (·.Tells p) := by
  cases p
  cases e <;> simp [apply, store_tells]

theorem AckPacket.withReasonCode_tells (p : AckPacket) (value : ReasonCode) :
    Yields (p.withReasonCode value) (·.Tells p) := by
  cases p
  simp [withReasonCode, store_tells]

theorem SubscriptionEdit.tells (s : Subscription) (e : SubscriptionEdit) :
    Yields (e.apply limits s) (·.Tells s) := by
  cases e with
  | topicFilter value => cases s; simp [apply, store_tells, kept_tells]
  | _ => cases s; simp [apply, store_tells]

theorem entryAt_eq_ok {α : Type} {xs : List α} {index : Nat} {x : α} :
    entryAt xs index = .ok x ↔ xs[index]? = some x := by
  unfold entryAt
  split <;> simp_all

theorem set_eq_self_iff {α : Type} {xs : List α} {index : Nat} {current x : α}
    (h : xs[index]? = some current) : xs.set index x = xs ↔ x = current := by
  obtain ⟨hlt, rfl⟩ := List.getElem?_eq_some_iff.1 h
  constructor
  · intro heq
    have := List.getElem_set_self (l := xs) (a := x) (h := by simpa using hlt)
    simpa [heq] using this.symm
  · rintro rfl
    exact List.set_getElem_self hlt

/-- Putting an entry in its own place is the one way in which a list stays the same. -/
theorem SubscribePacket.editAt_tells (p : SubscribePacket) (index : Nat) (e : SubscriptionEdit) :
    Yields (p.editAt limits index e) (·.Tells p) := by
  simp only [editAt, yields_bind, yields_ok, entryAt_eq_ok]
  intro current hcurrent changed hchanged
  apply (e.tells limits current changed hchanged).map
  intro s
  rw [← set_eq_self_iff hcurrent]
  cases p
  simp

theorem UnsubscribePacket.editFilters_tells (p : UnsubscribePacket) (e : ListEdit String) :
    Yields (p.editFilters limits e) (·.Tells p) := by
  cases p
  simp [editFilters, store_tells]

theorem SubackPacket.editCodes_tells (p : SubackPacket) (e : ListEdit ReasonCode) :
    Yields (p.editCodes e) (·.Tells p) := by
  cases p
  simp [editCodes, store_tells]

theorem UnsubackPacket.editCodes_tells (p : UnsubackPacket) (e : ListEdit ReasonCode) :
    Yields (p.editCodes e) (·.Tells p) := by
  cases p
  simp [editCodes, store_tells]

theorem DisconnectEdit.tells (p : DisconnectPacket) (e : DisconnectEdit) :
    Yields (e.apply limits p) (·.Tells p) := by
  cases e with
  | reasonCode value => cases p; simp [apply, store_tells]
  | serverReference value => cases p; simp [apply, store_tells]
  | sessionExpiryInterval value =>
    rw [apply]
    split
    · simp
    · cases p; simp [store_tells, kept_tells]

theorem PropertyEdit.tells (ps : UserProperties) (e : PropertyEdit) :
    Yields (e.apply limits ps) (·.Tells ps) := by
  cases e with
  | add p => simp [apply, Revision.grown_tells]
  | remove p =>
    rw [apply, yields_ok]
    exact Revision.pruned_tells List.filter_sublist
  | removeName name =>
    rw [apply, yields_ok]
    exact Revision.pruned_tells List.filter_sublist
  | clear =>
    rw [apply, yields_ok]
    exact Revision.pruned_tells (List.nil_sublist ps)

theorem Edit.setReasonString_tells (p : Packet) (value : Option String) :
    Yields (setReasonString limits p value) (·.Tells p) := by
  unfold setReasonString
  split
  · exact yields_error _
  · rename_i allowed hallowed
    have hslot := p.isSome_allowsReasonString?
    rw [hallowed, Option.isSome_some, eq_comm, Option.isSome_iff_exists] at hslot
    obtain ⟨old, hold⟩ := hslot
    simp [store_tells, hold, Packet.withReasonString_eq_self hold]

theorem Edit.setUserProperties_tells (p : Packet) (e : PropertyEdit) :
    Yields (setUserProperties limits p e) (·.Tells p) := by
  unfold setUserProperties
  split
  · exact yields_error _
  · rename_i ps hps
    simp only [yields_bind, yields_ok]
    intro changed hchanged
    exact (e.tells limits ps changed hchanged).map (Packet.withUserProperties_eq_self hps)

theorem Edit.tells_map {α : Type} {f : α → Packet} (hf : Function.Injective f)
    {x : Except PacketError (Revision α)} {p : α} (h : Yields x (·.Tells p)) :
    Yields (x.map (·.map f)) (·.Tells (f p)) := by
  rw [yields_map]
  exact h.mono fun r hr => hr.map fun _ => hf.eq_iff

/-- Every accepted change tells truly whether it made a difference. -/
theorem Edit.tells (e : Edit) (p : Packet) : Yields (e.apply limits p) (·.Tells p) := by
  unfold apply
  split
  · exact setUserProperties_tells limits p _
  · exact setReasonString_tells limits p _
  · exact tells_map (fun _ _ h => Packet.connect.inj h) (ConnectEdit.tells limits _ _)
  · exact tells_map (fun _ _ h => Packet.connack.inj h) (ConnackEdit.tells limits _ _)
  · exact tells_map (fun _ _ h => Packet.ack.inj h) (AckPacket.withReasonCode_tells _ _)
  · exact tells_map (fun _ _ h => Packet.subscribe.inj h) (SubscribePacket.editAt_tells limits _ _ _)
  · exact tells_map (fun _ _ h => Packet.suback.inj h) (SubackPacket.editCodes_tells _ _)
  · exact tells_map (fun _ _ h => Packet.unsubscribe.inj h)
      (UnsubscribePacket.editFilters_tells limits _ _)
  · exact tells_map (fun _ _ h => Packet.unsuback.inj h) (UnsubackPacket.editCodes_tells _ _)
  · exact tells_map (fun _ _ h => Packet.disconnect.inj h) (DisconnectEdit.tells limits _ _)
  · exact yields_error _

end BrokerHooks
