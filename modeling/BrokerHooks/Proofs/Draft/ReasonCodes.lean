import BrokerHooks.Draft.Basic
import BrokerHooks.Proofs.Draft.Revision
import Mathlib.Data.List.Forall2

namespace BrokerHooks

theorem forall₂_trans {α : Type} {R : α → α → Prop} (htrans : ∀ x y z, R x y → R y z → R x z)
    {xs ys zs : List α} (h : List.Forall₂ R xs ys) (h' : List.Forall₂ R ys zs) : List.Forall₂ R xs zs := by
  induction h generalizing zs with
  | nil => exact h'
  | cons hxy _ ih =>
    cases h' with
    | cons hyz hrest => exact .cons (htrans _ _ _ hxy hyz) (ih hrest)

namespace Packet

/-- The reason codes that may not switch sides: all but that of a DISCONNECT. -/
def reasonCodes : Packet → List ReasonCode
  | .connack p => [p.reasonCode]
  | .ack p => [p.reasonCode]
  | .suback p => p.reasonCodes
  | .unsuback p => p.reasonCodes
  | .connect _ | .subscribe _ | .unsubscribe _ | .ping _ | .disconnect _ => []

def admits : Packet → ReasonCode → Bool
  | .connack _ => ReasonCode.inConnack
  | .ack p => p.kind.allows
  | .suback _ => ReasonCode.inSuback
  | .unsuback _ => ReasonCode.inUnsuback
  | .connect _ | .subscribe _ | .unsubscribe _ | .ping _ | .disconnect _ => fun _ => false

/-- `d` may stand where `c` stood: it is on the same side, and another code only if the packet admits it. -/
def Replaces (p : Packet) (c d : ReasonCode) : Prop := d.isError = c.isError ∧ (d = c ∨ p.admits d)

def ReasonInPlace (p : Packet) : Prop :=
  ∀ reason, p.reasonString? = some (some reason) → p.allowsReasonString? = some true

/-- `q` reports what `p` reports. -/
structure ReportsAs (p q : Packet) : Prop where
  admits : q.admits = p.admits
  codes : List.Forall₂ p.Replaces p.reasonCodes q.reasonCodes
  allowsReasonString : q.allowsReasonString? = p.allowsReasonString?
  reason : p.ReasonInPlace → q.ReasonInPlace

def allowsReason : Family → (fails : Bool) → Option Bool
  | .connack, fails | .ack, fails | .suback, fails | .unsuback, fails => some fails
  | .disconnect, _ => some true
  | .connect, _ | .subscribe, _ | .unsubscribe, _ | .ping, _ => none

theorem allowsReasonString?_eq (p : Packet) :
    p.allowsReasonString? = allowsReason p.family (p.reasonCodes.any (·.isError)) := by
  cases p with
  | connack p => simp [allowsReasonString?, allowsReason, family, reasonCodes, ConnackPacket.allowsReasonString]
  | ack p => simp [allowsReasonString?, allowsReason, family, reasonCodes, AckPacket.allowsReasonString]
  | _ => rfl

theorem Replaces.refl (p : Packet) (c : ReasonCode) : p.Replaces c c := ⟨rfl, .inl rfl⟩

theorem Replaces.trans {p : Packet} {c d e : ReasonCode} (h : p.Replaces c d) (h' : p.Replaces d e) :
    p.Replaces c e := by
  refine ⟨h'.1.trans h.1, ?_⟩
  rcases h'.2 with rfl | hadmitted
  · exact h.2
  · exact .inr hadmitted

theorem Replaces.any_isError {p : Packet} {cs ds : List ReasonCode} (h : List.Forall₂ p.Replaces cs ds) :
    ds.any (·.isError) = cs.any (·.isError) := by
  induction h with
  | nil => rfl
  | cons hd _ ih => rw [List.any_cons, List.any_cons, hd.1, ih]

namespace ReportsAs

/-- Where the codes are replaced one by one, only a reason string that was not there before is to be judged. -/
theorem of_codes {p q : Packet} (hfamily : q.family = p.family) (hadmits : q.admits = p.admits)
    (hcodes : List.Forall₂ p.Replaces p.reasonCodes q.reasonCodes)
    (hreason : q.reasonString? = p.reasonString? ∨ q.ReasonInPlace) : p.ReportsAs q := by
  have hallows : q.allowsReasonString? = p.allowsReasonString? := by
    rw [allowsReasonString?_eq, allowsReasonString?_eq, hfamily, Replaces.any_isError hcodes]
  refine ⟨hadmits, hcodes, hallows, fun hp => ?_⟩
  rcases hreason with hreason | hreason
  · intro reason h
    rw [hallows]
    exact hp reason (hreason ▸ h)
  · exact hreason

theorem of_same {p q : Packet} (hfamily : q.family = p.family) (hadmits : q.admits = p.admits)
    (hcodes : q.reasonCodes = p.reasonCodes)
    (hreason : q.reasonString? = p.reasonString? ∨ q.ReasonInPlace) : p.ReportsAs q :=
  of_codes hfamily hadmits (hcodes ▸ List.forall₂_same.2 fun c _ => .refl p c) hreason

theorem refl (p : Packet) : p.ReportsAs p := of_same rfl rfl rfl (.inl rfl)

theorem trans {p q r : Packet} (h : p.ReportsAs q) (h' : q.ReportsAs r) : p.ReportsAs r where
  admits := h'.admits.trans h.admits
  codes := by
    apply forall₂_trans (fun _ _ _ => .trans) h.codes
    exact h'.codes.imp fun c d hd => ⟨hd.1, hd.2.imp_right fun hq => h.admits ▸ hq⟩
  allowsReasonString := h'.allowsReasonString.trans h.allowsReasonString
  reason := h'.reason ∘ h.reason

end ReportsAs
end Packet

open Packet (ReportsAs Replaces)
open Revision (store kept)

theorem checkReasonCode_eq_ok {packet : String} {allowed : ReasonCode → Bool} {c d : ReasonCode} :
    checkReasonCode packet allowed c d = .ok () ↔ allowed d ∧ d.isError = c.isError := by
  rw [d.isError_eq_not_isSuccess, c.isError_eq_not_isSuccess]
  unfold checkReasonCode ReasonCode.crosses
  cases allowed d <;> cases c.isSuccess <;> cases d.isSuccess <;> simp

theorem forM_eq_ok {ε α : Type} {f : α → Except ε Unit} {xs : List α} :
    forM xs f = .ok () ↔ ∀ x ∈ xs, f x = .ok () := by
  induction xs with
  | nil => simp [pure, Except.pure]
  | cons x xs ih =>
    rw [List.forall_mem_cons, ← ih, List.forM_cons]
    cases f x <;> simp [bind, Except.bind]

theorem checkReasonCodes_eq_ok {packet : String} {allowed : ReasonCode → Bool} {cs ds : List ReasonCode} :
    checkReasonCodes packet allowed cs ds = .ok () ↔
      List.Forall₂ (fun c d => allowed d ∧ d.isError = c.isError) cs ds := by
  rw [List.forall₂_iff_zip]
  unfold checkReasonCodes
  split
  · rename_i hlength
    simp [Ne.symm hlength]
  · rename_i hlength
    simp [forM_eq_ok, checkReasonCode_eq_ok, not_not.1 hlength]

namespace Packet.Replaces

variable {p : Packet} {packet : String}

theorem of_check {c d : ReasonCode} (h : checkReasonCode packet p.admits c d = .ok ()) : p.Replaces c d := by
  obtain ⟨hadmitted, hside⟩ := checkReasonCode_eq_ok.1 h
  exact ⟨hside, .inr hadmitted⟩

theorem of_checks {cs ds : List ReasonCode} (h : checkReasonCodes packet p.admits cs ds = .ok ()) :
    List.Forall₂ p.Replaces cs ds :=
  (checkReasonCodes_eq_ok.1 h).imp fun _ _ hd => ⟨hd.2, .inr hd.1⟩

end Packet.Replaces

variable (limits : PacketLimits)

theorem ConnackEdit.reportsAs (p : ConnackPacket) (e : ConnackEdit) :
    Yields (e.apply limits p) fun r => (Packet.connack p).ReportsAs (.connack r.value) := by
  cases e with
  | reasonCode value =>
    simp only [apply, yields_check, yields_ok]
    intro hcheck
    exact .of_codes rfl rfl (.cons (.of_check hcheck) .nil) (.inl rfl)
  | responseInformation value =>
    simp only [apply, yields_ite, yields_error, yields_check, yields_ok]
    exact ⟨fun _ => trivial, fun _ _ => .of_same rfl rfl rfl (.inl rfl)⟩
  | serverReference value =>
    simp only [apply, yields_check, yields_ok]
    exact fun _ => .of_same rfl rfl rfl (.inl rfl)

theorem AckPacket.withReasonCode_reportsAs (p : AckPacket) (value : ReasonCode) :
    Yields (p.withReasonCode value) fun r => (Packet.ack p).ReportsAs (.ack r.value) := by
  simp only [withReasonCode, yields_check, yields_ok]
  intro hcheck
  exact .of_codes rfl rfl (.cons (.of_check hcheck) .nil) (.inl rfl)

theorem SubackPacket.editCodes_reportsAs (p : SubackPacket) (e : ListEdit ReasonCode) :
    Yields (p.editCodes e) fun r => (Packet.suback p).ReportsAs (.suback r.value) := by
  simp only [editCodes, yields_bind, yields_ok]
  intro codes _ _ hchecks
  exact .of_codes rfl rfl (Replaces.of_checks hchecks) (.inl rfl)

theorem UnsubackPacket.editCodes_reportsAs (p : UnsubackPacket) (e : ListEdit ReasonCode) :
    Yields (p.editCodes e) fun r => (Packet.unsuback p).ReportsAs (.unsuback r.value) := by
  simp only [editCodes, yields_bind, yields_ok]
  intro codes _ _ hchecks
  exact .of_codes rfl rfl (Replaces.of_checks hchecks) (.inl rfl)

theorem DisconnectEdit.reportsAs (p : DisconnectPacket) (e : DisconnectEdit) :
    Yields (e.apply limits p) fun r => (Packet.disconnect p).ReportsAs (.disconnect r.value) := by
  have hreason : Yields (e.apply limits p) fun r => r.value.reasonString = p.reasonString := by
    cases e with
    | sessionExpiryInterval value =>
      rw [apply]
      split <;> simp [store, kept]
    | _ => simp [apply, store]
  exact hreason.mono fun r hr => .of_same rfl rfl rfl (.inl (congrArg some hr))

theorem Edit.setUserProperties_reportsAs (p : Packet) (e : PropertyEdit) :
    Yields (setUserProperties limits p e) fun r => p.ReportsAs r.value := by
  unfold setUserProperties
  split
  · exact yields_error _
  · simp only [yields_bind, yields_ok]
    intro changed _
    cases p <;> exact .of_same rfl rfl rfl (.inl rfl)

/-- A reason string is set only where it is allowed, and a change to it leaves the codes alone. -/
theorem Edit.setReasonString_reportsAs (p : Packet) (value : Option String) :
    Yields (setReasonString limits p value) fun r => p.ReportsAs r.value := by
  unfold setReasonString
  split
  · exact yields_error _
  · rename_i allowed hallowed
    simp only [yields_check, yields_ite, yields_error, implies_true, true_and, yields_ok, store]
    intro _ hjudged
    have hcodes : (p.withReasonString value).reasonCodes = p.reasonCodes := by cases p <;> rfl
    have hadmits : (p.withReasonString value).admits = p.admits := by cases p <;> rfl
    have hallows : (p.withReasonString value).allowsReasonString? = some allowed := by
      rw [← hallowed]
      cases p <;> rfl
    refine .of_same (p.family_withReasonString value) hadmits hcodes (.inr fun reason hreason => ?_)
    rw [hallows]
    rw [Packet.reasonString?_withReasonString] at hreason
    obtain ⟨_, _, rfl⟩ := Option.map_eq_some_iff.1 hreason
    simpa using hjudged

/-- Every accepted change leaves a packet that reports what it did. -/
theorem Edit.reportsAs (e : Edit) (p : Packet) :
    Yields (e.apply limits p) fun r => p.ReportsAs r.value := by
  have lift {α : Type} {f : α → Packet} {x : Except PacketError (Revision α)} {part : α}
      (h : Yields x fun r => (f part).ReportsAs (f r.value)) :
      Yields (x.map (·.map f)) fun r => (f part).ReportsAs r.value := (yields_map _ _).2 h
  unfold apply
  split
  · exact setUserProperties_reportsAs limits p _
  · exact setReasonString_reportsAs limits p _
  · exact lift fun r _ => .of_same rfl rfl rfl (.inl rfl)
  · exact lift (ConnackEdit.reportsAs limits _ _)
  · exact lift (AckPacket.withReasonCode_reportsAs _ _)
  · exact lift fun r _ => .of_same rfl rfl rfl (.inl rfl)
  · exact lift (SubackPacket.editCodes_reportsAs _ _)
  · exact lift fun r _ => .of_same rfl rfl rfl (.inl rfl)
  · exact lift (UnsubackPacket.editCodes_reportsAs _ _)
  · exact lift (DisconnectEdit.reportsAs limits _ _)
  · exact yields_error _

end BrokerHooks
