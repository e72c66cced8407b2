import BrokerHooks.Draft.Basic
import BrokerHooks.Proofs.Draft.Revision
import Mathlib.Data.List.Induction
import Mathlib.Data.List.Infix

namespace BrokerHooks.Draft

/-- The call puts another value in place. -/
def Changes (d : Draft) (c : Call) : Prop := (d.call c).2.packet ≠ d.packet

/-- One of the calls, made in their order, puts another value in place. -/
def ChangedBy (d : Draft) (cs : List Call) : Prop :=
  ∃ before c, before ++ [c] <+: cs ∧ (d.after before).Changes c

variable (d : Draft)

theorem call_refused {c : Call} {e : PacketError} (h : (d.call c).1 = .error e) : (d.call c).2 = d := by
  cases c with
  | query q => rfl
  | edit e' =>
    simp only [call] at h ⊢
    split at h
    · cases h
    · rfl

/-- One call raises the flag if and only if it puts another value in place. -/
theorem call_modified (c : Call) : (d.call c).2.modified ↔ d.modified ∨ d.Changes c := by
  unfold Changes
  cases c with
  | query q => simp [call]
  | edit e =>
    cases h : e.apply d.limits d.packet with
    | error err => simp [call, edit, h, Except.map]
    | ok r =>
      have htells : r.differs ↔ r.value ≠ d.packet := e.tells d.limits d.packet r h
      simp [call, edit, h, Except.map, revise, htells]

theorem changedBy_nil : ¬ d.ChangedBy [] := by
  rintro ⟨before, c, hprefix, -⟩
  simp at hprefix

theorem changedBy_concat (cs : List Call) (c : Call) :
    d.ChangedBy (cs ++ [c]) ↔ d.ChangedBy cs ∨ (d.after cs).Changes c := by
  constructor
  · rintro ⟨before, c', hprefix, hc⟩
    rcases List.prefix_concat_iff.1 hprefix with heq | hprefix
    · obtain ⟨rfl, rfl⟩ := List.append_singleton_inj.1 heq
      exact .inr hc
    · exact .inl ⟨before, c', hprefix, hc⟩
  · rintro (⟨before, c', hprefix, hc⟩ | hc)
    · exact ⟨before, c', hprefix.trans (List.prefix_append cs [c]), hc⟩
    · exact ⟨cs, c, List.prefix_rfl, hc⟩

theorem after_modified (cs : List Call) : (d.after cs).modified ↔ d.modified ∨ d.ChangedBy cs := by
  induction cs using List.reverseRecOn with
  | nil => simp [changedBy_nil]
  | append_singleton cs c ih =>
    rw [after_append, after_cons, after_nil, call_modified, ih, changedBy_concat, or_assoc]

/-- As long as no call puts another value in place, the packet is the one the draft started from. -/
theorem after_packet {cs : List Call} (h : ¬ d.ChangedBy cs) : (d.after cs).packet = d.packet := by
  induction cs using List.reverseRecOn with
  | nil => rfl
  | append_singleton cs c ih =>
    rw [changedBy_concat, not_or, Changes, not_not] at h
    rw [after_append, after_cons, after_nil, h.2, ih h.1]

/-- The law of a draft's flag, for every packet, all limits and any calls. A call that is refused leaves the
draft as it was; any other leaves the flag as it was or raises it, the latter if and only if it puts another value
in place. So the flag is up after some calls if one of them put another value in place, and then stays up
whatever follows, while the packet of a draft whose flag is down is the one it started from. -/
theorem modified_follows_changes (limits : PacketLimits) (p : Packet) (cs : List Call) :
    let start := ofPacket limits p
    let d := start.after cs
    (∀ c, match d.call c with
      | (.error _, e) => e = d
      | (.ok _, e) => e.modified ↔ d.modified ∨ e.packet ≠ d.packet) ∧
    (d.modified ↔ start.ChangedBy cs) ∧
    (d.modified → ∀ later, (d.after later).modified) ∧
    (¬ d.modified → d.packet = p) ∧
    (∀ c, ¬ d.modified ∧ (d.call c).2.modified ↔ ¬ start.ChangedBy cs ∧ d.Changes c) := by
  intro start d
  -- A draft starts unmodified, so its flag tells of the calls alone.
  have hmodified : d.modified ↔ start.ChangedBy cs := by
    rw [after_modified]
    simp [start, ofPacket]
  refine ⟨?_, hmodified, ?_, ?_, ?_⟩
  · intro c
    have hflag := d.call_modified c
    split
    · rename_i e d' heq
      simpa [heq] using d.call_refused (c := c) (by rw [heq])
    · rename_i reply d' heq
      simpa [Changes, heq] using hflag
  · intro hd later
    exact (d.after_modified later).2 (.inl hd)
  · intro hd
    exact start.after_packet (mt hmodified.2 hd)
  · intro c
    rw [call_modified, hmodified]
    tauto

example : let d := ofPacket {} (.ack { kind := .puback, packetId := 7 })
    (d.after [.edit (.ackReasonCode .success)]).modified = false ∧
      (d.after [.edit (.ackReasonCode .noMatchingSubscribers), .edit (.ackReasonCode .success)]).modified := by
  decide

end BrokerHooks.Draft
