import BrokerHooks.Proofs.Draft.Frame
import BrokerHooks.Proofs.Turn.History
import Mathlib.Logic.Relation

namespace BrokerHooks

open Relation (ReflTransGen)

def Packet.Leads (limits : PacketLimits) (p q : Packet) : Prop :=
  ∃ (e : Edit) (r : Revision Packet), e.apply limits p = .ok r ∧ r.value = q

abbrev Packet.Becomes (limits : PacketLimits) : Packet → Packet → Prop :=
  ReflTransGen (Packet.Leads limits)

namespace Packet.Becomes

variable {limits : PacketLimits} {p q : Packet}

/-- What every accepted change keeps is kept by all of them together. -/
theorem preserves {P : Packet → Prop} (h : p.Becomes limits q) (hp : P p)
    (hchange : ∀ r, P r → ∀ e : Edit, Yields (e.apply limits r) fun s => P s.value) : P q := by
  induction h with
  | refl => exact hp
  | tail _ hlast ih =>
    obtain ⟨e, r, happly, rfl⟩ := hlast
    exact hchange _ ih e r happly

theorem reportsAs (h : p.Becomes limits q) : p.ReportsAs q := by
  apply h.preserves (.refl p)
  intro r hr e
  exact (e.reportsAs limits r).mono fun s hs => hr.trans hs

theorem fixed (h : p.Becomes limits q) : q.fixed = p.fixed := by
  apply h.preserves (P := fun r => r.fixed = p.fixed) rfl
  intro r hr e
  exact (e.fixed limits r).mono fun s hs => hs.trans hr

end Packet.Becomes

namespace Draft

variable (d : Draft)

/-- A call leaves the limits alone, and the packet too unless it is an accepted change. -/
theorem call_becomes (c : Call) :
    (d.call c).2.limits = d.limits ∧ d.packet.Becomes d.limits (d.call c).2.packet := by
  cases c with
  | query q => exact ⟨rfl, .refl⟩
  | edit e =>
    cases h : e.apply d.limits d.packet with
    | error err =>
      simp only [call, edit, h, Except.map]
      exact ⟨trivial, .refl⟩
    | ok r =>
      simp only [call, edit, h, Except.map]
      exact ⟨d.limits_revise r, .single ⟨e, r, h, rfl⟩⟩

theorem after_becomes (cs : List Call) :
    (d.after cs).limits = d.limits ∧ d.packet.Becomes d.limits (d.after cs).packet := by
  induction cs generalizing d with
  | nil => exact ⟨rfl, .refl⟩
  | cons c cs ih =>
    obtain ⟨hlimits, hfirst⟩ := d.call_becomes c
    obtain ⟨hlimits', hrest⟩ := ih (d.call c).2
    rw [hlimits] at hlimits' hrest
    exact ⟨hlimits', hfirst.trans hrest⟩

end Draft

namespace Turn

variable (t : Turn)

theorem act_becomes (now : Nat) (a : Act) : (t.act now a).draft.limits = t.draft.limits ∧
    t.draft.packet.Becomes t.draft.limits (t.act now a).draft.packet := by
  obtain ⟨draft, prevented, deferral, heq, -, hdraft, -⟩ := t.act_cases now a
  rw [heq]
  rcases hdraft with rfl | ⟨c, rfl⟩
  · exact ⟨rfl, .refl⟩
  · exact t.draft.call_becomes c

theorem after_becomes (history : List (Nat × Act)) : (t.after history).draft.limits = t.draft.limits ∧
    t.draft.packet.Becomes t.draft.limits (t.after history).draft.packet := by
  induction history generalizing t with
  | nil => exact ⟨rfl, .refl⟩
  | cons x history ih =>
    obtain ⟨hlimits, hfirst⟩ := t.act_becomes x.1 x.2
    obtain ⟨hlimits', hrest⟩ := ih (t.act x.1 x.2)
    rw [hlimits] at hlimits' hrest
    exact ⟨hlimits', hfirst.trans hrest⟩

theorem after_prevented {history : List (Nat × Act)} (h : (t.after history).prevented) :
    t.prevented ∨ t.point.preventReaction?.isSome := by
  induction history generalizing t with
  | nil => exact .inl h
  | cons x history ih =>
    obtain ⟨draft, prevented, deferral, heq, -, -, hprevented⟩ := t.act_cases x.1 x.2
    rcases ih (t.act x.1 x.2) h with h | h
    · rw [heq] at h
      rcases hprevented with rfl | hreaction
      · exact .inl h
      · exact .inr hreaction
    · rw [act_point] at h
      exact .inr h

end Turn
end BrokerHooks
