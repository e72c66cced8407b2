import BrokerHooks.Proofs.Chain.Content
import BrokerHooks.Proofs.Draft.Requests

namespace BrokerHooks.Broker

/-- A SUBSCRIBE or an UNSUBSCRIBE stays well-formed under any calls to one draft, and in every run, in the drafts
of all hooks of a chain and where it goes on from one: what is left of it requests what was handed over or what
the limits allow, at every index, and does not set no local for a shared subscription unless that did. -/
theorem requests_stay_within :
    (∀ (limits : PacketLimits) (p : Packet) (cs : List Call),
      p.RequestsWithin limits ((Draft.ofPacket limits p).after cs).packet) ∧
    ∀ (config : Config) (metered : Bool) (ms : List Move),
      ∀ e ∈ ((ofConfig config metered).play ms).journal,
        (∀ c h q, e.event = .invoked c h q → ∀ cs : List Call,
          c.supplied.RequestsWithin config.packetLimits ((Draft.ofPacket config.packetLimits q).after cs).packet) ∧
        ∀ c q, e.event.outcome? = some (c, .proceed q) → c.supplied.RequestsWithin config.packetLimits q := by
  have hdraft (limits : PacketLimits) (p : Packet) (cs : List Call) :
      p.RequestsWithin limits ((Draft.ofPacket limits p).after cs).packet :=
    ((Draft.ofPacket limits p).after_becomes cs).2.requestsWithin
  refine ⟨hdraft, fun config metered ms e he => ⟨fun c h q hinvoked cs => ?_, fun c q hout => ?_⟩⟩
  · exact (invoked_becomes config metered ms he hinvoked).requestsWithin.trans (hdraft _ q cs)
  · exact (proceeds_becomes config metered ms he hout).requestsWithin

/-- Takes the first subscription out of its group. -/
def ungroup : Program := .perform (.call (.edit (.subscription 0 (.topicFilter "a")))) fun _ => .done

def regroup : Program :=
  .perform (.call (.edit (.subscription 0 (.noLocal true)))) fun _ =>
    .perform (.call (.edit (.subscription 0 (.topicFilter "$share/g/a")))) fun _ => .done

def regroupingMoves : List Move :=
  [.openConnection "client" .v5 none, .perform { connection := 0, turn := 0 } (.register "groups" 0),
    .add .shared "groups" .subscribeInbound .subscribe fun _ _ => ungroup,
    .add .shared "groups" .subscribeInbound .subscribe fun _ _ => regroup]

def regrouping : Broker := (ofConfig {} true).play regroupingMoves

namespace regrouping

def hook (number : Nat) (program : Program) : Ranked where
  priority := 0
  hook := { extension := "groups", point := .subscribeInbound, number, respond := fun _ _ => program }

def asking (a : Subscription) : Packet :=
  .subscribe { packetId := 5, subscriptions := [a, { topicFilter := "b", qos := .exactlyOnce }] }

def grouped : Packet := asking { topicFilter := "$share/g/a", qos := .atLeastOnce }

def handOver : List Move := [.submit 0 .subscribeInbound grouped, .begin (0, .subscribeInbound)]

theorem handOver_eq :
    let c := (regrouping.submit 0 .subscribeInbound grouped).1
    regrouping.play handOver = proceed c [hook 0 ungroup, hook 1 regroup] grouped
      ({ (regrouping.submit 0 .subscribeInbound grouped).2 with waiting := [] }.record (.began c)) :=
  play_alone rfl rfl (by decide) (Roster.ordered_of_sorted rfl (by simp [hook, Ranked.precedes]))

end regrouping

open regrouping (asking handOver handOver_eq) in
theorem ungrouped_request_stays_within :
    (∃ e ∈ (regrouping.play handOver).journal, ∃ c q, e.event = .invoked c 1 q ∧
      q = asking { topicFilter := "a", qos := .atLeastOnce } ∧ c.supplied.RequestsWithin {} q) ∧
    ∃ e ∈ (regrouping.play handOver).journal, ∃ c q, e.event.outcome? = some (c, .proceed q) ∧
      q = asking { topicFilter := "a", qos := .atLeastOnce, noLocal := true } ∧ c.supplied.RequestsWithin {} q := by
  have hrun : (ofConfig {} true).play (regroupingMoves ++ handOver) = regrouping.play handOver := play_append ..
  have hstays := requests_stay_within.2 {} true (regroupingMoves ++ handOver)
  rw [hrun] at hstays
  constructor
  · obtain ⟨e, he, c, hinvoked⟩ : ∃ e ∈ (regrouping.play handOver).journal, ∃ c,
        e.event = .invoked c 1 (asking { topicFilter := "a", qos := .atLeastOnce }) := by
      rw [handOver_eq]
      exact ⟨_, List.mem_append_left _ (List.mem_append_right _ (List.mem_singleton_self _)), _, rfl⟩
    exact ⟨e, he, c, _, hinvoked, rfl, (hstays e he).1 c 1 _ hinvoked []⟩
  · obtain ⟨e, he, c, hout⟩ : ∃ e ∈ (regrouping.play handOver).journal, ∃ c,
        e.event.outcome? =
          some (c, .proceed (asking { topicFilter := "a", qos := .atLeastOnce, noLocal := true })) := by
      rw [handOver_eq]
      exact ⟨_, List.mem_append_right _ (List.mem_singleton_self _), _, rfl⟩
    exact ⟨e, he, c, _, hout, rfl, (hstays e he).2 c _ hout⟩

end BrokerHooks.Broker
