import BrokerHooks.Proofs.Run.Scheduler
import BrokerHooks.Session.Basic

namespace BrokerHooks

namespace Broker

def LeadsTo (b b' : Broker) : Prop := ∃ ms, b' = b.play ms

namespace LeadsTo

@[refl] theorem refl (b : Broker) : LeadsTo b b := ⟨[], rfl⟩

theorem trans {b b' b'' : Broker} (h : LeadsTo b b') (h' : LeadsTo b' b'') : LeadsTo b b'' := by
  obtain ⟨ms, rfl⟩ := h
  obtain ⟨ms', rfl⟩ := h'
  exact ⟨ms ++ ms', (play_append ..).symm⟩

theorem move (b : Broker) (m : Move) : LeadsTo b (b.move m) := ⟨[m], rfl⟩

theorem preserves {P : Broker → Prop} (hm : ∀ b m, P b → P (b.move m)) {b b' : Broker}
    (h : LeadsTo b b') (hb : P b) : P b' := by
  obtain ⟨ms, rfl⟩ := h
  exact play_preserves hm hb ms

end LeadsTo

/-- A broker that some run has led to. -/
def Reachable (b : Broker) : Prop := ∃ config metered, LeadsTo (ofConfig config metered) b

theorem settle_leadsTo (finished : Broker → Bool) (fuel : Nat) (b : Broker) :
    LeadsTo b (b.settle finished fuel) := by
  obtain ⟨ms, heq, -⟩ := settle_scheduled finished fuel b
  exact ⟨ms, heq⟩

theorem sleepUntil_leadsTo (time fuel : Nat) (b : Broker) : LeadsTo b (b.sleepUntil time fuel) :=
  (settle_leadsTo _ fuel b).trans (.move _ (.elapse time))

theorem checkTimes_leadsTo (n : Nat) (b : Broker) : LeadsTo b (checkTimes n b).2 := by
  induction n generalizing b with
  | zero => exact .refl b
  | succ n ih => exact (LeadsTo.move b (.perform { connection := 0, turn := 0 } .check)).trans (ih _)

theorem admitted_snd {α : Type} (b : Broker) (f : Broker → α) :
    (b.admitted fun b => (f b, b)).2 = b.check.2 := by
  unfold admitted
  split <;> simp_all

end Broker

namespace Session

open Broker

theorem submit_leadsTo (s : Session) (a : Arrival) : LeadsTo s.broker (s.submit a).2.broker := by
  unfold submit
  split
  · exact .refl _
  · exact .move s.broker (.submit _ _ _)

theorem submitAll_leadsTo (as : List Arrival) (s : Session) :
    LeadsTo s.broker (s.submitAll as).2.broker := by
  induction as generalizing s with
  | nil => exact .refl _
  | cons a as ih => exact (s.submit_leadsTo a).trans (ih _)

theorem handAll_leadsTo (s : Session) (as : List Arrival) :
    LeadsTo s.broker (s.handAll as).2.broker :=
  (submitAll_leadsTo as s).trans (settle_leadsTo ..)

theorem openConnection_leadsTo (s : Session) (name clientId : String) (version : ProtocolVersion)
    (aliasMaximum : Option UInt16) (track : Bool) :
    LeadsTo s.broker (s.openConnection name clientId version aliasMaximum track).2.broker := by
  have hopen := LeadsTo.move s.broker (.openConnection clientId version aliasMaximum)
  unfold openConnection
  refine LeadsTo.trans ?_ (.move _ .sweep)
  cases hold : s.connection? name with
  | none =>
    cases track with
    | false => exact hopen
    | true => exact hopen.trans (.move _ (.track _))
  | some old =>
    cases track with
    | false => exact hopen.trans (.move _ (.letGo old))
    | true => exact (hopen.trans (.move _ (.track _))).trans (.move _ (.letGo old))

theorem drop_leadsTo (s : Session) (name : String) : LeadsTo s.broker (s.drop name).2.broker := by
  unfold drop
  split
  · exact .refl _
  · rename_i c _
    exact (LeadsTo.move s.broker (.letGo c)).trans (.move _ .sweep)

theorem withConnection_leadsTo {s : Session} {f : Nat → Answer × Session} (name : String)
    (h : ∀ c, LeadsTo s.broker (f c).2.broker) : LeadsTo s.broker (s.withConnection name f).2.broker := by
  unfold withConnection
  split
  · exact h _
  · exact .refl _

theorem addHook_leadsTo (s : Session) (place : Roster.Place) (extension : String) (point : Point)
    (family : Family) (script : Script) :
    LeadsTo s.broker (s.addHook place extension point family script).2.broker :=
  .move s.broker (.add place extension point family script.respond)

/-- Every command makes the broker move, or leaves it as it is. -/
theorem step_leadsTo (s : Session) (c : Command) : LeadsTo s.broker (s.step c).2.broker := by
  cases c with
  | perform op => exact .move s.broker (.perform _ op)
  | call value =>
    have hcheck : (s.step (.call value)).2.broker = s.broker.check.2 := admitted_snd _ _
    rw [hcheck]
    exact .move s.broker (.perform { connection := 0, turn := 0 } .check)
  | calls count => exact checkTimes_leadsTo count s.broker
  | openConnection name clientId version aliasMaximum track =>
    exact s.openConnection_leadsTo name clientId version aliasMaximum track
  | drop name => exact s.drop_leadsTo name
  | untrack clientId => exact .move s.broker (.untrack clientId)
  | close name reason =>
    exact withConnection_leadsTo name fun c =>
      .move s.broker (.perform { connection := c, turn := 0 } (.close reason))
  | resolve name topic number =>
    exact withConnection_leadsTo name fun c =>
      .move s.broker (.perform { connection := c, turn := 0 } (.resolve topic number))
  | add extension point family script connection =>
    cases connection with
    | none => exact s.addHook_leadsTo ..
    | some name => exact withConnection_leadsTo name fun c => s.addHook_leadsTo ..
  | hand a => exact s.handAll_leadsTo [a]
  | concurrently as => exact s.handAll_leadsTo as
  | sleep duration => exact sleepUntil_leadsTo ..
  | observeAliases => exact .move s.broker .observeAliases
  | state name | hooks name => exact withConnection_leadsTo name fun _ => .refl _
  | tracked | aliasState | metrics | registerMetrics => exact .refl _

def after (s : Session) : List Command → Session
  | [] => s
  | c :: rest => after { (s.step c).2 with told := (s.step c).2.broker.journal.length } rest

/-- Later commands are answered by the session that the earlier ones have left. -/
theorem run_append (s : Session) (cs cs' : List Command) :
    s.run (cs ++ cs') = s.run cs ++ (s.after cs).run cs' := by
  induction cs generalizing s with
  | nil => rfl
  | cons c cs ih => exact congrArg (List.cons _) (ih _)

theorem after_leadsTo (s : Session) (cs : List Command) : LeadsTo s.broker (s.after cs).broker := by
  induction cs generalizing s with
  | nil => exact .refl _
  | cons c cs ih => exact (s.step_leadsTo c).trans (ih _)

theorem reachable (config : Config) (metered : Bool) (cs : List Command) :
    ((ofConfig config metered).after cs).broker.Reachable :=
  ⟨config, metered, after_leadsTo (ofConfig config metered) cs⟩

end Session
end BrokerHooks
