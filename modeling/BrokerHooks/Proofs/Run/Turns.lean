import BrokerHooks.Proofs.Run.Story
import BrokerHooks.Proofs.Turn.History

namespace BrokerHooks

def Op.act? : Op → Option Turn.Act
  | .call c => some (.call c)
  | .defer timeout fallback => some (.defer timeout fallback)
  | .resume => some .resume
  | .prevent => some .prevent
  | .view | .close _ | .resolve _ _ | .register _ _ | .remove _ | .enable _ | .disable _ | .isEnabled _
  | .check | .isConnected _ | .disconnectClient _ _ | .note _ => none

namespace Broker

def Deed.act? (turn : Nat) : Deed → Option (Nat × Turn.Act)
  | .did b s op => if s.turn = turn then op.act?.map (b.now, ·) else none
  | .looked b _ t => if t = turn then some (b.now, .poll) else none
  | .began _ _ | .invoked _ _ _ _ => none

/-- The history of a turn that the deeds tell. -/
def historyOf (turn : Nat) (ds : List Deed) : List (Nat × Turn.Act) := ds.filterMap (·.act? turn)

theorem historyOf_append (turn : Nat) (ds ds' : List Deed) :
    historyOf turn (ds ++ ds') = historyOf turn ds ++ historyOf turn ds' := List.filterMap_append

theorem time_of_mem_historyOf {turn : Nat} {ds : List Deed} {a : Nat × Turn.Act}
    (ha : a ∈ historyOf turn ds) : ∃ d ∈ ds, d.before.now = a.1 := by
  obtain ⟨d, hd, hact⟩ := List.mem_filterMap.1 ha
  refine ⟨d, hd, ?_⟩
  cases d with
  | began | invoked => cases hact
  | did b s op =>
    simp only [Deed.act?] at hact
    split at hact
    · obtain ⟨x, -, rfl⟩ := Option.map_eq_some_iff.1 hact
      rfl
    · cases hact
  | looked b c t =>
    simp only [Deed.act?] at hact
    split at hact <;> cases hact
    rfl

section

variable {b : Broker} {i : Nat} {t : Turn}

theorem lt_of_turn? (h : b.turn? i = some t) : i < b.turns.length := (List.getElem?_eq_some_iff.1 h).1

theorem onTurn_turn? {α : Type} (h : b.turn? i = some t) (s : Site) (default : α) (f : Turn → α × Turn) :
    (b.onTurn s default f).2.turn? i = some (if s.turn = i then (f t).2 else t) := by
  by_cases hs : s.turn = i
  · subst hs
    have hlt := lt_of_turn? h
    unfold onTurn
    rw [h]
    simp [setTurn, turn?, hlt]
  · have he : Effect none (· = s.turn) b (b.onTurn s default f).2 := Effect.onTurn (by rfl) b default f
    rw [if_neg hs, he.turn? i (lt_of_turn? h) (Ne.symm hs), h]

theorem perform_turn? (h : b.turn? i = some t) (s : Site) (op : Op) :
    (b.perform s op).2.turn? i = some (t.after ((Deed.did b s op).act? i).toList) := by
  have hact (ha : op.act? = none) : (Deed.did b s op).act? i = none := by simp [Deed.act?, ha]
  -- The other operations leave all turns alone.
  have hstill {b' : Broker} (ha : op.act? = none) (he : Effect none (fun _ => False) b b') :
      b'.turn? i = some (t.after ((Deed.did b s op).act? i).toList) := by
    rw [he.turn? i (lt_of_turn? h) (by simp), h, hact ha]
    rfl
  cases op with
  | call | defer | resume | prevent =>
    unfold perform
    rw [onTurn_turn? h]
    simp only [Deed.act?]
    split <;> rfl
  | view =>
    unfold perform
    rw [onTurn_turn? h, hact rfl]
    split <;> rfl
  | close | resolve | register | remove | enable | disable => exact hstill rfl (.onRoster b _)
  | isEnabled => exact hstill rfl (.refl b)
  | check => exact hstill rfl (.check b)
  | isConnected => exact hstill rfl (.admitted b _ fun b => .refl b)
  | disconnectClient clientId reason => exact hstill rfl (.disconnectClient b clientId reason)
  | note => exact hstill rfl (.record rfl (.inl rfl) b)

theorem standing_turns (h : b.turn? i = some t) (c : Chain) :
    (b.standing c i).2.turns = b.turns.set i (t.poll b.now).2 := by
  unfold standing
  rw [h]
  simp only
  cases t.poll b.now with
  | mk completion t' =>
    cases completion with
    | none => rfl
    | some completion => cases completion <;> simp [setTurn]

theorem standing_turn? (h : b.turn? i = some t) (c : Chain) (turn : Nat) :
    (b.standing c turn).2.turn? i = some (t.after ((Deed.looked b c turn).act? i).toList) := by
  by_cases hi : turn = i
  · subst hi
    have hlt := lt_of_turn? h
    unfold turn?
    rw [standing_turns h]
    simp [Deed.act?, hlt, Turn.act]
  · have he : Effect (some c) (· = turn) b (b.standing c turn).2 := Effect.standing (by rfl) b
    simp only [Deed.act?, if_neg hi]
    rw [he.turn? i (lt_of_turn? h) (Ne.symm hi), h]
    rfl

theorem deed_turn? {d : Deed} (h : d.before.turn? i = some t) :
    d.after.turn? i = some (t.after (d.act? i).toList) := by
  cases d with
  | began => exact h
  | invoked b c hook p => exact (List.getElem?_append_left (lt_of_turn? h)).trans h
  | did b s op => exact perform_turn? h s op
  | looked b c turn => exact standing_turn? h c turn

end

/-- At the end of a walk a turn is as the history makes it that the deeds tell. -/
theorem Walk.turn?_eq {b b' : Broker} {ds : List Deed} (h : Walk b ds b') {i : Nat} {t : Turn}
    (ht : b.turn? i = some t) : b'.turn? i = some (t.after (historyOf i ds)) := by
  induction h generalizing t with
  | drift h =>
    unfold turn? at ht ⊢
    rwa [h.turns]
  | @deed b b' d ds h _ ih =>
    have hbefore : d.before.turn? i = some t := by
      unfold turn? at ht ⊢
      rwa [h.turns]
    have hafter := ih (deed_turn? hbefore)
    rw [← Turn.after_append] at hafter
    rw [hafter]
    unfold historyOf
    rw [List.filterMap_cons]
    cases d.act? i <;> rfl

end Broker
end BrokerHooks
