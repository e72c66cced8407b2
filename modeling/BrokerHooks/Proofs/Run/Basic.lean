import BrokerHooks.Broker.Clock

namespace BrokerHooks

/-- Something that happens to a broker. A move that is not possible changes nothing. -/
inductive Move where
  /-- A packet is handed over at a point of a connection. -/
  | submit (connection : Nat) (point : Point) (p : Packet)
  /-- The chain that has waited longest in a lane begins, if the lane is free. -/
  | begin (lane : Nat × Point)
  /-- A suspended chain is looked at again, whether or not its turn has ended. -/
  | wake (index : Nat)
  /-- A sleeper does its work; if it was not due yet, the clock jumps to when it is. -/
  | work (index : Nat)
  | elapse (time : Nat)
  /-- Code outside of all chains performs an operation, on a turn if it has kept a handle to it. -/
  | perform (site : Site) (op : Op)
  | openConnection (clientId : String) (version : ProtocolVersion) (aliasMaximum : Option UInt16)
  | track (connection : Nat)
  | untrack (clientId : String)
  | letGo (connection : Nat)
  | add (place : Roster.Place) (extension : String) (point : Point) (family : Family)
      (respond : Nat → Input → Program)
  | sweep
  | observeAliases

namespace Broker

def move (b : Broker) : Move → Broker
  | .submit connection point p => (b.submit connection point p).2
  | .begin lane =>
    if b.isFree lane then
      match takeFirst? (·.lane = lane) b.waiting with
      | some (c, rest) => { b with waiting := rest }.begin c
      | none => b
    else b
  | .wake i =>
    match b.suspended[i]? with
    | some s => { b with suspended := b.suspended.eraseIdx i }.wake s
    | none => b
  | .work i =>
    match b.sleepers[i]? with
    | some s => b.runSleeper s (b.sleepers.eraseIdx i)
    | none => b
  | .elapse time => { b with now := max b.now time }
  | .perform site op => (b.perform site op).2
  | .openConnection clientId version aliasMaximum =>
    { b with roster := (b.roster.openConnection clientId version aliasMaximum).2 }
  | .track c => { b with roster := b.roster.track c }
  | .untrack clientId => { b with roster := b.roster.untrack clientId }
  | .letGo c => { b with roster := b.roster.letGo c }
  | .add place extension point family respond =>
    (b.onRoster fun r => tryUpdate r (r.add place extension point family respond)).2
  | .sweep => b.sweep
  | .observeAliases =>
    let a := b.roster.aliases.account
    { b with metrics := b.metrics.observeAliases a.committed a.count }

def play (b : Broker) (ms : List Move) : Broker := ms.foldl move b

@[simp] theorem play_nil (b : Broker) : b.play [] = b := rfl

@[simp] theorem play_cons (b : Broker) (m : Move) (ms : List Move) :
    b.play (m :: ms) = (b.move m).play ms := rfl

theorem play_append (b : Broker) (ms ns : List Move) : b.play (ms ++ ns) = (b.play ms).play ns :=
  List.foldl_append

theorem play_concat (b : Broker) (ms : List Move) (m : Move) :
    b.play (ms ++ [m]) = (b.play ms).move m := by
  rw [play_append]
  rfl

/-- What one move preserves, a run preserves. -/
theorem play_preserves {P : Broker → Prop} (hm : ∀ b m, P b → P (b.move m)) {b : Broker}
    (h : P b) (ms : List Move) : P (b.play ms) := by
  induction ms generalizing b with
  | nil => exact h
  | cons m ms ih => exact ih (hm b m h)

theorem takeFirst?_eq_some {α : Type} {p : α → Bool} {xs rest : List α} {x : α} :
    takeFirst? p xs = some (x, rest) ↔
      ∃ before after, xs = before ++ x :: after ∧ rest = before ++ after ∧ p x ∧
        ∀ y ∈ before, ¬p y := by
  induction xs generalizing rest with
  | nil => simp [takeFirst?]
  | cons y ys ih =>
    unfold takeFirst?
    by_cases hy : p y
    · rw [if_pos hy]
      constructor
      · rintro h
        cases h
        exact ⟨[], ys, rfl, rfl, hy, by simp⟩
      · rintro ⟨before, after, hxs, rfl, hx, hbefore⟩
        cases before with
        | nil => cases hxs; rfl
        | cons z before =>
          cases hxs
          exact absurd hy (hbefore y (by simp))
    · rw [if_neg hy]
      constructor
      · intro h
        obtain ⟨⟨z, zs⟩, hz, heq⟩ := Option.map_eq_some_iff.1 h
        cases heq
        obtain ⟨before, after, rfl, rfl, hx, hbefore⟩ := ih.1 hz
        refine ⟨y :: before, after, rfl, rfl, hx, ?_⟩
        intro w hw
        rcases List.mem_cons.1 hw with rfl | hw
        · exact hy
        · exact hbefore w hw
      · rintro ⟨before, after, hxs, rfl, hx, hbefore⟩
        cases before with
        | nil => cases hxs; exact absurd hx hy
        | cons z before =>
          rw [List.cons_append, List.cons_eq_cons] at hxs
          obtain ⟨rfl, rfl⟩ := hxs
          have hz := ih.2 ⟨before, after, rfl, rfl, hx, fun w hw => hbefore w (by simp [hw])⟩
          simp [hz]

theorem takeFirst?_eq_none {α : Type} {p : α → Bool} {xs : List α} :
    takeFirst? p xs = none ↔ ∀ x ∈ xs, ¬p x := by
  induction xs with
  | nil => simp [takeFirst?]
  | cons y ys ih =>
    unfold takeFirst?
    by_cases hy : p y
    · simp [hy]
    · simp [hy, ih]

theorem mem_of_split {α : Type} {xs before after : List α} {x y : α} (hxs : xs = before ++ x :: after)
    (hy : y ∈ before ++ after) : y ∈ xs := by
  rw [hxs]
  rcases List.mem_append.1 hy with hy | hy <;> simp [hy]

theorem eraseIdx_split {α : Type} {xs : List α} {i : Nat} {x : α} (h : xs[i]? = some x) :
    ∃ before after, i = before.length ∧ xs = before ++ x :: after ∧
      xs.eraseIdx i = before ++ after := by
  obtain ⟨hi, rfl⟩ := List.getElem?_eq_some_iff.1 h
  refine ⟨xs.take i, xs.drop (i + 1), ?_, by simp, List.eraseIdx_eq_take_drop_succ ..⟩
  rw [List.length_take, Nat.min_eq_left (Nat.le_of_lt hi)]

end Broker
end BrokerHooks
