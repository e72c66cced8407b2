import Mathlib.Data.List.Induction
import BrokerHooks.Proofs.Roster.Placement

namespace BrokerHooks

/-- Something that a step of the history did, and that no step has undone since. Both may depend on the
steps before. -/
inductive Since {α : Type} (does undoes : List α → α → Prop) : List α → Prop where
  | now {history : List α} {a : α} (h : does history a) : Since does undoes (history ++ [a])
  | still {history : List α} {a : α} (h : Since does undoes history) (ha : ¬undoes history a) :
      Since does undoes (history ++ [a])

namespace Since

variable {α : Type} {does undoes : List α → α → Prop}

theorem not_nil : ¬Since does undoes [] := by
  intro h
  generalize hnil : ([] : List α) = history at h
  cases h <;> simp at hnil

theorem concat_iff {history : List α} {a : α} : Since does undoes (history ++ [a]) ↔
    does history a ∨ Since does undoes history ∧ ¬undoes history a := by
  constructor
  · intro h
    generalize hconcat : history ++ [a] = history' at h
    cases h with
    | now h =>
      obtain ⟨rfl, heq⟩ := List.append_inj' hconcat rfl
      cases heq
      exact .inl h
    | still h ha =>
      obtain ⟨rfl, heq⟩ := List.append_inj' hconcat rfl
      cases heq
      exact .inr ⟨h, ha⟩
  · rintro (h | ⟨h, ha⟩)
    · exact .now h
    · exact .still h ha

/-- A property that comes about and ends step by step as `does` and `undoes` say. -/
theorem iff_of_steps {S : List α → Prop} (hnil : ¬S []) (hconcat : ∀ history a,
      S (history ++ [a]) ↔ does history a ∨ S history ∧ ¬undoes history a) (history : List α) :
    Since does undoes history ↔ S history := by
  induction history using List.reverseRecOn with
  | nil => exact iff_of_false not_nil hnil
  | append_singleton history a ih => rw [concat_iff, hconcat, ih]

end Since

namespace Roster

open Relation

inductive Request where
  | openConnection (clientId : String) (version : ProtocolVersion) (aliasMaximum : Option UInt16)
  | track (c : Nat)
  | untrack (clientId : String)
  | close (c : Nat) (reason : Option ReasonCode)
  | resolve (c : Nat) (topic : String) (number : Option UInt16)
  | letGo (c : Nat)
  | release (c : Nat)
  | register (id : String) (priority : Int)
  | remove (id : String)
  | enable (id : String)
  | disable (id : String)
  | add (place : Place) (id : String) (point : Point) (family : Family)
      (respond : Nat → Input → Program)

def answer (r : Roster) : Request → Except RegistryError Unit × Roster
  | .openConnection clientId version aliasMaximum =>
    (.ok (), (r.openConnection clientId version aliasMaximum).2)
  | .track c => (.ok (), r.track c)
  | .untrack clientId => (.ok (), r.untrack clientId)
  | .close c reason => (.ok (), (r.close c reason).2)
  | .resolve c topic number => (.ok (), (r.resolve c topic number).2)
  | .letGo c => (.ok (), r.letGo c)
  | .release c => (.ok (), r.release c)
  | .register id priority => Broker.tryUpdate r (r.register id priority)
  | .remove id => Broker.tryUpdate r (r.remove id)
  | .enable id => Broker.tryUpdate r (r.enable id)
  | .disable id => Broker.tryUpdate r (r.disable id)
  | .add place id point family respond => Broker.tryUpdate r (r.add place id point family respond)

def Grants (r : Roster) (q : Request) : Prop := (r.answer q).1 = .ok ()

def after (r : Roster) (history : List Request) : Roster :=
  history.foldl (fun r q => (r.answer q).2) r

@[simp] theorem after_nil (r : Roster) : r.after [] = r := rfl

@[simp] theorem after_concat (r : Roster) (history : List Request) (q : Request) :
    r.after (history ++ [q]) = ((r.after history).answer q).2 := List.foldl_append

theorem tryUpdate_cases {r : Roster} (update : Except RegistryError Roster) :
    (∃ r', update = .ok r' ∧ Broker.tryUpdate r update = (.ok (), r')) ∨
      (Broker.tryUpdate r update).1 ≠ .ok () ∧ (Broker.tryUpdate r update).2 = r := by
  cases update with
  | error e => exact .inr ⟨nofun, rfl⟩
  | ok r' => exact .inl ⟨r', rfl, rfl⟩

theorem tryUpdate_of_refused {r : Roster} {update : Except RegistryError Roster}
    (h : (Broker.tryUpdate r update).1 ≠ .ok ()) : (Broker.tryUpdate r update).2 = r := by
  rcases tryUpdate_cases (r := r) update with ⟨r', -, hok⟩ | ⟨-, hsame⟩
  · exact absurd (congrArg Prod.fst hok) h
  · exact hsame

/-- A granted removal or disabling discards the hooks of the extension on a connection that is tracked. -/
theorem hooksOn_discard {r : Roster} {id : String} {q : Request} (hq : q = .remove id ∨ q = .disable id)
    (hok : r.Grants q) (c : Nat) : (r.answer q).2.hooksOn (.connection c) =
      if r.isTracked c then (r.hooksOn (.connection c)).filter (·.extension ≠ id)
      else r.hooksOn (.connection c) := by
  rcases hq with rfl | rfl
  · rcases tryUpdate_cases (r := r) (r.remove id) with ⟨r', hr, hanswer⟩ | ⟨hrefused, -⟩
    · obtain ⟨-, rfl⟩ := remove_eq hr
      exact (congrArg (·.2.hooksOn (.connection c)) hanswer).trans (hooksOn_purge_connection _ id c)
    · exact absurd hok hrefused
  · rcases tryUpdate_cases (r := r) (r.disable id) with ⟨r', hr, hanswer⟩ | ⟨hrefused, -⟩
    · obtain ⟨r₁, hset, rfl⟩ := disable_eq hr
      obtain ⟨-, rfl⟩ := setEnabled_eq hset
      exact (congrArg (·.2.hooksOn (.connection c)) hanswer).trans (hooksOn_purge_connection _ id c)
    · exact absurd hok hrefused

theorem tryUpdate_steps {r : Roster} (update : Except RegistryError Roster)
    (hstep : ∀ r', update = .ok r' → RosterStep r r') :
    ReflTransGen RosterStep r (Broker.tryUpdate r update).2 := by
  cases update with
  | error e => exact .refl
  | ok r' => exact .single (hstep r' rfl)

theorem answer_steps (r : Roster) (q : Request) : ReflTransGen RosterStep r (r.answer q).2 := by
  cases q with
  | openConnection => exact .single (.openConnection ..)
  | track c => exact .single (.track c)
  | untrack clientId => exact .single (.untrack clientId)
  | close => exact .single (.close ..)
  | resolve => exact .single (.resolve ..)
  | letGo c => exact .single (.letGo c)
  | release c => exact .single (.release c)
  | register => exact tryUpdate_steps _ fun _ => .register
  | remove => exact tryUpdate_steps _ fun _ => .remove
  | enable => exact tryUpdate_steps _ fun _ => .enable
  | disable => exact tryUpdate_steps _ fun _ => .disable
  | add => exact tryUpdate_steps _ fun _ => .add

theorem after_steps (r : Roster) (history : List Request) :
    ReflTransGen RosterStep r (r.after history) := by
  induction history using List.reverseRecOn with
  | nil => exact .refl
  | append_singleton history q ih =>
    rw [after_concat]
    exact ih.trans (answer_steps _ q)

end Roster

end BrokerHooks
