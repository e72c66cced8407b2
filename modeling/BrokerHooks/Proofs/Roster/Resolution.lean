import BrokerHooks.Proofs.Alias.Balance
import BrokerHooks.Proofs.Alias.LastWriter

namespace BrokerHooks

open Alias

namespace Alias

variable {κ : Type} [DecidableEq κ]

/-- No request changes how many aliases a table has. -/
theorem Table.maximum_resolve (t : Table) (a : Account) (topic : String) (number : Option UInt16) :
    (t.resolve a topic number).2.2.maximum = t.maximum := by
  cases hbinding : binding? t.maximum topic number with
  | none => rw [resolve_of_no_binding hbinding]
  | some n =>
    rw [resolve_of_binding hbinding]
    exact congrArg UInt16.ofNat List.length_set

theorem Table.maximum_new (maximum : UInt16) :
    Table.maximum { slots := List.replicate maximum.toNat none } = maximum := by
  unfold Table.maximum
  rw [List.length_replicate, UInt16.ofNat_toNat]

theorem Ledger.put_self {l : Ledger κ} {key : κ} {t : Table} (hkeys : (l.tables.map (·.1)).Nodup)
    (hkey : l.table? key = some t) : l.put key t = l := by
  obtain ⟨before, after, hsplit, -, hput⟩ := entry_split hkeys hkey
  have htables : (l.put key t).tables = l.tables := (hput t).trans hsplit.symm
  cases l
  exact congrArg (Ledger.mk _) htables

end Alias

namespace Roster

variable {r r' : Roster} {c : Nat}

def GrantsAliases (r : Roster) : Prop := ∀ c t, r.aliases.table? c = some t → t.maximum ≠ 0

/-- What any operation on the roster preserves. -/
theorem GrantsAliases.step (hstep : RosterStep r r') (h : r.GrantsAliases) : r'.GrantsAliases := by
  intro k t hk
  cases hstep.changes with
  | unaliased _ ha =>
    rw [ha] at hk
    exact h k t hk
  | resolved c topic number _ ha =>
    rw [ha, Ledger.table?_resolve] at hk
    split at hk
    · obtain ⟨t₀, ht₀, rfl⟩ := Option.map_eq_some_iff.1 hk
      rw [Table.maximum_resolve]
      exact h c t₀ ht₀
    · exact h k t hk
  | granted maximum _ _ ha =>
    -- A table of maximum zero is refused, so a new one has aliases.
    rw [ha] at hk
    rcases Ledger.grant_cases r.aliases r.connections.length maximum with hrefused | ⟨hne, -, htable⟩
    · rw [hrefused] at hk
      exact h k t hk
    · rw [htable] at hk
      split at hk
      · cases hk
        rw [Table.maximum_new]
        exact hne
      · exact h k t hk
  | ended c _ ha =>
    rw [ha, Ledger.table?_drop] at hk
    split at hk
    · cases hk
    · exact h k t hk

theorem aliasMaximum_of_table? {t : Table} (hc : r.aliases.table? c = some t) :
    r.aliasMaximum c = t.maximum := by
  unfold aliasMaximum
  rw [hc, Option.map_some, Option.getD_some]

theorem aliasMaximum_of_none (hc : r.aliases.table? c = none) : r.aliasMaximum c = 0 := by
  unfold aliasMaximum
  rw [hc, Option.map_none, Option.getD_none]

theorem GrantsAliases.table?_eq_none_iff (h : r.GrantsAliases) :
    r.aliases.table? c = none ↔ r.aliasMaximum c = 0 := by
  cases hc : r.aliases.table? c with
  | none => exact iff_of_true rfl (aliasMaximum_of_none hc)
  | some t =>
    rw [aliasMaximum_of_table? hc]
    exact iff_of_false nofun (h c t hc)

theorem resolve_of_none (hc : r.aliases.table? c = none) (topic : String) (number : Option UInt16) :
    r.resolve c topic number = (resolveWithoutTable topic number, r) := by
  unfold resolve Ledger.resolve?
  rw [hc]

theorem resolve_of_table? {t : Table} (hc : r.aliases.table? c = some t) (topic : String)
    (number : Option UInt16) : r.resolve c topic number =
      ((t.resolve r.aliases.account topic number).1,
        { r with aliases := (r.aliases.resolve? c topic number).2 }) := by
  unfold resolve
  rw [Ledger.resolve?_of_table? hc]

theorem Balanced.resolve_unchanged (h : r.Balanced) {t : Table} (hc : r.aliases.table? c = some t)
    {topic : String} {number : Option UInt16} {answer : Except AliasError String}
    (hanswer : t.resolve r.aliases.account topic number = (answer, r.aliases.account, t)) :
    r.resolve c topic number = (answer, r) := by
  rw [resolve_of_table? hc, Ledger.resolve?_of_table? hc, hanswer]
  exact congrArg (fun aliases => (answer, { r with aliases })) (Ledger.put_self h.ledger.keys hc)

/-- How a connection answers requests, going by its alias maximum. -/
structure Classifies (r : Roster) (c : Nat) : Prop where
  unaliased : ∀ topic, r.resolve c topic none = (if topic = "" then .error .absent else .ok topic, r)
  zero : ∀ topic, r.resolve c topic (some 0) =
    (.error (if r.aliasMaximum c = 0 then .tooLarge 0 0 else .zero), r)
  tooLarge : ∀ topic n, r.aliasMaximum c < n →
    r.resolve c topic (some n) = (.error (.tooLarge n (r.aliasMaximum c)), r)
  within : ∀ topic n, n ≠ 0 → n ≤ r.aliasMaximum c → ∃ t, r.aliases.table? c = some t ∧
    (r.resolve c topic (some n)).1 = (t.resolve r.aliases.account topic (some n)).1 ∧
    (r.resolve c topic (some n)).2.aliases.table? c =
      some (t.resolve r.aliases.account topic (some n)).2.2

theorem classifies_of_none (hc : r.aliases.table? c = none) : r.Classifies c where
  unaliased topic := by
    rw [resolve_of_none hc]
    simp [resolveWithoutTable, Table.resolveUnaliased]
  zero topic := by
    rw [resolve_of_none hc, if_pos (aliasMaximum_of_none hc)]
    rfl
  tooLarge topic n _ := by
    rw [resolve_of_none hc, aliasMaximum_of_none hc]
    rfl
  within topic n hzero hmax := by
    rw [aliasMaximum_of_none hc] at hmax
    exact absurd (UInt16.le_zero_iff.1 hmax) hzero

theorem Balanced.classifies (h : r.Balanced) (hgrants : r.GrantsAliases) : r.Classifies c := by
  cases hc : r.aliases.table? c with
  | none => exact classifies_of_none hc
  | some t =>
    have hmaximum : r.aliasMaximum c = t.maximum := aliasMaximum_of_table? hc
    refine ⟨fun topic => ?_, fun topic => ?_, fun topic n hmax => ?_, fun topic n hzero hmax => ?_⟩
    · refine h.resolve_unchanged hc ?_
      simp [Table.resolve, Table.resolveUnaliased]
    · rw [hmaximum, if_neg (hgrants c t hc)]
      exact h.resolve_unchanged hc rfl
    · rw [hmaximum] at hmax ⊢
      have hzero : n ≠ 0 := fun hn => UInt16.not_lt_zero (hn ▸ hmax)
      refine h.resolve_unchanged hc ?_
      simp only [Table.resolve, if_neg hzero, if_pos hmax]
    · have htable := Ledger.table?_resolve r.aliases c topic (some n) c
      rw [if_pos rfl, hc, Option.map_some] at htable
      rw [resolve_of_table? hc]
      exact ⟨t, hc, rfl, htable⟩

/-- Without a table, alias 0 is the one alias that is answered otherwise than by a table without slots. -/
theorem resolve_of_none_iff (hc : r.aliases.table? c = none) (topic : String) (number : Option UInt16) :
    (r.resolve c topic number).1 = (Table.resolve { slots := [] } r.aliases.account topic number).1 ↔
      number ≠ some 0 := by
  rw [resolve_of_none hc]
  cases number with
  | none => exact iff_of_true rfl nofun
  | some n =>
    by_cases hzero : n = 0
    · rw [hzero]
      exact iff_of_false nofun fun h => h rfl
    · have hmax : Table.maximum { slots := [] } < n := UInt16.pos_iff_ne_zero.2 hzero
      simp only [Table.resolve, if_neg hzero, if_pos hmax]
      exact iff_of_true rfl fun h => hzero (Option.some.inj h)

end Roster

namespace Broker

theorem grantsAliases_play (config : Config) (metered : Bool) (ms : List Move) :
    ((ofConfig config metered).play ms).roster.GrantsAliases := by
  have hstart : (ofConfig config metered).roster.GrantsAliases := by
    intro c t hc
    cases hc
  exact play_roster (fun _ _ => Roster.GrantsAliases.step) hstart ms

/-- In every run, every connection answers requests by its alias maximum, whether it was granted a table, was
refused one, never asked for one or has given it back; and a table is asked only about the aliases within the
maximum. The connections without a table are those of maximum 0. They answer as a table without slots would, to
all requests but those with alias 0. -/
theorem requests_classified (config : Config) (metered : Bool) (ms : List Move) (c : Nat) :
    let r := ((ofConfig config metered).play ms).roster
    r.Classifies c ∧ (r.aliases.table? c = none ↔ r.aliasMaximum c = 0) ∧
      (r.aliasMaximum c = 0 → ∀ topic number,
        ((r.resolve c topic number).1 = (Table.resolve { slots := [] } r.aliases.account topic number).1 ↔
          number ≠ some 0)) := by
  intro r
  have hbalanced : r.Balanced := balanced_play config metered ms
  have hgrants : r.GrantsAliases := grantsAliases_play config metered ms
  refine ⟨hbalanced.classifies hgrants, hgrants.table?_eq_none_iff, fun hmaximum topic number => ?_⟩
  exact Roster.resolve_of_none_iff (hgrants.table?_eq_none_iff.2 hmaximum) topic number

/-- Alias 0 is invalid where there is a table, but too large where none was asked for, where none was granted, and
where it has been given back. -/
theorem zero_too_large_without_table :
    let site : Site := { connection := 0, turn := 0 }
    let answer (config : Config) (ms : List Move) :=
      (((ofConfig config true).play ms).roster.resolve 0 "news" (some 0)).1
    let scarce : Config := { limits := { topicAliasSoftLimit := 0 } }
    answer {} [.openConnection "reader" .v5 (some 2)] = .error .zero ∧
      answer {} [.openConnection "reader" .v5 none] = .error (.tooLarge 0 0) ∧
      answer scarce [.openConnection "reader" .v5 (some 2)] = .error (.tooLarge 0 0) ∧
      answer {} [.openConnection "reader" .v5 (some 2), .perform site (.close none)] =
        .error (.tooLarge 0 0) := by
  decide +kernel

end Broker
end BrokerHooks
