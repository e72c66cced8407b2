import Mathlib.Data.List.Induction
import BrokerHooks.Proofs.Alias.Acts

namespace BrokerHooks.Alias

variable {κ : Type} [DecidableEq κ]

/-- A table of this maximum that is in use and whose aliases stand for these topics. -/
structure Table.Maps (t : Table) (maximum : UInt16) (bound : UInt16 → Option String) : Prop where
  length : t.slots.length = maximum.toNat
  live : t.finished = false
  get : ∀ n, t.get? n = bound n

namespace Table

variable {t : Table} {topic : String} {number : Option UInt16} {n : UInt16}

theorem get?_new (maximum n : UInt16) :
    get? { slots := List.replicate maximum.toNat none } n = none := by
  unfold get?
  split
  · rfl
  · rw [List.getElem?_replicate]
    split <;> rfl

theorem get?_bind (h : t.slots.length < UInt16.size) (hzero : n ≠ 0) (hmax : n ≤ t.maximum) (m : UInt16) :
    (t.bind n topic).get? m = if m = n then some topic else t.get? m := by
  have hslot := slot_eq h hzero hmax
  obtain ⟨hlt, -⟩ := List.getElem?_eq_some_iff.1 hslot
  unfold get? bind
  by_cases hm : m = 0
  · rw [if_pos hm, if_pos hm, if_neg fun hmn => hzero (hmn.symm.trans hm)]
  · rw [if_neg hm, if_neg hm, List.getElem?_set]
    -- Both aliases are at least 1, so they share a slot only if they are the same.
    have hpos : m.toNat ≠ 0 := fun h0 => hm (UInt16.toNat_inj.1 h0)
    have hpos' : n.toNat ≠ 0 := fun h0 => hzero (UInt16.toNat_inj.1 h0)
    by_cases hmn : m = n
    · rw [hmn, if_pos rfl, if_pos hlt, if_pos rfl]
      rfl
    · have hne : n.toNat - 1 ≠ m.toNat - 1 := fun heq => hmn (UInt16.toNat_inj.1 (by omega))
      rw [if_neg hne, if_neg hmn]

namespace Maps

variable {maximum : UInt16} {bound : UInt16 → Option String}

theorem length_lt (h : t.Maps maximum bound) : t.slots.length < UInt16.size :=
  h.length ▸ maximum.toNat_lt

theorem maximum_eq (h : t.Maps maximum bound) : t.maximum = maximum :=
  UInt16.toNat_inj.1 ((toNat_maximum h.length_lt).trans h.length)

/-- What one request preserves: it binds at most the alias it names. -/
theorem resolve (h : t.Maps maximum bound) (a : Account) (topic : String) (number : Option UInt16) :
    (t.resolve a topic number).2.2.Maps maximum
      fun n => if binding? maximum topic number = some n then some topic else bound n := by
  rw [← h.maximum_eq]
  cases hbinding : binding? t.maximum topic number with
  | none =>
    rw [resolve_of_no_binding hbinding]
    exact ⟨h.maximum_eq.symm ▸ h.length, h.live, h.get⟩
  | some n =>
    obtain ⟨-, -, hzero, hmax⟩ := binding?_eq_some_iff.1 hbinding
    rw [resolve_of_binding hbinding]
    refine ⟨?_, h.live, fun m => ?_⟩
    · rw [h.maximum_eq, ← h.length]
      exact List.length_set
    · rw [get?_bind h.length_lt hzero hmax, h.get]
      simp only [Option.some_inj, eq_comm]

end Maps
end Table

theorem Account.exceeded_iff (a : Account) : a.exceeded = true ↔ ¬a.committed ≤ a.hardLimit := by
  unfold exceeded
  rw [decide_eq_true_eq, Int.not_le]

/-- The topic to which the act binds the alias, in a table of this maximum. -/
def Act.binds? (a : Act κ) (key : κ) (maximum n : UInt16) : Option String :=
  match a with
  | .resolve k topic number => if k = key ∧ binding? maximum topic number = some n then some topic else none
  | .grant _ _ | .get _ _ | .finish _ | .drop _ => none

/-- The topic to which the acts bound the alias last. -/
def latest (acts : List (Act κ)) (key : κ) (maximum n : UInt16) : Option String :=
  acts.reverse.findSome? fun a => a.binds? key maximum n

theorem latest_concat (acts : List (Act κ)) (a : Act κ) (key : κ) (maximum n : UInt16) :
    latest (acts ++ [a]) key maximum n = (a.binds? key maximum n).or (latest acts key maximum n) := by
  unfold latest
  rw [List.reverse_append, List.reverse_singleton, List.singleton_append, List.findSome?_cons]
  cases a.binds? key maximum n <;> rfl

namespace Ledger

/-- What one act preserves, as long as it does not end the table or make a new one in its place. -/
theorem maps_act {l : Ledger κ} {key : κ} {t : Table} {maximum : UInt16} {bound : UInt16 → Option String}
    (hkey : l.table? key = some t) (h : t.Maps maximum bound) {a : Act κ} (huse : a.key = key → a.isUse) :
    ∃ t', (l.act a).table? key = some t' ∧
      t'.Maps maximum fun n => (a.binds? key maximum n).or (bound n) := by
  by_cases hother : key = a.key
  · cases a with
    | resolve k topic number =>
      obtain rfl : key = k := hother
      refine ⟨(t.resolve l.account topic number).2.2, ?_, ?_⟩
      · have htable := table?_resolve l key topic number key
        rw [if_pos rfl, hkey] at htable
        exact htable
      · have hresolve := h.resolve l.account topic number
        refine ⟨hresolve.length, hresolve.live, fun n => (hresolve.get n).trans ?_⟩
        simp only [Act.binds?, true_and]
        split <;> rfl
    | get k number => exact ⟨t, hkey, h⟩
    | grant k m => cases huse hother.symm
    | finish k => cases huse hother.symm
    | drop k => cases huse hother.symm
  -- What is done under other keys neither changes the table nor counts as a binding of its aliases.
  · refine ⟨t, (act_table?_of_ne l a hother).trans hkey, ⟨h.length, h.live, fun n => (h.get n).trans ?_⟩⟩
    have hnone : a.binds? key maximum n = none := by
      cases a with
      | resolve k topic number => exact if_neg fun hbinds => hother hbinds.1.symm
      | _ => rfl
    rw [hnone]
    rfl

/-- What a run preserves, from the time the table was granted. -/
theorem maps_after {l : Ledger κ} {key : κ} {maximum : UInt16} (hgrant : (l.grant key maximum).1 = true)
    {acts : List (Act κ)} (huses : ∀ a ∈ acts, a.key = key → a.isUse) :
    ∃ t, ((l.grant key maximum).2.after acts).table? key = some t ∧
      t.Maps maximum (latest acts key maximum) := by
  induction acts using List.reverseRecOn with
  | nil =>
    rcases grant_cases l key maximum with hrefused | ⟨-, -, htable⟩
    · rw [hrefused] at hgrant
      cases hgrant
    · exact ⟨_, (htable key).trans (if_pos rfl), List.length_replicate, rfl, Table.get?_new maximum⟩
  | append_singleton acts a ih =>
    obtain ⟨t, hkey, hmaps⟩ := ih fun b hb => huses b (List.mem_append_left _ hb)
    have huse : a.key = key → a.isUse := huses a (List.mem_append_right _ (List.mem_singleton_self a))
    obtain ⟨t', hkey', hmaps'⟩ := maps_act hkey hmaps huse
    rw [after_concat]
    exact ⟨t', hkey', hmaps'.length, hmaps'.live, fun n =>
      (hmaps'.get n).trans (latest_concat acts a key maximum n).symm⟩

/-- The request is answered so, and changes neither the account nor any table. -/
def Answers (l : Ledger κ) (key : κ) (topic : String) (number : Option UInt16)
    (answer : Except AliasError String) : Prop :=
  (l.resolve? key topic number).1 = some answer ∧ (l.resolve? key topic number).2.account = l.account ∧
    ∀ k, (l.resolve? key topic number).2.table? k = l.table? k

/-- How a table whose aliases stand for these topics deals with a request. -/
structure Serves (l : Ledger κ) (key : κ) (maximum : UInt16) (bound : UInt16 → Option String) : Prop where
  unaliased : ∀ topic, l.Answers key topic none (if topic = "" then .error .absent else .ok topic)
  zero : ∀ topic, l.Answers key topic (some 0) (.error .zero)
  tooLarge : ∀ topic n, maximum < n → l.Answers key topic (some n) (.error (.tooLarge n maximum))
  lookup : ∀ n, n ≠ 0 → n ≤ maximum →
    l.Answers key "" (some n) ((bound n).elim (.error (.unmapped n)) .ok)
  /-- A topic is charged in the place of what its alias stood for, and only then the hard limit is asked. -/
  registers : ∀ topic n, topic ≠ "" → n ≠ 0 → n ≤ maximum →
    let l' := (l.resolve? key topic (some n)).2
    l'.account =
        { l.account with
          bytes := l.account.bytes - boundBytes (bound n) + topicBytes topic
          aliases := l.account.aliases - boundCount (bound n) + 1 } ∧
      (l.resolve? key topic (some n)).1 =
        some (if l'.account.committed ≤ l.account.hardLimit then .ok topic else .error .hardLimitExceeded) ∧
      (∀ k, k ≠ key → l'.table? k = l.table? k) ∧
      ∃ t', l'.table? key = some t' ∧ ∀ m, t'.get? m = if m = n then some topic else bound m

theorem resolve?_of_table? {l : Ledger κ} {key : κ} {t : Table} (hkey : l.table? key = some t) (topic : String)
    (number : Option UInt16) : l.resolve? key topic number =
      (some (t.resolve l.account topic number).1,
        Ledger.put { l with account := (t.resolve l.account topic number).2.1 } key
          (t.resolve l.account topic number).2.2) := by
  unfold resolve?
  rw [hkey]

theorem answers_of_table? {l : Ledger κ} {key : κ} {t : Table} (hkey : l.table? key = some t) {topic : String}
    {number : Option UInt16} {answer : Except AliasError String}
    (h : t.resolve l.account topic number = (answer, l.account, t)) : l.Answers key topic number answer := by
  refine ⟨?_, ?_, fun k => ?_⟩
  · rw [resolve?_of_table? hkey, h]
  · rw [resolve?_of_table? hkey, h]
    rfl
  · rw [table?_resolve]
    by_cases hk : k = key
    · rw [if_pos hk, hk, hkey, Option.map_some, h]
    · rw [if_neg hk]

theorem serves_of_maps {l : Ledger κ} {key : κ} {t : Table} {maximum : UInt16}
    {bound : UInt16 → Option String} (hkey : l.table? key = some t) (h : t.Maps maximum bound) :
    l.Serves key maximum bound where
  unaliased topic := answers_of_table? hkey (by simp [Table.resolve, Table.resolveUnaliased])
  zero topic := answers_of_table? hkey rfl
  tooLarge topic n hmax := by
    have hzero : n ≠ 0 := fun hn => UInt16.not_lt_zero (hn ▸ hmax)
    refine answers_of_table? hkey ?_
    simp only [Table.resolve, h.maximum_eq, if_neg hzero, if_pos hmax]
  lookup n hzero hmax := by
    have hmax : ¬maximum < n := UInt16.not_lt.2 hmax
    have hempty : "".isEmpty := rfl
    refine answers_of_table? hkey ?_
    simp only [Table.resolve, h.maximum_eq, h.get, if_neg hzero, if_neg hmax, if_pos hempty]
    cases bound n <;> rfl
  registers topic n htopic hzero hmax := by
    -- The topic is bound before the limit is asked, so that a refused one is found later all the same.
    have hbinding : binding? t.maximum topic (some n) = some n :=
      binding?_eq_some_iff.2 ⟨rfl, htopic, hzero, h.maximum_eq.symm ▸ hmax⟩
    have hresolve := Table.resolve_of_binding (a := l.account) hbinding
    rw [recharge_eq, h.get] at hresolve
    have hmaps := h.resolve l.account topic (some n)
    have haccount : (l.resolve? key topic (some n)).2.account = _ :=
      (congrArg (·.2.account) (resolve?_of_table? hkey topic (some n))).trans (congrArg (·.2.1) hresolve)
    refine ⟨haccount, ?_, fun k hk => (table?_resolve ..).trans (if_neg hk),
      (t.resolve l.account topic (some n)).2.2, ?_, fun m => ?_⟩
    · rw [haccount, resolve?_of_table? hkey, hresolve]
      simp only [Account.exceeded_iff, ite_not]
    · rw [table?_resolve, if_pos rfl, hkey, Option.map_some]
    · rw [hmaps.get, ← h.maximum_eq, hbinding]
      simp only [Option.some_inj, eq_comm]

/-- Of a table that was granted, and then used in any way while anything was done with the tables beside it: an
alias stands for the topic it was bound to last, or for none, and every request is dealt with accordingly. -/
theorem last_writer_wins (start : Ledger κ) (key : κ) (maximum : UInt16) (acts : List (Act κ))
    (hgrant : (start.grant key maximum).1 = true) (huses : ∀ a ∈ acts, a.key = key → a.isUse) :
    let l := (start.grant key maximum).2.after acts
    (∃ t, l.table? key = some t ∧ t.maximum = maximum ∧ t.finished = false ∧
      ∀ n, t.get? n = latest acts key maximum n) ∧ l.Serves key maximum (latest acts key maximum) := by
  obtain ⟨t, hkey, hmaps⟩ := maps_after hgrant huses
  exact ⟨⟨t, hkey, hmaps.maximum_eq, hmaps.live, hmaps.get⟩, serves_of_maps hkey hmaps⟩

/-- A topic that the hard limit refuses, on account of another table, is found when its alias is looked up. -/
theorem refused_topic_found :
    let start : Ledger Nat := { account := { softLimit := 100, hardLimit := 100 } }
    let acts : List (Act Nat) :=
      [.resolve 0 "news" (some 1), .grant 1 1, .resolve 1 "x" (some 1), .resolve 0 "sport" (some 2), .drop 1,
        .resolve 0 "tide" (some 1), .get 0 2]
    let refusing := (start.grant 0 2).2.after (acts.take 3)
    let l := (start.grant 0 2).2.after acts
    (refusing.resolve? 0 "sport" (some 2)).1 = some (.error .hardLimitExceeded) ∧
      (l.resolve? 0 "" (some 1)).1 = some (.ok "tide") ∧ (l.resolve? 0 "" (some 2)).1 = some (.ok "sport") := by
  intro start acts refusing l
  obtain ⟨-, hrefusing⟩ := last_writer_wins start 0 2 (acts.take 3) (by decide +kernel) (by decide +kernel)
  obtain ⟨-, hserves⟩ := last_writer_wins start 0 2 acts (by decide +kernel) (by decide +kernel)
  refine ⟨(hrefusing.registers "sport" 2 (by decide) (by decide) (by decide)).2.1.trans (by decide +kernel), ?_, ?_⟩
  · exact (hserves.lookup 1 (by decide) (by decide)).1.trans (by decide +kernel)
  · exact (hserves.lookup 2 (by decide) (by decide)).1.trans (by decide +kernel)

end Ledger
end BrokerHooks.Alias
