import BrokerHooks.Proofs.Alias.Table

namespace BrokerHooks.Alias

inductive Act (κ : Type) where
  | grant (key : κ) (maximum : UInt16)
  | resolve (key : κ) (topic : String) (number : Option UInt16)
  /-- The topic of an alias is read, which changes nothing. -/
  | get (key : κ) (number : UInt16)
  | finish (key : κ)
  | drop (key : κ)

def Act.key {κ : Type} : Act κ → κ
  | .grant key _ | .resolve key _ _ | .get key _ | .finish key | .drop key => key

/-- Whether the act only uses the table: it neither makes nor ends it. -/
def Act.isUse {κ : Type} : Act κ → Bool
  | .resolve _ _ _ | .get _ _ => true
  | .grant _ _ | .finish _ | .drop _ => false

namespace Ledger

variable {κ : Type} [DecidableEq κ]

def act (l : Ledger κ) : Act κ → Ledger κ
  | .grant key maximum => (l.grant key maximum).2
  | .resolve key topic number => (l.resolve? key topic number).2
  | .get _ _ => l
  | .finish key => l.finish key
  | .drop key => l.drop key

def after (l : Ledger κ) (acts : List (Act κ)) : Ledger κ := acts.foldl act l

@[simp] theorem after_nil (l : Ledger κ) : l.after [] = l := rfl

@[simp] theorem after_concat (l : Ledger κ) (acts : List (Act κ)) (a : Act κ) :
    l.after (acts ++ [a]) = (l.after acts).act a := List.foldl_append

theorem lookup_cons_eq {β : Type} (e : κ × β) (es : List (κ × β)) (k : κ) :
    (e :: es).lookup k = if k = e.1 then some e.2 else es.lookup k := by
  rw [List.lookup_cons]
  by_cases hk : k = e.1
  · simp [hk]
  · rw [beq_false_of_ne hk, if_neg hk]

theorem table?_put (l : Ledger κ) (key : κ) (t : Table) (k : κ) :
    (l.put key t).table? k = if k = key then (l.table? key).map fun _ => t else l.table? k := by
  unfold table? put
  induction l.tables with
  | nil => simp
  | cons e es ih =>
    rw [List.map_cons, lookup_cons_eq, lookup_cons_eq, lookup_cons_eq, ih]
    grind

theorem lookup_filter_ne (es : List (κ × Table)) (key k : κ) :
    (es.filter (·.1 ≠ key)).lookup k = if k = key then none else es.lookup k := by
  induction es with
  | nil => simp
  | cons e es ih =>
    rw [List.filter_cons, lookup_cons_eq]
    split
    · rw [lookup_cons_eq, ih]
      grind
    · rw [ih]
      grind

theorem table?_drop (l : Ledger κ) (key k : κ) :
    (l.drop key).table? k = if k = key then none else l.table? k := by
  unfold drop
  cases hkey : l.table? key with
  | none => by_cases hk : k = key <;> simp [hk, hkey]
  | some t => exact lookup_filter_ne l.tables key k

theorem table?_finish (l : Ledger κ) (key k : κ) : (l.finish key).table? k =
    if k = key then (l.table? key).map fun t => { t with finished := true } else l.table? k := by
  unfold finish
  cases hkey : l.table? key with
  | none => by_cases hk : k = key <;> simp [hk, hkey]
  | some t =>
    have hput := table?_put { l with account := (t.finish l.account).1 } key (t.finish l.account).2 k
    have hsame : { l with account := (t.finish l.account).1 }.table? key = some t := hkey
    rw [hsame] at hput
    refine hput.trans ?_
    rw [t.finish_snd]
    rfl

theorem table?_resolve (l : Ledger κ) (key : κ) (topic : String) (number : Option UInt16) (k : κ) :
    (l.resolve? key topic number).2.table? k =
      if k = key then (l.table? key).map fun t => (t.resolve l.account topic number).2.2
      else l.table? k := by
  unfold resolve?
  cases hkey : l.table? key with
  | none => by_cases hk : k = key <;> simp [hk, hkey]
  | some t =>
    have hput := table?_put { l with account := (t.resolve l.account topic number).2.1 } key
      (t.resolve l.account topic number).2.2 k
    have hsame : { l with account := (t.resolve l.account topic number).2.1 }.table? key = some t := hkey
    rw [hsame] at hput
    exact hput

/-- A table is refused, or it is new and takes the place of the one under its key. -/
theorem grant_cases (l : Ledger κ) (key : κ) (maximum : UInt16) :
    l.grant key maximum = (false, l) ∨ maximum ≠ 0 ∧ (l.grant key maximum).1 = true ∧
      ∀ k, (l.grant key maximum).2.table? k =
        if k = key then some { slots := List.replicate maximum.toNat none } else l.table? k := by
  unfold grant Table.grant?
  by_cases hrefused : maximum = 0 ∨ !l.account.available
  · rw [if_pos hrefused]
    exact .inl rfl
  · rw [if_neg hrefused]
    refine .inr ⟨fun hzero => hrefused (.inl hzero), rfl, fun k => ?_⟩
    unfold table?
    dsimp only
    rw [lookup_cons_eq]
    by_cases hk : k = key
    · rw [if_pos hk, if_pos hk]
    · rw [if_neg hk, if_neg hk]
      exact (table?_drop { l with account := l.account.chargeSlots maximum.toNat } key k).trans (if_neg hk)

/-- Each act leaves the tables under other keys as they are. -/
theorem act_table?_of_ne (l : Ledger κ) (a : Act κ) {k : κ} (h : k ≠ a.key) :
    (l.act a).table? k = l.table? k := by
  cases a with
  | grant key maximum =>
    rcases grant_cases l key maximum with hrefused | ⟨-, -, htable⟩
    · exact congrArg (·.2.table? k) hrefused
    · exact (htable k).trans (if_neg h)
  | resolve key topic number => exact (table?_resolve ..).trans (if_neg h)
  | get key number => rfl
  | finish key => exact (table?_finish ..).trans (if_neg h)
  | drop key => exact (table?_drop ..).trans (if_neg h)

end Ledger
end BrokerHooks.Alias
