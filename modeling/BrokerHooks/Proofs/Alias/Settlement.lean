import Mathlib.Data.List.Induction
import BrokerHooks.Proofs.Alias.Acts
import BrokerHooks.Proofs.Alias.Balance

namespace BrokerHooks.Alias

variable {κ : Type} [DecidableEq κ]

namespace Ledger

/-- What the tables hold that are neither finished nor dropped. -/
def heldBytes (l : Ledger κ) : Int := total Table.heldBytes (l.tables.filter fun e => !e.2.finished)

def heldCount (l : Ledger κ) : Int := total Table.heldCount (l.tables.filter fun e => !e.2.finished)

end Ledger

namespace LateBinding

def total (f : LateBinding → Int) (late : List LateBinding) : Int := late.foldr (f · + ·) 0

theorem total_append (f : LateBinding → Int) (late late' : List LateBinding) :
    total f (late ++ late') = total f late + total f late' := by
  induction late with
  | nil => exact (Int.zero_add _).symm
  | cons x late ih =>
    simp only [total, List.cons_append, List.foldr_cons] at ih ⊢
    rw [ih, Int.add_assoc]

theorem total_toList (f : LateBinding → Int) (late : Option LateBinding) :
    total f late.toList = late.elim 0 f := by
  cases late with
  | none => rfl
  | some x => exact Int.add_zero _

end LateBinding

namespace Ledger

def lateBinding (l : Ledger κ) : Act κ → Option LateBinding
  | .resolve key topic number => l.lateBinding? key topic number
  | .grant _ _ | .get _ _ | .finish _ | .drop _ => none

/-- The topics that are bound on finished tables in the course of the acts. -/
def lateBindings (l : Ledger κ) : List (Act κ) → List LateBinding
  | [] => []
  | a :: acts => (l.lateBinding a).toList ++ lateBindings (l.act a) acts

theorem lateBindings_concat (l : Ledger κ) (acts : List (Act κ)) (a : Act κ) :
    l.lateBindings (acts ++ [a]) = l.lateBindings acts ++ ((l.after acts).lateBinding a).toList := by
  induction acts generalizing l with
  | nil => simp [lateBindings]
  | cons b acts ih =>
    rw [List.cons_append, lateBindings, lateBindings, ih (l.act b), List.append_assoc]
    rfl

omit [DecidableEq κ] in
/-- What the tables have yet to give back is what those of them hold that are not finished. -/
theorem total_due_eq {es : List (κ × Table)} (h : ∀ e ∈ es, e.2.slots.length < UInt16.size) :
    total dueBytes es = total Table.heldBytes (es.filter fun e => !e.2.finished) ∧
      total dueCount es = total Table.heldCount (es.filter fun e => !e.2.finished) := by
  induction es with
  | nil => exact ⟨rfl, rfl⟩
  | cons e es ih =>
    obtain ⟨hbytes, hcount⟩ := held_eq (h e (List.mem_cons_self ..))
    obtain ⟨ihbytes, ihcount⟩ := ih fun e' he => h e' (List.mem_cons_of_mem _ he)
    rw [total_cons, total_cons, ihbytes, ihcount]
    cases hfinished : e.2.finished with
    | false => simp [dueBytes, dueCount, hfinished, hbytes, hcount]
    | true => simp [dueBytes, dueCount, hfinished]

omit [DecidableEq κ] in
theorem total_due_nonneg (es : List (κ × Table)) :
    0 ≤ total dueCount es ∧ total dueCount es ≤ total dueBytes es := by
  refine total_nonneg_le (fun t => ?_) es
  unfold dueCount dueBytes
  split
  · exact ⟨Int.le_refl _, Int.le_refl _⟩
  · exact ⟨slotsCount_nonneg t.slots, slotsCount_le t.slots⟩

/-- What one act preserves: the account is off by what was bound late. -/
theorem OffBy.act {bytes aliases : Int} {l : Ledger κ} (h : OffBy bytes aliases l) (a : Act κ) :
    OffBy (bytes + (l.lateBinding a).elim 0 LateBinding.bytes)
      (aliases + (l.lateBinding a).elim 0 LateBinding.count) (l.act a) := by
  -- Nothing but a request binds a topic.
  have hearly {l' : Ledger κ} (h : OffBy bytes aliases l') : OffBy (bytes + 0) (aliases + 0) l' := by
    simpa using h
  cases a with
  | grant key maximum => exact hearly (h.grant key maximum)
  | get key number => exact hearly h
  | finish key => exact hearly (h.finish key)
  | drop key => exact hearly (h.drop key)
  | resolve key topic number => exact h.resolve key topic number

theorem offBy_after (softLimit hardLimit : Int) (acts : List (Act κ)) :
    let start : Ledger κ := { account := { softLimit, hardLimit } }
    OffBy (LateBinding.total LateBinding.bytes (start.lateBindings acts))
      (LateBinding.total LateBinding.count (start.lateBindings acts)) (start.after acts) := by
  intro start
  induction acts using List.reverseRecOn with
  | nil => exact ⟨List.nodup_nil, List.forall_mem_nil _, rfl, rfl⟩
  | append_singleton acts a ih =>
    rw [lateBindings_concat, after_concat, LateBinding.total_append, LateBinding.total_append,
      LateBinding.total_toList, LateBinding.total_toList]
    exact ih.act a

/-- After any acts on tables that share a new account, the account says what the tables hold that are neither
finished nor dropped, and beyond that what was charged, less what was released, for topics that were bound on
finished tables. So as long as no topic is bound on a finished table, the account is exact and never negative,
and comes back to zero once every table has been finished or dropped. -/
theorem account_off_by_late_bindings (softLimit hardLimit : Int) (acts : List (Act κ)) :
    let start : Ledger κ := { account := { softLimit, hardLimit } }
    let l := start.after acts
    let late := start.lateBindings acts
    l.account.committed = counter (l.heldBytes + LateBinding.total LateBinding.bytes late) ∧
      l.account.count = counter (l.heldCount + LateBinding.total LateBinding.count late) ∧
      (late = [] →
        (l.heldBytes < 2 ^ 63 → l.account.committed = l.heldBytes ∧ l.account.count = l.heldCount ∧
          0 ≤ l.account.committed ∧ 0 ≤ l.account.count) ∧
        ((∀ e ∈ l.tables, e.2.finished) → l.account.committed = 0 ∧ l.account.count = 0)) := by
  intro start l late
  have h : OffBy (LateBinding.total LateBinding.bytes late) (LateBinding.total LateBinding.count late) l :=
    offBy_after softLimit hardLimit acts
  have hheldBytes : total dueBytes l.tables = l.heldBytes := (total_due_eq h.sizes).1
  have hheldCount : total dueCount l.tables = l.heldCount := (total_due_eq h.sizes).2
  obtain ⟨hnonneg, hle⟩ := total_due_nonneg l.tables
  have hbytes : l.account.bytes = l.heldBytes + LateBinding.total LateBinding.bytes late :=
    h.bytes.trans (congrArg (· + _) hheldBytes)
  have hcount : l.account.aliases = l.heldCount + LateBinding.total LateBinding.count late :=
    h.aliases.trans (congrArg (· + _) hheldCount)
  refine ⟨congrArg counter hbytes, congrArg counter hcount, fun hearly => ?_⟩
  rw [hearly] at hbytes hcount
  have hbytes : l.account.bytes = l.heldBytes := hbytes.trans (Int.add_zero _)
  have hcount : l.account.aliases = l.heldCount := hcount.trans (Int.add_zero _)
  rw [← hbytes, ← hcount]
  refine ⟨fun hlt => ?_, fun hends => ?_⟩
  · have hcommitted : l.account.committed = l.account.bytes := Roster.counter_of_lt (by omega) hlt
    have hcounted : l.account.count = l.account.aliases := Roster.counter_of_lt (by omega) (by omega)
    exact ⟨hcommitted, hcounted, by omega, by omega⟩
  -- Finished tables hold nothing that counts, whatever is in their slots.
  · have hnone : (l.tables.filter fun e => !e.2.finished) = [] :=
      List.filter_eq_nil_iff.2 fun e he => by simp [hends e he]
    unfold heldBytes at hbytes
    unfold heldCount at hcount
    rw [hnone] at hbytes hcount
    exact ⟨congrArg counter hbytes, congrArg counter hcount⟩

/-- Three tables: one is finished twice and still asked, one replaces a topic before it is dropped, and the last
gives way to a table under its own key. -/
theorem finished_tables_settle :
    let start : Ledger Nat := { account := { softLimit := 10000, hardLimit := 20000 } }
    let acts : List (Act Nat) :=
      [.grant 0 3, .grant 1 2, .resolve 0 "news" (some 1), .resolve 1 "weather" (some 2), .grant 2 5,
        .resolve 0 "sport" (some 1), .finish 0, .resolve 0 "" (some 1), .get 0 1, .resolve 1 "tide" (some 2),
        .finish 0, .resolve 2 "late" (some 5), .grant 2 4, .drop 1, .finish 2]
    ((start.after (acts.take 10)).heldBytes = 74 ∧ (start.after (acts.take 10)).account.committed = 74) ∧
      start.lateBindings acts = [] ∧ (∀ e ∈ (start.after acts).tables, e.2.finished) ∧
      (start.after acts).account.committed = 0 ∧ (start.after acts).account.count = 0 := by
  intro start acts
  have hearly : start.lateBindings acts = [] := by decide +kernel
  have hends : ∀ e ∈ (start.after acts).tables, e.2.finished := by decide +kernel
  have hbefore := account_off_by_late_bindings 10000 20000 (acts.take 10)
  have hheld : (start.after (acts.take 10)).heldBytes = 74 := by decide +kernel
  have hcommitted := ((hbefore.2.2 (by decide +kernel)).1 (by decide +kernel)).1
  exact ⟨⟨hheld, hcommitted.trans hheld⟩, hearly, hends,
    ((account_off_by_late_bindings 10000 20000 acts).2.2 hearly).2 hends⟩

/-- A topic that is bound on a finished table stays charged when the table is dropped; and it leaves the account
negative if it takes the place of a longer one, which has been given back already. -/
theorem late_bindings_never_settled :
    let start : Ledger Nat := { account := { softLimit := 10000, hardLimit := 20000 } }
    let dropped := start.after [.grant 0 1, .finish 0, .resolve 0 "t" (some 1), .drop 0]
    let finished := start.after [.grant 0 1, .resolve 0 "news" (some 1), .finish 0, .resolve 0 "t" (some 1)]
    (dropped.tables = [] ∧ dropped.account.committed = 40 ∧ dropped.account.count = 1) ∧
      ((∀ e ∈ finished.tables, e.2.finished) ∧ finished.heldBytes = 0 ∧ finished.account.committed = -6) := by
  decide +kernel

end Ledger
end BrokerHooks.Alias
