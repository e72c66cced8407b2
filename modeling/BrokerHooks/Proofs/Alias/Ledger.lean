import BrokerHooks.Proofs.Alias.Table

namespace BrokerHooks.Alias

variable {κ : Type} [DecidableEq κ]

theorem lookup_split {β : Type} {es : List (κ × β)} {k : κ} {x : β} (hkeys : (es.map (·.1)).Nodup)
    (h : es.lookup k = some x) :
    ∃ before after, es = before ++ (k, x) :: after ∧ ∀ e ∈ before ++ after, e.1 ≠ k := by
  induction es with
  | nil => cases h
  | cons e es ih =>
    obtain ⟨k', x'⟩ := e
    rw [List.map_cons, List.nodup_cons] at hkeys
    obtain ⟨hnew, hkeys⟩ := hkeys
    by_cases hk : k = k'
    · subst hk
      obtain rfl : x' = x := by simpa using h
      refine ⟨[], es, rfl, fun e he hek => hnew ?_⟩
      exact List.mem_map.2 ⟨e, he, hek⟩
    · rw [List.lookup_cons, beq_false_of_ne hk] at h
      obtain ⟨before, after, rfl, hne⟩ := ih hkeys h
      refine ⟨(k', x') :: before, after, rfl, fun e he => ?_⟩
      rcases List.mem_cons.1 he with rfl | he
      · exact fun h => hk h.symm
      · exact hne e he

/-- A topic that is bound on a finished table, and what its alias stood for before. -/
structure LateBinding where
  topic : String
  previous : Option String
deriving DecidableEq, Repr

namespace LateBinding

/-- What the binding charges, less what it releases. -/
def bytes (x : LateBinding) : Int := topicBytes x.topic - boundBytes x.previous

def count (x : LateBinding) : Int := 1 - boundCount x.previous

end LateBinding

namespace Ledger

def total (f : Table → Int) (es : List (κ × Table)) : Int := es.foldr (fun e n => f e.2 + n) 0

omit [DecidableEq κ] in
@[simp] theorem total_nil (f : Table → Int) : total f ([] : List (κ × Table)) = 0 := rfl

omit [DecidableEq κ] in
@[simp] theorem total_cons (f : Table → Int) (e : κ × Table) (es : List (κ × Table)) :
    total f (e :: es) = f e.2 + total f es := rfl

omit [DecidableEq κ] in
@[simp] theorem total_append (f : Table → Int) (es es' : List (κ × Table)) :
    total f (es ++ es') = total f es + total f es' := by
  induction es with
  | nil => simp
  | cons e es ih =>
    rw [List.cons_append, total_cons, total_cons, ih]
    omega

omit [DecidableEq κ] in
theorem total_congr {f g : Table → Int} {es : List (κ × Table)} (h : ∀ e ∈ es, f e.2 = g e.2) :
    total f es = total g es := by
  induction es with
  | nil => rfl
  | cons e es ih =>
    rw [total_cons, total_cons, h e (by simp), ih fun e' he => h e' (by simp [he])]

omit [DecidableEq κ] in
theorem total_nonneg_le {f g : Table → Int} (h : ∀ t, 0 ≤ f t ∧ f t ≤ g t) (es : List (κ × Table)) :
    0 ≤ total f es ∧ total f es ≤ total g es := by
  induction es with
  | nil => exact ⟨Int.le_refl _, Int.le_refl _⟩
  | cons e es ih =>
    obtain ⟨hnonneg, hle⟩ := h e.2
    rw [total_cons, total_cons]
    omega

/-- What a table gives back when it is finished: nothing, if it has settled its account already. -/
def dueBytes (t : Table) : Int := if t.finished then 0 else slotsBytes t.slots

def dueCount (t : Table) : Int := if t.finished then 0 else slotsCount t.slots

@[simp] theorem dueBytes_finished (t : Table) : dueBytes { t with finished := true } = 0 := if_pos rfl

@[simp] theorem dueCount_finished (t : Table) : dueCount { t with finished := true } = 0 := if_pos rfl

/-- The account is what the tables have yet to give back, and so many bytes and aliases beyond that. -/
structure OffBy (bytes aliases : Int) (l : Ledger κ) : Prop where
  keys : (l.tables.map (·.1)).Nodup
  sizes : ∀ e ∈ l.tables, e.2.slots.length < UInt16.size
  bytes : l.account.bytes = total dueBytes l.tables + bytes
  aliases : l.account.aliases = total dueCount l.tables + aliases

theorem finish_account (t : Table) (a : Account) :
    (t.finish a).1.bytes = a.bytes - dueBytes t ∧ (t.finish a).1.aliases = a.aliases - dueCount t := by
  unfold Table.finish dueBytes dueCount
  split
  · exact ⟨(Int.sub_zero _).symm, (Int.sub_zero _).symm⟩
  · exact ⟨rfl, rfl⟩

theorem entry_split {l : Ledger κ} {key : κ} {t : Table} (hkeys : (l.tables.map (·.1)).Nodup)
    (hkey : l.table? key = some t) : ∃ before after, l.tables = before ++ (key, t) :: after ∧
      l.tables.filter (·.1 ≠ key) = before ++ after ∧
      ∀ t', (l.put key t').tables = before ++ (key, t') :: after := by
  obtain ⟨before, after, hsplit, hne⟩ := lookup_split hkeys hkey
  refine ⟨before, after, hsplit, ?_, fun t' => ?_⟩
  · have hself : (before ++ after).filter (·.1 ≠ key) = before ++ after :=
      List.filter_eq_self.2 fun e he => by simpa using hne e he
    rw [hsplit, List.filter_append, List.filter_cons_of_neg (by simp), ← List.filter_append, hself]
  · have hself (es : List (κ × Table)) (hes : ∀ e ∈ es, e.1 ≠ key) :
        es.map (fun e => if e.1 = key then (key, t') else e) = es := by
      rw [List.map_congr_left fun e he => if_neg (hes e he), List.map_id']
    have hbefore := hself before fun e he => hne e (List.mem_append_left _ he)
    have hafter := hself after fun e he => hne e (List.mem_append_right _ he)
    simp only [Ledger.put]
    rw [hsplit, List.map_append, List.map_cons, if_pos rfl, hbefore, hafter]

theorem mem_of_table? {l : Ledger κ} {key : κ} {t : Table} (h : l.table? key = some t) :
    (key, t) ∈ l.tables := by
  obtain ⟨before, after, hsplit, -⟩ := List.lookup_eq_some_iff.1 h
  rw [hsplit]
  simp

theorem mem_drop {l : Ledger κ} {key : κ} {e : κ × Table} (h : e ∈ (l.drop key).tables) :
    e ∈ l.tables ∧ e.1 ≠ key := by
  unfold Ledger.drop at h
  cases hkey : l.table? key with
  | none =>
    rw [hkey] at h
    refine ⟨h, fun hek => ?_⟩
    have := List.lookup_eq_none_iff.1 hkey e h
    simp [hek] at this
  | some t =>
    rw [hkey] at h
    simpa using h

theorem keys_put (l : Ledger κ) (key : κ) (t : Table) :
    (l.put key t).tables.map (·.1) = l.tables.map (·.1) := by
  unfold Ledger.put
  rw [List.map_map]
  refine List.map_congr_left fun e _ => ?_
  by_cases he : e.1 = key <;> simp [he]

theorem mem_put {l : Ledger κ} {key : κ} {t : Table} {e : κ × Table} (h : e ∈ (l.put key t).tables) :
    e ∈ l.tables ∨ e = (key, t) := by
  obtain ⟨e', he', rfl⟩ := List.mem_map.1 h
  split
  · exact .inr rfl
  · exact .inl he'

theorem keys_resolve (l : Ledger κ) (key : κ) (topic : String) (number : Option UInt16) :
    (l.resolve? key topic number).2.tables.map (·.1) = l.tables.map (·.1) := by
  unfold Ledger.resolve?
  cases l.table? key with
  | none => rfl
  | some t => exact keys_put _ key _

theorem mem_resolve {l : Ledger κ} {key : κ} {topic : String} {number : Option UInt16} {e : κ × Table}
    (h : e ∈ (l.resolve? key topic number).2.tables) : ∃ e' ∈ l.tables, e'.2.finished = e.2.finished := by
  unfold Ledger.resolve? at h
  cases hkey : l.table? key with
  | none =>
    rw [hkey] at h
    exact ⟨e, h, rfl⟩
  | some t =>
    rw [hkey] at h
    rcases mem_put h with he | rfl
    · exact ⟨e, he, rfl⟩
    · exact ⟨(key, t), mem_of_table? hkey, (t.resolve_finished l.account topic number).symm⟩

theorem mem_grant {l : Ledger κ} {key : κ} {maximum : UInt16} {e : κ × Table}
    (h : e ∈ (l.grant key maximum).2.tables) : e ∈ l.tables ∨ e.1 = key ∧ e.2.finished = false := by
  unfold Ledger.grant Table.grant? at h
  by_cases hrefused : maximum = 0 ∨ !l.account.available
  · rw [if_pos hrefused] at h
    exact .inl h
  · rw [if_neg hrefused] at h
    rcases List.mem_cons.1 h with rfl | he
    · exact .inr ⟨rfl, rfl⟩
    · exact .inl (mem_drop he).1

def lateBinding? (l : Ledger κ) (key : κ) (topic : String) (number : Option UInt16) : Option LateBinding :=
  match l.table? key with
  | some t =>
    if t.finished then (binding? t.maximum topic number).map fun n => { topic, previous := t.get? n } else none
  | none => none

def lateBytes (l : Ledger κ) (key : κ) (topic : String) (number : Option UInt16) : Int :=
  (l.lateBinding? key topic number).elim 0 LateBinding.bytes

def lateCount (l : Ledger κ) (key : κ) (topic : String) (number : Option UInt16) : Int :=
  (l.lateBinding? key topic number).elim 0 LateBinding.count

theorem late_eq {l : Ledger κ} {key : κ} {t : Table} (hkey : l.table? key = some t) (topic : String)
    (number : Option UInt16) :
    l.lateBytes key topic number =
        (if t.finished then (t.resolve l.account topic number).2.1.bytes - l.account.bytes else 0) ∧
      l.lateCount key topic number =
        if t.finished then (t.resolve l.account topic number).2.1.aliases - l.account.aliases else 0 := by
  obtain ⟨hcharged, hcounted⟩ := t.resolve_charges l.account topic number
  unfold lateBytes lateCount lateBinding?
  rw [hkey, hcharged, hcounted]
  cases hfinished : t.finished with
  | false => simp [hfinished]
  | true =>
    simp only [hfinished, if_true]
    cases binding? t.maximum topic number <;> exact ⟨rfl, rfl⟩

namespace OffBy

variable {l : Ledger κ} {bytes aliases : Int}

/-- A table that is dropped gives back what it has not given back yet. -/
theorem drop (h : OffBy bytes aliases l) (key : κ) : OffBy bytes aliases (l.drop key) := by
  unfold Ledger.drop
  cases hkey : l.table? key with
  | none => exact h
  | some t =>
    obtain ⟨before, after, hsplit, hfilter, -⟩ := entry_split h.keys hkey
    obtain ⟨hgiven, hreleased⟩ := finish_account t l.account
    have hbytes := h.bytes
    have haliases := h.aliases
    rw [hsplit] at hbytes haliases
    simp only [total_append, total_cons] at hbytes haliases
    refine ⟨h.keys.sublist (List.filter_sublist.map _), fun e he => h.sizes e (List.mem_filter.1 he).1, ?_, ?_⟩
    · rw [hgiven, hfilter, total_append]
      omega
    · rw [hreleased, hfilter, total_append]
      omega

theorem put (h : OffBy bytes aliases l) {key : κ} {t : Table} (hkey : l.table? key = some t) (t' : Table)
    (hlength : t'.slots.length = t.slots.length) {a : Account} {bytes' aliases' : Int}
    (hbytes : a.bytes - l.account.bytes = dueBytes t' - dueBytes t + (bytes' - bytes))
    (haliases : a.aliases - l.account.aliases = dueCount t' - dueCount t + (aliases' - aliases)) :
    OffBy bytes' aliases' (Ledger.put { l with account := a } key t') := by
  -- The totals before and after differ in this one entry.
  obtain ⟨before, after, hsplit, -, hput⟩ := entry_split h.keys hkey
  have hsame : (Ledger.put { l with account := a } key t').tables = before ++ (key, t') :: after := hput t'
  have hoff := h.bytes
  have hoff' := h.aliases
  rw [hsplit] at hoff hoff'
  simp only [total_append, total_cons] at hoff hoff'
  refine ⟨?_, fun e he => ?_, ?_, ?_⟩
  · rw [keys_put]
    exact h.keys
  · rcases mem_put he with he | rfl
    · exact h.sizes e he
    · rw [hlength]
      exact h.sizes (key, t) (mem_of_table? hkey)
  · rw [hsame]
    simp only [Ledger.put, total_append, total_cons]
    omega
  · rw [hsame]
    simp only [Ledger.put, total_append, total_cons]
    omega

theorem grant (h : OffBy bytes aliases l) (key : κ) (maximum : UInt16) :
    OffBy bytes aliases (l.grant key maximum).2 := by
  unfold Ledger.grant Table.grant?
  by_cases hrefused : maximum = 0 ∨ !l.account.available
  · rw [if_pos hrefused]
    exact h
  · rw [if_neg hrefused]
    -- The account is off by the new slots until their table is in the ledger.
    have hcharged : OffBy (bytes + 4 * maximum.toNat) aliases
        { l with account := l.account.chargeSlots maximum.toNat } :=
      ⟨h.keys, h.sizes, by simp [Account.chargeSlots, slotBytes, h.bytes]; omega, h.aliases⟩
    have hrest := hcharged.drop key
    have hbytes := hrest.bytes
    have haliases := hrest.aliases
    refine ⟨List.nodup_cons.2 ⟨fun hmem => ?_, hrest.keys⟩, fun e he => ?_, ?_, ?_⟩
    · obtain ⟨e, he, hek⟩ := List.mem_map.1 hmem
      exact (mem_drop he).2 hek
    · rcases List.mem_cons.1 he with rfl | he
      · simpa using maximum.toNat_lt
      · exact hrest.sizes e he
    · simp [dueBytes]
      omega
    · simp [dueCount]
      omega

theorem finish (h : OffBy bytes aliases l) (key : κ) : OffBy bytes aliases (l.finish key) := by
  unfold Ledger.finish
  cases hkey : l.table? key with
  | none => exact h
  | some t =>
    obtain ⟨hgiven, hreleased⟩ := finish_account t l.account
    have hput : OffBy bytes aliases
        (Ledger.put { l with account := (t.finish l.account).1 } key (t.finish l.account).2) := by
      rw [t.finish_snd]
      refine h.put hkey { t with finished := true } rfl ?_ ?_
      · rw [hgiven, dueBytes_finished]
        omega
      · rw [hreleased, dueCount_finished]
        omega
    exact hput

/-- The account follows what a request does to a table, but a finished table gives nothing back. -/
theorem resolve (h : OffBy bytes aliases l) (key : κ) (topic : String) (number : Option UInt16) :
    OffBy (bytes + l.lateBytes key topic number) (aliases + l.lateCount key topic number)
      (l.resolve? key topic number).2 := by
  unfold Ledger.resolve?
  cases hkey : l.table? key with
  | none => simpa [lateBytes, lateCount, lateBinding?, hkey] using h
  | some t =>
    obtain ⟨hlate, hlateCount⟩ := late_eq hkey topic number
    have hsettles := t.resolve_settles (h.sizes (key, t) (mem_of_table? hkey)) l.account topic number
    have hbytes := hsettles.bytes
    have haliases := hsettles.aliases
    have hput : OffBy (bytes + l.lateBytes key topic number) (aliases + l.lateCount key topic number)
        (Ledger.put { l with account := (t.resolve l.account topic number).2.1 } key
          (t.resolve l.account topic number).2.2) := by
      refine h.put hkey _ hsettles.length ?_ ?_
      · rw [hlate, dueBytes, dueBytes, hsettles.finished]
        split <;> omega
      · rw [hlateCount, dueCount, dueCount, hsettles.finished]
        split <;> omega
    exact hput

end OffBy

/-- The account is what the tables hold, and none of them has settled it already. -/
structure Balanced (l : Ledger κ) : Prop where
  keys : (l.tables.map (·.1)).Nodup
  live : ∀ e ∈ l.tables, e.2.finished = false ∧ e.2.slots.length < UInt16.size
  bytes : l.account.bytes = total (fun t => slotsBytes t.slots) l.tables
  aliases : l.account.aliases = total (fun t => slotsCount t.slots) l.tables

omit [DecidableEq κ] in
/-- A table that is not finished has yet to give back all that it holds. -/
theorem total_due {es : List (κ × Table)} (h : ∀ e ∈ es, e.2.finished = false) :
    total dueBytes es = total (fun t => slotsBytes t.slots) es ∧
      total dueCount es = total (fun t => slotsCount t.slots) es := by
  constructor <;> refine total_congr fun e he => ?_
  · simp [dueBytes, h e he]
  · simp [dueCount, h e he]

omit [DecidableEq κ] in
theorem OffBy.balanced {l : Ledger κ} (h : OffBy 0 0 l) (hlive : ∀ e ∈ l.tables, e.2.finished = false) :
    l.Balanced where
  keys := h.keys
  live e he := ⟨hlive e he, h.sizes e he⟩
  bytes := by rw [h.bytes, (total_due hlive).1, Int.add_zero]
  aliases := by rw [h.aliases, (total_due hlive).2, Int.add_zero]

namespace Balanced

variable {l : Ledger κ}

omit [DecidableEq κ] in
theorem offBy (h : l.Balanced) : OffBy 0 0 l :=
  have hlive : ∀ e ∈ l.tables, e.2.finished = false := fun e he => (h.live e he).1
  { keys := h.keys
    sizes := fun e he => (h.live e he).2
    bytes := by rw [h.bytes, (total_due hlive).1, Int.add_zero]
    aliases := by rw [h.aliases, (total_due hlive).2, Int.add_zero] }

theorem drop (h : l.Balanced) (key : κ) :
    (l.drop key).Balanced ∧ ∀ e ∈ (l.drop key).tables, e ∈ l.tables ∧ e.1 ≠ key :=
  ⟨(h.offBy.drop key).balanced fun e he => (h.live e (mem_drop he).1).1, fun _ => mem_drop⟩

/-- Resolving charges a table for what its slots come to hold. -/
theorem resolve (h : l.Balanced) (key : κ) (topic : String) (number : Option UInt16) :
    (l.resolve? key topic number).2.Balanced ∧
      (l.resolve? key topic number).2.tables.map (·.1) = l.tables.map (·.1) := by
  have hearly : l.lateBinding? key topic number = none := by
    unfold lateBinding?
    cases hkey : l.table? key with
    | none => rfl
    | some t =>
      have hopen : t.finished = false := (h.live (key, t) (mem_of_table? hkey)).1
      simp [hopen]
  have hresolve := h.offBy.resolve key topic number
  simp only [lateBytes, lateCount, hearly, Option.elim_none, Int.add_zero] at hresolve
  refine ⟨hresolve.balanced fun e he => ?_, keys_resolve ..⟩
  obtain ⟨e', he', hsame⟩ := mem_resolve he
  exact hsame ▸ (h.live e' he').1

theorem grant (h : l.Balanced) (key : κ) (maximum : UInt16) :
    (l.grant key maximum).2.Balanced ∧
      ∀ e ∈ (l.grant key maximum).2.tables, e ∈ l.tables ∨ e.1 = key := by
  refine ⟨(h.offBy.grant key maximum).balanced fun e he => ?_, fun e he => (mem_grant he).imp_right (·.1)⟩
  rcases mem_grant he with he | ⟨-, hfinished⟩
  · exact (h.live e he).1
  · exact hfinished

end Balanced
end Ledger
end BrokerHooks.Alias
