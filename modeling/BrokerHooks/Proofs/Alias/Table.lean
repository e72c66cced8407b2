import BrokerHooks.Alias.Ledger
import Mathlib.Data.List.Basic

namespace BrokerHooks.Alias

def Table.topics (t : Table) : List String :=
  (List.range t.maximum.toNat).filterMap fun i => t.get? (UInt16.ofNat (i + 1))

def Table.heldBytes (t : Table) : Int :=
  4 * t.maximum.toNat + t.topics.foldr (fun topic n => 38 + 2 * (topic.utf8ByteSize : Int) + n) 0

def Table.heldCount (t : Table) : Int := t.topics.length

def boundBytes (slot : Option String) : Int := slot.elim 0 topicBytes

def boundCount (slot : Option String) : Int := slot.elim 0 fun _ => 1

@[simp] theorem slotsBytes_nil : slotsBytes [] = 0 := rfl

@[simp] theorem slotsCount_nil : slotsCount [] = 0 := rfl

@[simp] theorem slotsBytes_cons (slot : Option String) (slots : List (Option String)) :
    slotsBytes (slot :: slots) = 4 + boundBytes slot + slotsBytes slots := by
  cases slot <;> simp [slotsBytes, boundBytes, slotBytes] <;> omega

@[simp] theorem slotsCount_cons (slot : Option String) (slots : List (Option String)) :
    slotsCount (slot :: slots) = boundCount slot + slotsCount slots := by
  cases slot <;> simp [slotsCount, boundCount]
  omega

@[simp] theorem slotsBytes_append (slots slots' : List (Option String)) :
    slotsBytes (slots ++ slots') = slotsBytes slots + slotsBytes slots' := by
  induction slots with
  | nil => simp
  | cons slot slots ih =>
    rw [List.cons_append, slotsBytes_cons, slotsBytes_cons, ih]
    omega

@[simp] theorem slotsCount_append (slots slots' : List (Option String)) :
    slotsCount (slots ++ slots') = slotsCount slots + slotsCount slots' := by
  induction slots with
  | nil => simp
  | cons slot slots ih =>
    rw [List.cons_append, slotsCount_cons, slotsCount_cons, ih]
    omega

@[simp] theorem slotsBytes_replicate (n : Nat) : slotsBytes (List.replicate n none) = 4 * n := by
  induction n with
  | zero => rfl
  | succ n ih =>
    rw [List.replicate_succ, slotsBytes_cons, ih]
    simp [boundBytes]
    omega

@[simp] theorem slotsCount_replicate (n : Nat) : slotsCount (List.replicate n none) = 0 := by
  induction n with
  | zero => rfl
  | succ n ih =>
    rw [List.replicate_succ, slotsCount_cons, ih]
    rfl

theorem slotsCount_nonneg (slots : List (Option String)) : 0 ≤ slotsCount slots :=
  Int.natCast_nonneg _

/-- An alias costs more than a byte. -/
theorem slotsCount_le (slots : List (Option String)) : slotsCount slots ≤ slotsBytes slots := by
  induction slots with
  | nil => simp
  | cons slot slots ih =>
    rw [slotsCount_cons, slotsBytes_cons]
    cases slot <;> simp [boundBytes, boundCount, topicBytes] <;> omega

theorem slots_set {slots : List (Option String)} {k : Nat} {old : Option String}
    (h : slots[k]? = some old) (topic : String) :
    slotsBytes (slots.set k (some topic)) = slotsBytes slots - boundBytes old + topicBytes topic ∧
      slotsCount (slots.set k (some topic)) = slotsCount slots - boundCount old + 1 := by
  obtain ⟨hk, rfl⟩ := List.getElem?_eq_some_iff.1 h
  have hslots : slots = slots.take k ++ slots[k] :: slots.drop (k + 1) := by simp
  have hset : slots.set k (some topic) = slots.take k ++ some topic :: slots.drop (k + 1) :=
    List.set_eq_take_append_cons_drop.trans (if_pos hk)
  have hbytes := congrArg slotsBytes hslots
  have hcount := congrArg slotsCount hslots
  rw [slotsBytes_append, slotsBytes_cons] at hbytes
  rw [slotsCount_append, slotsCount_cons] at hcount
  rw [hset, slotsBytes_append, slotsBytes_cons, slotsCount_append, slotsCount_cons]
  simp only [boundBytes, boundCount, Option.elim_some] at *
  constructor <;> omega

theorem toNat_maximum {t : Table} (h : t.slots.length < UInt16.size) :
    t.maximum.toNat = t.slots.length := UInt16.toNat_ofNat_of_lt h

theorem topics_eq {t : Table} (h : t.slots.length < UInt16.size) : t.topics = t.slots.filterMap id := by
  have hget : ∀ i ∈ List.range t.slots.length,
      t.get? (UInt16.ofNat (i + 1)) = (t.slots[i]?).join := by
    intro i hi
    have hi : i + 1 < UInt16.size := Nat.lt_of_le_of_lt (List.mem_range.1 hi) h
    -- Aliases are 16 bits wide, and no table has more slots than that.
    have hnum : (UInt16.ofNat (i + 1)).toNat = i + 1 := UInt16.toNat_ofNat_of_lt hi
    have hne : UInt16.ofNat (i + 1) ≠ 0 := by
      intro h0
      rw [h0] at hnum
      simp at hnum
    unfold Table.get?
    rw [if_neg hne, hnum, Nat.add_sub_cancel]
  have hslots : t.slots = (List.range t.slots.length).map fun i => (t.slots[i]?).join := by
    apply List.ext_getElem
    · simp
    · intro i hi _
      simp [hi]
  unfold Table.topics
  rw [toNat_maximum h, List.filterMap_congr hget]
  have htopics := congrArg (List.filterMap id) hslots
  rw [List.filterMap_map] at htopics
  exact htopics.symm

/-- The account counts a table at what the table holds. -/
theorem held_eq {t : Table} (h : t.slots.length < UInt16.size) :
    t.heldBytes = slotsBytes t.slots ∧ t.heldCount = slotsCount t.slots := by
  unfold Table.heldBytes Table.heldCount
  rw [topics_eq h, toNat_maximum h]
  exact ⟨rfl, rfl⟩

/-- The accounts and the tables before and after differ by the same amounts. -/
structure Settles (a a' : Account) (t t' : Table) : Prop where
  bytes : a'.bytes - a.bytes = slotsBytes t'.slots - slotsBytes t.slots
  aliases : a'.aliases - a.aliases = slotsCount t'.slots - slotsCount t.slots
  length : t'.slots.length = t.slots.length
  finished : t'.finished = t.finished

theorem Settles.refl (a : Account) (t : Table) : Settles a a t t where
  bytes := by omega
  aliases := by omega
  length := rfl
  finished := rfl

/-- The alias to which a table of this maximum binds the topic of a request, if it binds it at all. -/
def binding? (maximum : UInt16) (topic : String) (number : Option UInt16) : Option UInt16 :=
  number.filter fun n => topic ≠ "" ∧ n ≠ 0 ∧ n ≤ maximum

theorem binding?_eq_some_iff {maximum : UInt16} {topic : String} {number : Option UInt16} {n : UInt16} :
    binding? maximum topic number = some n ↔ number = some n ∧ topic ≠ "" ∧ n ≠ 0 ∧ n ≤ maximum := by
  unfold binding?
  rw [Option.filter_eq_some_iff, decide_eq_true_eq]

theorem recharge_eq (a : Account) (previous : Option String) (topic : String) :
    Table.recharge a previous topic =
      { a with
        bytes := a.bytes - boundBytes previous + topicBytes topic
        aliases := a.aliases - boundCount previous + 1 } := by
  cases previous with
  | none => simp [Table.recharge, Account.chargeTopic, boundBytes, boundCount]
  | some old => rfl

namespace Table

variable {t : Table} {a : Account} {topic : String} {number : Option UInt16} {n : UInt16}

theorem slot_eq (h : t.slots.length < UInt16.size) (hzero : n ≠ 0) (hmax : n ≤ t.maximum) :
    t.slots[n.toNat - 1]? = some (t.get? n) := by
  have hlt : n.toNat - 1 < t.slots.length := by
    have hle : n.toNat ≤ t.maximum.toNat := UInt16.le_iff_toNat_le.1 hmax
    have hpos : n.toNat ≠ 0 := fun h0 => hzero (UInt16.toNat_inj.1 h0)
    rw [toNat_maximum h] at hle
    omega
  have hslot := List.getElem?_eq_getElem hlt
  unfold get?
  rw [if_neg hzero, hslot]
  rfl

/-- A topic is bound and charged before the hard limit is asked. -/
theorem resolve_of_binding (h : binding? t.maximum topic number = some n) :
    t.resolve a topic number =
      (if (recharge a (t.get? n) topic).exceeded then .error .hardLimitExceeded else .ok topic,
        recharge a (t.get? n) topic, t.bind n topic) := by
  obtain ⟨rfl, htopic, hzero, hmax⟩ := binding?_eq_some_iff.1 h
  have hmax : ¬t.maximum < n := by simpa using hmax
  have htopic : ¬topic.isEmpty := by simpa using htopic
  unfold resolve
  simp only [if_neg hzero, if_neg hmax, if_neg htopic]

/-- Every other request is answered from the table as it is. -/
theorem resolve_of_no_binding (h : binding? t.maximum topic number = none) :
    (t.resolve a topic number).2 = (a, t) := by
  cases number with
  | none => rfl
  | some n =>
    have hnot : ¬(topic ≠ "" ∧ n ≠ 0 ∧ n ≤ t.maximum) := fun hbinds => by
      rw [binding?_eq_some_iff.2 ⟨rfl, hbinds⟩] at h
      cases h
    unfold resolve
    simp only
    split
    · rfl
    split
    · rfl
    split
    · split <;> rfl
    · rename_i hzero hmax htopic
      exact absurd ⟨by simpa using htopic, hzero, by simpa using hmax⟩ hnot

theorem resolve_charges (t : Table) (a : Account) (topic : String) (number : Option UInt16) :
    (t.resolve a topic number).2.1.bytes - a.bytes =
        (binding? t.maximum topic number).elim 0 (fun n => topicBytes topic - boundBytes (t.get? n)) ∧
      (t.resolve a topic number).2.1.aliases - a.aliases =
        (binding? t.maximum topic number).elim 0 fun n => 1 - boundCount (t.get? n) := by
  cases hbinding : binding? t.maximum topic number with
  | none =>
    rw [resolve_of_no_binding hbinding]
    exact ⟨Int.sub_self _, Int.sub_self _⟩
  | some n =>
    rw [resolve_of_binding hbinding, recharge_eq]
    simp only [Option.elim_some]
    constructor <;> omega

theorem resolve_finished (t : Table) (a : Account) (topic : String) (number : Option UInt16) :
    (t.resolve a topic number).2.2.finished = t.finished := by
  cases hbinding : binding? t.maximum topic number with
  | none => rw [resolve_of_no_binding hbinding]
  | some n =>
    rw [resolve_of_binding hbinding]
    rfl

/-- Whatever the answer to a request, the hard limit's refusal included, the account follows the
table. -/
theorem resolve_settles (h : t.slots.length < UInt16.size) (a : Account) (topic : String)
    (number : Option UInt16) : Settles a (t.resolve a topic number).2.1 t (t.resolve a topic number).2.2 := by
  cases hbinding : binding? t.maximum topic number with
  | none =>
    rw [resolve_of_no_binding hbinding]
    exact .refl a t
  | some n =>
    rw [resolve_of_binding hbinding, recharge_eq]
    obtain ⟨-, -, hzero, hmax⟩ := binding?_eq_some_iff.1 hbinding
    obtain ⟨hbytes, hcount⟩ := slots_set (slot_eq h hzero hmax) topic
    refine ⟨?_, ?_, by simp [bind], rfl⟩
    · simp only [bind, hbytes]
      omega
    · simp only [bind, hcount]
      omega

theorem finish_snd (t : Table) (a : Account) : (t.finish a).2 = { t with finished := true } := by
  unfold finish
  split
  · rename_i hfinished
    rw [← hfinished]
  · rfl

end Table
end BrokerHooks.Alias
