import BrokerHooks.Proofs.Alias.Ledger
import BrokerHooks.Proofs.Run.Rosters
import BrokerHooks.Session.Basic
import Mathlib.Algebra.BigOperators.Group.Finset.Piecewise

namespace BrokerHooks

open Alias

namespace Roster

def aliasBytes (r : Roster) : Int :=
  ∑ c ∈ Finset.range r.connections.length, ((r.aliases.table? c).map Table.heldBytes).getD 0

def aliasCount (r : Roster) : Int :=
  ∑ c ∈ Finset.range r.connections.length, ((r.aliases.table? c).map Table.heldCount).getD 0

/-- The account is what the tables hold, and only live connections have tables. -/
structure Balanced (r : Roster) : Prop where
  ledger : r.aliases.Balanced
  holders : ∀ e ∈ r.aliases.tables, r.IsLive e.1

theorem IsLive.lt {r : Roster} {c : Nat} (h : r.IsLive c) : c < r.connections.length := by
  obtain ⟨conn, hc, -⟩ := h
  exact (List.getElem?_eq_some_iff.1 hc).1

/-- What any operation on the roster preserves. -/
theorem Balanced.step {r r' : Roster} (hstep : RosterStep r r') (h : r.Balanced) : r'.Balanced := by
  cases hstep.changes with
  | unaliased hc ha =>
    refine ⟨ha ▸ h.ledger, fun e he => ?_⟩
    exact hc.isLive id (h.holders e (ha ▸ he))
  | resolved c topic number hc ha =>
    obtain ⟨hledger, hkeys⟩ := h.ledger.resolve c topic number
    rw [← ha] at hledger hkeys
    refine ⟨hledger, fun e he => ?_⟩
    have hkey : e.1 ∈ r.aliases.tables.map (·.1) := hkeys ▸ List.mem_map_of_mem he
    obtain ⟨e', he', hee'⟩ := List.mem_map.1 hkey
    exact hee' ▸ hc.isLive id (h.holders e' he')
  | granted maximum hc hlive ha =>
    obtain ⟨hledger, hmem⟩ := h.ledger.grant r.connections.length maximum
    rw [← ha] at hledger hmem
    refine ⟨hledger, fun e he => ?_⟩
    rcases hmem e he with he | he
    · exact hc.isLive id (h.holders e he)
    · exact he ▸ hlive
  | ended c hc ha =>
    obtain ⟨hledger, hmem⟩ := h.ledger.drop c
    rw [← ha] at hledger hmem
    refine ⟨hledger, fun e he => ?_⟩
    obtain ⟨he, hne⟩ := hmem e he
    exact hc.isLive hne (h.holders e he)

theorem sum_tables {tables : List (Nat × Table)} {n : Nat} (hkeys : (tables.map (·.1)).Nodup)
    (hlt : ∀ e ∈ tables, e.1 < n) (f : Table → Int) :
    ∑ c ∈ Finset.range n, ((tables.lookup c).map f).getD 0 = Ledger.total f tables := by
  induction tables with
  | nil => simp
  | cons e tables ih =>
    obtain ⟨k, t⟩ := e
    rw [List.map_cons, List.nodup_cons] at hkeys
    have hk : tables.lookup k = none := by
      refine List.lookup_eq_none_iff.2 fun e he => ?_
      have hne : k ≠ e.1 := fun hke => hkeys.1 (List.mem_map.2 ⟨e, he, hke.symm⟩)
      simpa using hne
    have hsplit : ∀ c, ((((k, t) :: tables).lookup c).map f).getD 0 =
        (if c = k then f t else 0) + ((tables.lookup c).map f).getD 0 := by
      intro c
      by_cases hc : c = k
      · simp [hc, hk]
      · simp [List.lookup_cons, beq_false_of_ne hc, hc]
    -- The key of the first entry is no other's, so its table is counted once.
    simp only [hsplit]
    rw [Finset.sum_add_distrib, ih hkeys.2 fun e he => hlt e (List.mem_cons_of_mem _ he)]
    have hmem : k ∈ Finset.range n := Finset.mem_range.2 (hlt (k, t) (by simp))
    simp [Finset.sum_ite_eq', hmem]

/-- The account is what the connections hold. -/
theorem Balanced.account {r : Roster} (h : r.Balanced) :
    r.aliases.account.bytes = r.aliasBytes ∧ r.aliases.account.aliases = r.aliasCount := by
  have hlt : ∀ e ∈ r.aliases.tables, e.1 < r.connections.length := fun e he => (h.holders e he).lt
  have hheld : ∀ e ∈ r.aliases.tables,
      e.2.heldBytes = slotsBytes e.2.slots ∧ e.2.heldCount = slotsCount e.2.slots :=
    fun e he => held_eq (h.ledger.live e he).2
  constructor
  · rw [h.ledger.bytes, aliasBytes]
    simp only [Ledger.table?]
    rw [sum_tables h.ledger.keys hlt]
    exact Ledger.total_congr fun e he => (hheld e he).1.symm
  · rw [h.ledger.aliases, aliasCount]
    simp only [Ledger.table?]
    rw [sum_tables h.ledger.keys hlt]
    exact Ledger.total_congr fun e he => (hheld e he).2.symm

theorem Balanced.nonneg {r : Roster} (h : r.Balanced) :
    0 ≤ r.aliases.account.aliases ∧ r.aliases.account.aliases ≤ r.aliases.account.bytes := by
  rw [h.ledger.aliases, h.ledger.bytes]
  exact Ledger.total_nonneg_le (fun t => ⟨slotsCount_nonneg t.slots, slotsCount_le t.slots⟩) _

theorem Balanced.none_live {r : Roster} (h : r.Balanced)
    (hends : ∀ conn ∈ r.connections, conn.closed ∨ conn.released) :
    r.aliases.account.bytes = 0 ∧ r.aliases.account.aliases = 0 := by
  have hnone : r.aliases.tables = [] := by
    refine List.eq_nil_iff_forall_not_mem.2 fun e he => ?_
    obtain ⟨conn, hconn, hclosed, hreleased⟩ := h.holders e he
    have := hends conn (List.mem_of_getElem? hconn)
    simp [hclosed, hreleased] at this
  rw [h.ledger.bytes, h.ledger.aliases, hnone]
  exact ⟨rfl, rfl⟩

theorem counter_of_lt {n : Int} (h0 : 0 ≤ n) (h : n < 2 ^ 63) : counter n = n := by
  have hsize : (UInt64.size : Int) = 2 ^ 64 := rfl
  refine Int.bmod_eq_of_le_mul_two ?_ ?_ <;> omega

end Roster

namespace Broker

theorem balanced_play (config : Config) (metered : Bool) (ms : List Move) :
    ((ofConfig config metered).play ms).roster.Balanced := by
  refine play_roster (fun _ _ => Roster.Balanced.step) ⟨⟨?_, ?_, ?_, ?_⟩, ?_⟩ ms <;> simp [ofConfig]

/-- In every run the bytes and the aliases committed are what the connections hold that still have a
table, as long as that fits a 64-bit counter, and nothing once all connections are closed or released. -/
theorem committed_eq_held (config : Config) (metered : Bool) (ms : List Move) :
    let r := ((ofConfig config metered).play ms).roster
    let a := r.aliases.account
    (r.aliasBytes < 2 ^ 63 →
        a.committed = r.aliasBytes ∧ a.count = r.aliasCount ∧ 0 ≤ a.committed ∧ 0 ≤ a.count) ∧
      ((∀ conn ∈ r.connections, conn.closed ∨ conn.released) → a.committed = 0 ∧ a.count = 0) := by
  intro r a
  have h : r.Balanced := balanced_play config metered ms
  obtain ⟨hbytes, hcount⟩ : a.bytes = r.aliasBytes ∧ a.aliases = r.aliasCount := h.account
  obtain ⟨hnonneg, hle⟩ : 0 ≤ a.aliases ∧ a.aliases ≤ a.bytes := h.nonneg
  constructor
  · intro hlt
    rw [← hbytes] at hlt
    -- A total that fits the counter is what the counter reads.
    have hcommitted : a.committed = a.bytes := Roster.counter_of_lt (by omega) hlt
    have hcounted : a.count = a.aliases := Roster.counter_of_lt hnonneg (Int.lt_of_le_of_lt hle hlt)
    rw [hcommitted, hcounted, hbytes, hcount]
    exact ⟨rfl, rfl, by omega, by omega⟩
  · intro hends
    obtain ⟨hbytes, hcount⟩ := h.none_live hends
    unfold Account.committed Account.count
    rw [hbytes, hcount]
    exact ⟨rfl, rfl⟩

/-- One connection replaces a topic, another fills its table and is closed. -/
theorem committed_of_replaced_alias :
    let r := ((ofConfig {} true).play [.openConnection "reader" .v5 (some 2),
      .perform { connection := 0, turn := 0 } (.resolve "news" (some 1)),
      .openConnection "writer" .v5 (some 1),
      .perform { connection := 1, turn := 0 } (.resolve "news" (some 1)),
      .perform { connection := 0, turn := 0 } (.resolve "sports" (some 1)),
      .perform { connection := 1, turn := 0 } (.close none)]).roster
    r.aliasBytes < 2 ^ 63 ∧ r.aliases.account.committed = 58 ∧ r.aliases.account.count = 1 := by
  intro r
  have hlt : r.aliasBytes < 2 ^ 63 := by decide
  obtain ⟨hcommitted, hcount, -⟩ := (committed_eq_held {} true _).1 hlt
  have hbytes : r.aliasBytes = 58 := by decide
  have hbound : r.aliasCount = 1 := by decide
  exact ⟨hlt, hcommitted.trans hbytes, hcount.trans hbound⟩

end Broker
end BrokerHooks
