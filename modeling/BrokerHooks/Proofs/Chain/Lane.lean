import BrokerHooks.Proofs.Run.Cases

namespace BrokerHooks

def Reported (c : Chain) (es : List Entry) : Prop := ∃ e ∈ es, ∃ r, e.event = .reported c r

theorem Reported.mono {c : Chain} {es es' : List Entry} (h : Reported c es)
    (hsub : ∀ e ∈ es, e ∈ es') : Reported c es' := by
  obtain ⟨e, he, hr⟩ := h
  exact ⟨e, hsub e he, hr⟩

namespace Broker

/-- The row of every lane, and what the journal says about those that stand in it. -/
structure Orderly (b : Broker) : Prop where
  waiting_lt : ∀ c ∈ b.waiting, c.number < b.chains
  waiting_sorted : b.waiting.Pairwise (·.number < ·.number)
  suspended_lt : ∀ s ∈ b.suspended, s.chain.number < b.chains
  suspended_lanes : b.suspended.Pairwise (·.chain.lane ≠ ·.chain.lane)
  ahead : ∀ s ∈ b.suspended, ∀ c ∈ b.waiting, c.lane = s.chain.lane → s.chain.number < c.number
  told_lt : ∀ e ∈ b.journal, ∀ c, e.event.chain? = some c → c.number < b.chains
  told_begun : ∀ e ∈ b.journal, ∀ c, e.event.chain? = some c → c ∉ b.waiting
  reported_ended : ∀ s ∈ b.suspended, ¬Reported s.chain b.journal

/-- The chain `c` is taken out of its lane, where it stood at the head of the row. -/
structure Takes (c : Chain) (b b' : Broker) : Prop where
  orderly : Orderly b'
  lt : c.number < b'.chains
  first : ∀ d ∈ b'.waiting, d.lane = c.lane → c.number < d.number
  free : ∀ s ∈ b'.suspended, s.chain.lane ≠ c.lane
  live : ¬Reported c b'.journal
  journal : b'.journal = b.journal
  waiting : ∀ d ∈ b.waiting, d = c ∨ d ∈ b'.waiting
  suspended : ∀ s ∈ b.suspended, s.chain = c ∨ s ∈ b'.suspended

namespace Orderly

variable {b b' : Broker}

theorem idles (h : Orderly b) (hi : Idles b b') : Orderly b' := by
  obtain ⟨new, hj, hnew⟩ := hi.journal
  have hchains := hi.chains
  have told : ∀ e ∈ b'.journal, ∀ c, e.event.chain? = some c → e ∈ b.journal := by
    intro e he c hc
    rw [hj] at he
    rcases List.mem_append.1 he with he | he
    · exact he
    · rw [hnew e he] at hc
      cases hc
  constructor
  case waiting_lt =>
    rw [hi.waiting]
    exact fun c hc => Nat.lt_of_lt_of_le (h.waiting_lt c hc) hchains
  case waiting_sorted => rw [hi.waiting]; exact h.waiting_sorted
  case suspended_lt =>
    rw [hi.suspended]
    exact fun s hs => Nat.lt_of_lt_of_le (h.suspended_lt s hs) hchains
  case suspended_lanes => rw [hi.suspended]; exact h.suspended_lanes
  case ahead => rw [hi.suspended, hi.waiting]; exact h.ahead
  case told_lt =>
    exact fun e he c hc => Nat.lt_of_lt_of_le (h.told_lt e (told e he c hc) c hc) hchains
  case told_begun =>
    rw [hi.waiting]
    exact fun e he c hc => h.told_begun e (told e he c hc) c hc
  case reported_ended =>
    rw [hi.suspended]
    rintro s hs ⟨e, he, r, heq⟩
    have hc : e.event.chain? = some s.chain := by rw [heq]; rfl
    exact h.reported_ended s hs ⟨e, told e he _ hc, r, heq⟩

theorem submitted (h : Orderly b) (c : Chain) (hn : c.number = b.chains) :
    Orderly { b with chains := b.chains + 1, waiting := b.waiting ++ [c] } := by
  constructor
  case waiting_lt =>
    intro d hd
    rcases List.mem_append.1 hd with hd | hd
    · exact Nat.lt_succ_of_lt (h.waiting_lt d hd)
    · obtain rfl := List.mem_singleton.1 hd
      simp [hn]
  case waiting_sorted =>
    refine List.pairwise_append.2 ⟨h.waiting_sorted, List.pairwise_singleton .., ?_⟩
    intro d hd e he
    obtain rfl := List.mem_singleton.1 he
    exact hn ▸ h.waiting_lt d hd
  case suspended_lt => exact fun s hs => Nat.lt_succ_of_lt (h.suspended_lt s hs)
  case suspended_lanes => exact h.suspended_lanes
  case ahead =>
    intro s hs d hd hlane
    rcases List.mem_append.1 hd with hd | hd
    · exact h.ahead s hs d hd hlane
    · obtain rfl := List.mem_singleton.1 hd
      exact hn ▸ h.suspended_lt s hs
  case told_lt => exact fun e he d hd => Nat.lt_succ_of_lt (h.told_lt e he d hd)
  case told_begun =>
    intro e he d hd hmem
    rcases List.mem_append.1 hmem with hmem | hmem
    · exact h.told_begun e he d hd hmem
    · obtain rfl := List.mem_singleton.1 hmem
      exact Nat.lt_irrefl _ (hn ▸ h.told_lt e he d hd)
  case reported_ended => exact h.reported_ended

theorem takes_waiting {before after : List Chain} (h : Orderly b) (c : Chain)
    (hw : b.waiting = before ++ c :: after) (hfirst : ∀ x ∈ before, x.lane ≠ c.lane)
    (hfree : ∀ s ∈ b.suspended, s.chain.lane ≠ c.lane) :
    Takes c b { b with waiting := before ++ after } := by
  have hmem : ∀ d ∈ before ++ after, d ∈ b.waiting := fun d hd => mem_of_split hw hd
  have hc : c ∈ b.waiting := by simp [hw]
  have hsorted := h.waiting_sorted
  rw [hw] at hsorted
  -- Whatever waits behind `c` came after it, and nothing before it is of its lane.
  have hbehind := (List.pairwise_cons.1 (List.pairwise_append.1 hsorted).2.1).1
  constructor
  case orderly =>
    exact { h with
      waiting_lt := fun d hd => h.waiting_lt d (hmem d hd)
      waiting_sorted := hsorted.sublist (by simp)
      ahead := fun s hs d hd => h.ahead s hs d (hmem d hd)
      told_begun := fun e he d hd hd' => h.told_begun e he d hd (hmem d hd') }
  case lt => exact h.waiting_lt c hc
  case first =>
    intro d hd hlane
    rcases List.mem_append.1 hd with hd | hd
    · exact absurd hlane (hfirst d hd)
    · exact hbehind d hd
  case free => exact hfree
  case live =>
    rintro ⟨e, he, r, heq⟩
    exact h.told_begun e he c (by rw [heq]; rfl) hc
  case journal => rfl
  case waiting =>
    intro d hd
    rw [hw] at hd
    simpa [or_left_comm] using hd
  case suspended => exact fun s hs => .inr hs

theorem takes_suspended {before after : List Suspended} (h : Orderly b) (s : Suspended)
    (hs : b.suspended = before ++ s :: after) :
    Takes s.chain b { b with suspended := before ++ after } := by
  have hmem : ∀ s' ∈ before ++ after, s' ∈ b.suspended := fun s' hs' => mem_of_split hs hs'
  have hmem_s : s ∈ b.suspended := by simp [hs]
  have hlanes := h.suspended_lanes
  rw [hs] at hlanes
  constructor
  case orderly =>
    exact { h with
      suspended_lt := fun s' hs' => h.suspended_lt s' (hmem s' hs')
      suspended_lanes := hlanes.sublist (by simp)
      ahead := fun s' hs' => h.ahead s' (hmem s' hs')
      reported_ended := fun s' hs' => h.reported_ended s' (hmem s' hs') }
  case lt => exact h.suspended_lt s hmem_s
  case first => exact h.ahead s hmem_s
  case free =>
    -- No two suspended chains share a lane, so without this one its lane is free.
    intro s' hs'
    have hlanes' := List.pairwise_append.1 hlanes
    rcases List.mem_append.1 hs' with hs' | hs'
    · exact hlanes'.2.2 s' hs' s (by simp)
    · exact ((List.pairwise_cons.1 hlanes'.2.1).1 s' hs').symm
  case live => exact h.reported_ended s hmem_s
  case journal => rfl
  case waiting => exact fun d hd => .inr hd
  case suspended =>
    intro s' hs'
    rw [hs] at hs'
    rcases List.mem_append.1 hs' with hs' | hs'
    · simp [hs']
    · rcases List.mem_cons.1 hs' with rfl | hs'
      · exact .inl rfl
      · simp [hs']

end Orderly

theorem Halts.told_of {c d : Chain} {touched : Nat → Prop} {b b' : Broker}
    (h : Halts c touched b b') {e : Entry} (he : e ∈ b'.journal) (hd : e.event.chain? = some d) :
    e ∈ b.journal ∨ d = c := by
  obtain ⟨-, -, new, hj, hnew, -⟩ := h.told
  rw [hj] at he
  rcases List.mem_append.1 he with he | he
  · exact .inl he
  · rcases hnew e he with hnone | hsome
    · simp [hnone] at hd
    · exact .inr (Option.some.inj (hd.symm.trans hsome))

/-- The chain runs on until it halts, and the row behind it is as it was. -/
theorem Takes.orderly_halts {c : Chain} {touched : Nat → Prop} {b b₁ b' : Broker}
    (ht : Takes c b b₁) (hh : Halts c touched b₁ b') : Orderly b' := by
  have h := ht.orderly
  obtain ⟨hchains, hwaiting, new, hj, hnew, hend⟩ := hh.told
  constructor
  case waiting_lt => rw [hwaiting, hchains]; exact h.waiting_lt
  case waiting_sorted => rw [hwaiting]; exact h.waiting_sorted
  case told_lt =>
    intro e he d hd
    rw [hchains]
    rcases hh.told_of he hd with he | rfl
    · exact h.told_lt e he d hd
    · exact ht.lt
  case told_begun =>
    intro e he d hd hmem
    rw [hwaiting] at hmem
    rcases hh.told_of he hd with he | rfl
    · exact h.told_begun e he d hd hmem
    · exact Nat.lt_irrefl _ (ht.first d hmem rfl)
  -- A chain that is suspended now goes back to the head of its row.
  case suspended_lt =>
    rw [hchains]
    rcases hend with ⟨hs, _⟩ | ⟨s, rfl, hs, _⟩ <;> rw [hs]
    · exact h.suspended_lt
    · simpa [or_imp, forall_and] using ⟨h.suspended_lt, ht.lt⟩
  case suspended_lanes =>
    rcases hend with ⟨hs, _⟩ | ⟨s, rfl, hs, _⟩ <;> rw [hs]
    · exact h.suspended_lanes
    · refine List.pairwise_append.2 ⟨h.suspended_lanes, List.pairwise_singleton .., ?_⟩
      simpa using ht.free
  case ahead =>
    rw [hwaiting]
    rcases hend with ⟨hs, _⟩ | ⟨s, rfl, hs, _⟩ <;> rw [hs]
    · exact h.ahead
    · simpa [or_imp, forall_and] using ⟨h.ahead, ht.first⟩
  case reported_ended =>
    rintro s' hs' ⟨e, he, r, heq⟩
    have hd : e.event.chain? = some s'.chain := by rw [heq]; rfl
    rcases hend with ⟨hs, _⟩ | ⟨s, rfl, hs, hnone⟩ <;> rw [hs] at hs'
    · rcases hh.told_of he hd with he | hc
      · exact h.reported_ended s' hs' ⟨e, he, r, heq⟩
      · exact ht.free s' hs' (by rw [hc])
    · rw [hj] at he
      rcases List.mem_append.1 he with he | he
      · rcases List.mem_append.1 hs' with hs' | hs'
        · exact h.reported_ended s' hs' ⟨e, he, r, heq⟩
        · obtain rfl := List.mem_singleton.1 hs'
          exact ht.live ⟨e, he, r, heq⟩
      · simpa [heq, Event.isReport] using hnone e he

/-- A move either leaves all chains where they are, or hands one over, or takes the head of a row and
lets it run until it halts. -/
theorem Orderly.move_cases {b : Broker} (h : Orderly b) (m : Move) :
    ∃ b', b.move m = b' ∧ (Idles b b' ∨
      (∃ c : Chain, c.number = b.chains ∧
        b' = { b with chains := b.chains + 1, waiting := b.waiting ++ [c] }) ∨
      ∃ c touched b₁, Takes c b b₁ ∧ Halts c touched b₁ b') := by
  obtain ⟨b', heq, hi | hm⟩ := Broker.move_cases b m
  · exact ⟨b', heq, .inl hi⟩
  · refine ⟨b', heq, .inr ?_⟩
    cases hm with
    | submitted c hn => exact .inl ⟨c, hn, rfl⟩
    | began c hw hfirst hfree =>
      exact .inr ⟨c, fun _ => False, _, h.takes_waiting c hw hfirst hfree, begin_halts ..⟩
    | woke s hs => exact .inr ⟨s.chain, _, _, h.takes_suspended s hs, wake_halts ..⟩

theorem Orderly.move {b : Broker} (h : Orderly b) (m : Move) : Orderly (b.move m) := by
  obtain ⟨b', heq, hi | ⟨c, hn, rfl⟩ | ⟨c, touched, b₁, ht, hh⟩⟩ := h.move_cases m <;> rw [heq]
  · exact h.idles hi
  · exact h.submitted c hn
  · exact ht.orderly_halts hh

theorem Orderly.play {b : Broker} (h : Orderly b) (ms : List Move) : Orderly (b.play ms) :=
  play_preserves (P := Orderly) (fun _ m h => h.move m) h ms

end Broker

/-- All that is told of `c`, its report included, comes before anything that is told of `d`. -/
def Precedes (c d : Chain) (es : List Entry) : Prop :=
  ∀ before e after, es = before ++ e :: after → e.event.chain? = some d →
    Reported c before ∧ ∀ x ∈ after, x.event.chain? ≠ some c

theorem Precedes.reported {c d : Chain} {es : List Entry} (h : Precedes c d es) {e : Entry}
    (he : e ∈ es) (hd : e.event.chain? = some d) : Reported c es := by
  obtain ⟨before, after, rfl⟩ := List.append_of_mem he
  exact (h before e after rfl hd).1.mono fun x hx => List.mem_append_left _ hx

theorem Precedes.append {c d : Chain} {es new : List Entry} (h : Precedes c d es)
    (hd : ∀ e ∈ new, e.event.chain? = some d → Reported c es)
    (hc : ∀ e ∈ new, e.event.chain? = some c → ∀ x ∈ es ++ new, x.event.chain? ≠ some d) :
    Precedes c d (es ++ new) := by
  intro before e after heq hed
  have hmem : e ∈ es ++ new := by simp [heq]
  -- The entry is one of the new ones, or one of the old ones with all the new ones behind it.
  rcases List.append_eq_append_iff.1 heq with ⟨more, rfl, hnew⟩ | ⟨more, rfl, hafter⟩
  · have hsub : ∀ x ∈ e :: after, x ∈ new := fun x hx => by simp [hnew, hx]
    refine ⟨(hd e (hsub e (by simp)) hed).mono fun x hx => List.mem_append_left _ hx, ?_⟩
    intro x hx hxc
    exact hc x (hsub x (by simp [hx])) hxc e hmem hed
  · cases more with
    | nil =>
      have hnew : e :: after = new := by simpa using hafter
      have hsub : ∀ x ∈ e :: after, x ∈ new := fun x hx => hnew ▸ hx
      refine ⟨by simpa using hd e (hsub e (by simp)) hed, ?_⟩
      intro x hx hxc
      exact hc x (hsub x (by simp [hx])) hxc e hmem hed
    | cons y more =>
      rw [List.cons_append, List.cons_eq_cons] at hafter
      obtain ⟨rfl, rfl⟩ := hafter
      obtain ⟨hr, hlater⟩ := h before e more rfl hed
      refine ⟨hr, fun x hx hxc => ?_⟩
      rcases List.mem_append.1 hx with hx | hx
      · exact hlater x hx hxc
      · exact hc x hx hxc e hmem hed

namespace Broker

/-- A chain that was handed over waits, is suspended or has been reported. -/
def Holds (b : Broker) (c : Chain) : Prop :=
  c ∈ b.waiting ∨ (∃ s ∈ b.suspended, s.chain = c) ∨ Reported c b.journal

theorem Holds.move {b : Broker} {c : Chain} (h : b.Holds c) (ho : Orderly b) (m : Move) :
    (b.move m).Holds c := by
  obtain ⟨b', heq, hi | ⟨d, hn, rfl⟩ | ⟨d, touched, b₁, ht, hh⟩⟩ := ho.move_cases m <;> rw [heq]
  · obtain ⟨new, hj, -⟩ := hi.journal
    unfold Holds
    rw [hi.waiting, hi.suspended, hj]
    exact h.imp_right (.imp_right fun h => h.mono fun e he => List.mem_append_left _ he)
  · exact h.imp_left fun h => List.mem_append_left _ h
  · obtain ⟨-, hwaiting, new, hj, -, hend⟩ := hh.told
    have hold : ∀ e ∈ b.journal, e ∈ b'.journal := by
      intro e he
      rw [hj, ht.journal]
      exact List.mem_append_left _ he
    have hkept : ∀ s ∈ b₁.suspended, s ∈ b'.suspended := by
      intro s hs
      rcases hend with ⟨hs', -⟩ | ⟨s', -, hs', -⟩ <;> simp [hs', hs]
    -- The chain `d` that runs may be this one, or another.
    have hran : (∃ s ∈ b'.suspended, s.chain = d) ∨ Reported d b'.journal := by
      rcases hend with ⟨-, e, he, hr⟩ | ⟨s, hs, hs', -⟩
      · exact .inr ⟨e, by simp [hj, he], hr⟩
      · exact .inl ⟨s, by simp [hs'], hs⟩
    rcases h with h | ⟨s, hs, rfl⟩ | h
    · rcases ht.waiting c h with rfl | h
      · exact .inr hran
      · exact .inl (hwaiting ▸ h)
    · rcases ht.suspended s hs with hsd | hs
      · exact .inr (hsd ▸ hran)
      · exact .inr (.inl ⟨s, hkept s hs, rfl⟩)
    · exact .inr (.inr (h.mono hold))

theorem Holds.play {b : Broker} {c : Chain} (h : b.Holds c) (ho : Orderly b) (ms : List Move) :
    (b.play ms).Holds c := by
  induction ms generalizing b with
  | nil => exact h
  | cons m ms ih => exact ih (h.move ho m) (ho.move m)

theorem Holds.lt {b : Broker} {c : Chain} (h : b.Holds c) (ho : Orderly b) : c.number < b.chains := by
  rcases h with h | ⟨s, hs, rfl⟩ | ⟨e, he, r, heq⟩
  · exact ho.waiting_lt c h
  · exact ho.suspended_lt s hs
  · exact ho.told_lt e he c (by rw [heq]; rfl)

/-- The head of the row is the first of its lane that has not been reported. -/
theorem Takes.reported {c d : Chain} {b b' : Broker} (ht : Takes d b b') (hc : b.Holds c)
    (hlane : c.lane = d.lane) (hlt : c.number < d.number) : Reported c b.journal := by
  rcases hc with hc | ⟨s, hs, rfl⟩ | hc
  · rcases ht.waiting c hc with rfl | hc
    · exact absurd hlt (Nat.lt_irrefl _)
    · exact absurd (ht.first c hc hlane) (Nat.lt_asymm hlt)
  · rcases ht.suspended s hs with hsd | hs
    · exact absurd (hsd ▸ hlt) (Nat.lt_irrefl _)
    · exact absurd hlane (ht.free s hs)
  · exact hc

theorem precedes_move {c d : Chain} {b : Broker} (ho : Orderly b) (hc : b.Holds c)
    (hlane : c.lane = d.lane) (hlt : c.number < d.number) (h : Precedes c d b.journal) (m : Move) :
    Precedes c d (b.move m).journal := by
  obtain ⟨b', heq, hi | ⟨x, hn, rfl⟩ | ⟨x, touched, b₁, ht, hh⟩⟩ := ho.move_cases m <;> rw [heq]
  · obtain ⟨new, hj, hnew⟩ := hi.journal
    rw [hj]
    refine h.append (fun e he hd => ?_) (fun e he hc => ?_)
    · simp [hnew e he] at hd
    · simp [hnew e he] at hc
  · exact h
  · obtain ⟨-, -, new, hj, hnew, -⟩ := hh.told
    rw [hj, ht.journal]
    refine h.append (fun e he hd => ?_) (fun e he hce y hy hyd => ?_)
    · rcases hnew e he with hnone | hx
      · simp [hnone] at hd
      · obtain rfl := Option.some.inj (hx.symm.trans hd)
        exact ht.reported hc hlane hlt
    · rcases hnew e he with hnone | hx
      · simp [hnone] at hce
      · -- `c` runs, so it has not been reported, and nothing can have been told of `d`.
        obtain rfl := Option.some.inj (hx.symm.trans hce)
        rcases List.mem_append.1 hy with hy | hy
        · exact ht.live (ht.journal ▸ h.reported hy hyd)
        · rcases hnew y hy with hnone | hx
          · simp [hnone] at hyd
          · obtain rfl := Option.some.inj (hx.symm.trans hyd)
            exact Nat.lt_irrefl _ hlt

theorem precedes_play {c d : Chain} {b : Broker} (ho : Orderly b) (hc : b.Holds c)
    (hlane : c.lane = d.lane) (hlt : c.number < d.number) (h : Precedes c d b.journal)
    (ms : List Move) : Precedes c d (b.play ms).journal := by
  induction ms generalizing b with
  | nil => exact h
  | cons m ms ih => exact ih (ho.move m) (hc.move ho m) (precedes_move ho hc hlane hlt h m)

end Broker
end BrokerHooks
