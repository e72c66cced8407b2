import BrokerHooks.Proofs.Chain.Execution
import BrokerHooks.Proofs.Chain.Latency

namespace BrokerHooks.Broker

/-- Something has come of the chain: it is suspended, or the journal tells of it. -/
def HasBegun (b : Broker) (c : Chain) : Prop :=
  (∃ s ∈ b.suspended, s.chain = c) ∨ ∃ e ∈ b.journal, e.event.chain? = some c

/-- While a chain runs on, nothing comes of any other. -/
theorem Halts.hasBegun {c d : Chain} {touched : Nat → Prop} {b b' : Broker} (h : Halts d touched b b')
    (hc : b'.HasBegun c) : b.HasBegun c ∨ d = c := by
  rcases hc with ⟨s, hs, hchain⟩ | ⟨e, he, htold⟩
  · obtain ⟨-, -, new, -, -, hend⟩ := h.told
    rcases hend with ⟨hsuspended, -⟩ | ⟨s', hs', hsuspended, -⟩ <;> rw [hsuspended] at hs
    · exact .inl (.inl ⟨s, hs, hchain⟩)
    · rcases List.mem_append.1 hs with hs | hs
      · exact .inl (.inl ⟨s, hs, hchain⟩)
      · obtain rfl := List.mem_singleton.1 hs
        exact .inr (hs'.symm.trans hchain)
  · exact (h.told_of he htold).imp (fun he => .inr ⟨e, he, htold⟩) Eq.symm

theorem begins_of_hasBegun {b : Broker} {c : Chain} {m : Move} (hbefore : ¬b.HasBegun c)
    (hafter : (b.move m).HasBegun c) : m = .begin c.lane ∧ ∃ b₀, Heads c b b₀ := by
  obtain ⟨b', heq, hi | hm⟩ := Broker.move_cases b m <;> rw [heq] at hafter
  · refine absurd ?_ hbefore
    unfold HasBegun at hafter ⊢
    obtain ⟨new, hj, hnew⟩ := hi.journal
    rw [hi.suspended, hj] at hafter
    refine hafter.imp_right fun ⟨e, he, htold⟩ => ⟨e, ?_, htold⟩
    rcases List.mem_append.1 he with he | he
    · exact he
    · rw [hnew e he] at htold
      cases htold
  · cases hm with
    | submitted d hn => exact absurd hafter hbefore
    | @began before after d hw hfirst hfree =>
      rcases (begin_halts { b with waiting := before ++ after } d fun _ => False).hasBegun hafter with h | rfl
      · exact absurd h hbefore
      · exact ⟨rfl, _, hfree, before, after, hw, hfirst, rfl⟩
    | @woke before after s hs =>
      refine absurd ?_ hbefore
      rcases (wake_halts { b with suspended := before ++ after } s).hasBegun hafter with h | rfl
      · exact h.imp_left fun ⟨s', hs', hchain⟩ => ⟨s', mem_of_split hs hs', hchain⟩
      · exact .inl ⟨s, by simp [hs], rfl⟩

/-- In a run that starts with no chain begun, whatever is known of a chain is a stage of its course. -/
theorem staged {start : Broker} (ho : Orderly start) {c : Chain} (hstart : ¬start.HasBegun c)
    {ms : List Move} (h : (start.play ms).HasBegun c) :
    ∃ ms₁ ms₂ b₀, ms = ms₁ ++ .begin c.lane :: ms₂ ∧ Heads c (start.play ms₁) b₀ ∧
      Stage c b₀ ms₂ (start.play ms) := by
  induction ms using List.reverseRecOn with
  | nil => exact absurd h hstart
  | append_singleton ms m ih =>
    rw [play_concat] at h ⊢
    by_cases hbefore : (start.play ms).HasBegun c
    · obtain ⟨ms₁, ms₂, b₀, rfl, hheads, hstage⟩ := ih hbefore
      exact ⟨ms₁, ms₂ ++ [m], b₀, by simp, hheads, hstage.move (ho.play _) m⟩
    · obtain ⟨rfl, b₀, hheads⟩ := begins_of_hasBegun hbefore h
      exact ⟨ms, [], b₀, rfl, hheads, hheads.move ▸ stage_begin b₀ c⟩

/-- How a chain came to its end in the run of `ms`: it was taken out of its lane, made the visits of its
course, and was reported in `b`, either because no hook was left or because the last visit failed. -/
def Concluded (start : Broker) (ms : List Move) (c : Chain) (vs : List (Ranked × Visit)) (b : Broker) : Prop :=
  ∃ ms₁ ms₂ ms₃ b₀ rest, ms = ms₁ ++ .begin c.lane :: (ms₂ ++ ms₃) ∧ Heads c (start.play ms₁) b₀ ∧
    Course c b₀ ms₂ vs rest b ∧ (rest = [] ∨ ∃ f, foldVisits c.supplied vs = .error f) ∧
    start.play ms = (b.report c (Report.ofFold c.point (foldVisits c.supplied vs))).play ms₃

/-- Every report in the journal of a run is that of a chain that has come to its end. -/
theorem concluded_of_reported (config : Config) (metered : Bool) (ms : List Move) {e : Entry}
    (he : e ∈ ((ofConfig config metered).play ms).journal) {c : Chain} {r : Report}
    (hr : e.event = .reported c r) :
    ∃ vs b, Concluded (ofConfig config metered) ms c vs b ∧
      r = (Report.ofFold c.point (foldVisits c.supplied vs)).onConnection (b.roster.isClosed c.connection) := by
  have ho := orderly_ofConfig config metered
  have hstart : ¬(ofConfig config metered).HasBegun c := by simp [HasBegun, ofConfig]
  obtain ⟨ms₁, ms₂, b₀, rfl, hheads, hstage⟩ := staged ho hstart (.inr ⟨e, he, by rw [hr]; rfl⟩)
  obtain ⟨ns, ms₃, vs, rest, b, rfl, hcourse, -, -, hend⟩ := hstage.refinesFold (hheads.untold (ho.play ms₁))
  have hmem := mem_reportsOf he hr
  rcases hend with ⟨_, _, _, _, -, -, -, -, -, -, hreports⟩ | ⟨hover, hplay, -, hreports⟩ <;> rw [hreports] at hmem
  · cases hmem
  · exact ⟨vs, b, ⟨ms₁, ns, ms₃, b₀, rest, rfl, hheads, hcourse, hover, hplay⟩, List.mem_singleton.1 hmem⟩

end BrokerHooks.Broker
