import BrokerHooks.Proofs.Lane.Outside

namespace BrokerHooks.Broker

def laneChains (lane : Nat × Point) (b : Broker) (ms : List Move) : List Chain :=
  (b.handedOver ms).filter fun c => c.lane = lane && c.supplied.belongsTo c.point

def laneNumbers (lane : Nat × Point) (b : Broker) (ms : List Move) : List Nat := (b.laneChains lane ms).map (·.number)

def IsDone (lane : Nat × Point) (b : Broker) : Prop :=
  (∀ c ∈ b.waiting, c.lane ≠ lane) ∧ ∀ s ∈ b.suspended, s.chain.lane ≠ lane

variable {lane : Nat × Point} {numbers numbers' : List Nat} {b b' : Broker} {m m' : Move} {ms ms' : List Move}

/-- The numbers are those of `k` chains that were handed over before, and of those that are still to come. -/
def Numbered (lane : Nat × Point) (numbers : List Nat) (k : Nat) (b : Broker) (ms : List Move) : Prop :=
  ∃ past, numbers = past ++ b.laneNumbers lane ms ∧ past.length = k ∧ ∀ n ∈ past, n < b.chains

theorem laneNumbers_cons (b : Broker) (m : Move) (ms : List Move) : b.laneNumbers lane (m :: ms) =
    ((b.submits m).filter fun c => c.lane = lane && c.supplied.belongsTo c.point).map (·.number) ++
      (b.move m).laneNumbers lane ms := by
  simp [laneNumbers, laneChains, handedOver, List.filter_append]

theorem submits_other (hm : ∀ p, b.stimulus? lane m ≠ some (.submit p)) :
    (b.submits m).filter (fun c => c.lane = lane && c.supplied.belongsTo c.point) = [] := by
  cases m with
  | submit connection point p =>
    have hnot : ¬((connection, point) = lane ∧ p.belongsTo point) := fun hboth => hm p (by simp [stimulus?, hboth])
    refine List.filter_eq_nil_iff.2 fun c hc hboth => ?_
    rw [submits, submit_fst] at hc
    obtain rfl := List.mem_singleton.1 hc
    simp only [Bool.and_eq_true, decide_eq_true_eq] at hboth
    exact hnot hboth
  | _ => rfl

theorem Numbered.other {k : Nat} (h : Numbered lane numbers k b (m :: ms))
    (hm : ∀ p, b.stimulus? lane m ≠ some (.submit p)) : Numbered lane numbers k (b.move m) ms := by
  obtain ⟨past, heq, hlength, hlt⟩ := h
  rw [laneNumbers_cons, submits_other hm] at heq
  exact ⟨past, heq, hlength, fun n hn => Nat.lt_of_lt_of_le (hlt n hn) (move_chains b m)⟩

theorem Numbered.submit {k : Nat} {p : Packet} (h : Numbered lane numbers k b (.submit lane.1 lane.2 p :: ms))
    (hp : p.belongsTo lane.2) : numbers.idxOf b.chains = k ∧
      Numbered lane numbers (k + 1) (b.move (.submit lane.1 lane.2 p)) ms := by
  obtain ⟨past, heq, rfl, hlt⟩ := h
  have hone : (b.submits (.submit lane.1 lane.2 p)).filter
      (fun c => c.lane = lane && c.supplied.belongsTo c.point) =
        [{ number := b.chains, connection := lane.1, point := lane.2, supplied := p }] := by
    simp [submits, submit_fst, Chain.lane, hp]
  rw [laneNumbers_cons, hone] at heq
  have hnew : b.chains ∉ past := fun hmem => Nat.lt_irrefl _ (hlt _ hmem)
  constructor
  · rw [heq, List.idxOf_append_of_notMem hnew]
    simp
  · refine ⟨past ++ [b.chains], by simpa using heq, by simp, fun n hn => ?_⟩
    have hchains : (b.move (.submit lane.1 lane.2 p)).chains = b.chains + 1 := by
      simp only [Broker.move, Broker.submit, hp, if_true]
    rw [hchains]
    rcases List.mem_append.1 hn with hn | hn
    · exact Nat.lt_succ_of_lt (hlt n hn)
    · rw [List.mem_singleton.1 hn]
      exact Nat.lt_succ_self _

/-- The chains of packets that are handed over from the `k`-th place on. -/
def queued (lane : Nat × Point) (k : Nat) (ps : List Packet) : List Chain :=
  ps.mapIdx fun i p => { number := k + i, connection := lane.1, point := lane.2, supplied := p }

theorem queued_cons (k : Nat) (p : Packet) (ps : List Packet) : queued lane k (p :: ps) =
    { number := k, connection := lane.1, point := lane.2, supplied := p } :: queued lane (k + 1) ps := by
  simp [queued, List.mapIdx_cons, Nat.add_assoc, Nat.add_comm 1]

theorem queued_concat (k : Nat) (ps : List Packet) (p : Packet) : queued lane k (ps ++ [p]) = queued lane k ps ++
    [{ number := k + ps.length, connection := lane.1, point := lane.2, supplied := p }] := by
  simp [queued, List.mapIdx_append]

theorem submit_of_stimulus {p : Packet} (h : b.stimulus? lane m = some (.submit p)) :
    m = .submit lane.1 lane.2 p ∧ p.belongsTo lane.2 := by
  cases comes_of_stimulus h with
  | submit hp => exact ⟨rfl, hp⟩

theorem waitingIn_submit {k : Nat} {p : Packet} (hp : p.belongsTo lane.2) (hk : numbers.idxOf b.chains = k) :
    (b.move (.submit lane.1 lane.2 p)).waitingIn lane numbers = b.waitingIn lane numbers ++
      [{ number := k, connection := lane.1, point := lane.2, supplied := p }] := by
  simp [Broker.move, submit, hp, waitingIn, List.filter_append, Chain.lane, Chain.among, hk]

theorem stimuli_cons (b : Broker) (m : Move) (ms : List Move) : b.stimuli lane (m :: ms) =
    ((b.stimulus? lane m).map (b.now, ·)).toList ++ (b.move m).stimuli lane ms := rfl

theorem stimuli_none (hm : b.stimulus? lane m = none) (ms : List Move) :
    b.stimuli lane (m :: ms) = (b.move m).stimuli lane ms := by
  rw [stimuli_cons, hm]
  rfl

theorem stimuli_some {x : Stimulus} (hm : b.stimulus? lane m = some x) (ms : List Move) :
    b.stimuli lane (m :: ms) = (b.now, x) :: (b.move m).stimuli lane ms := by
  rw [stimuli_cons, hm]
  rfl

theorem stimuli_append (b : Broker) (ms ns : List Move) :
    b.stimuli lane (ms ++ ns) = b.stimuli lane ms ++ (b.play ms).stimuli lane ns := by
  induction ms generalizing b with
  | nil => rfl
  | cons m ms ih => rw [List.cons_append, stimuli_cons, stimuli_cons, ih, List.append_assoc, play_cons]

theorem stimuli_time (lane : Nat × Point) (b : Broker) (ms : List Move) : ∀ x ∈ b.stimuli lane ms, b.now ≤ x.1 := by
  induction ms generalizing b with
  | nil => exact List.forall_mem_nil _
  | cons m ms ih =>
    intro x hx
    rw [stimuli_cons] at hx
    rcases List.mem_append.1 hx with hx | hx
    · obtain ⟨y, -, rfl⟩ := Option.map_eq_some_iff.1 (Option.mem_toList.1 hx)
      exact Nat.le_refl _
    · exact Nat.le_trans (move_walk b m).times.1 (ih _ x hx)

theorem stimulus?_of_stirs (h : b.stirs lane m) : b.stimulus? lane m = none := by
  cases m <;> first | rfl | cases h

theorem stirs_of_stimulus {x : Stimulus} (hm : b.stimulus? lane m = some x) : b.stirs lane m = false := by
  cases hs : b.stirs lane m with
  | false => rfl
  | true => simp [stimulus?_of_stirs hs] at hm

/-- Two runs to which the lane sees no difference so far. In the first, packets may have been handed over that the
second still has to hand over at the same times. -/
structure Coupled (lane : Nat × Point) (numbers numbers' : List Nat) (k : Nat) (ahead : List (Nat × Packet))
    (b : Broker) (ms : List Move) (b' : Broker) (ms' : List Move) : Prop where
  sound : Sound b
  sound' : Sound b'
  regular : RegularRun b ms
  regular' : RegularRun b' ms'
  alike : AlikeIn lane numbers numbers' b b'
  waiting : b.waitingIn lane numbers = b'.waitingIn lane numbers' ++ queued lane k (ahead.map (·.2))
  steps : InStep lane numbers b b'
  numbered : Numbered lane numbers (k + ahead.length) b ms
  numbered' : Numbered lane numbers' k b' ms'
  stimuli : b'.stimuli lane ms' = ahead.map (fun x => (x.1, .submit x.2)) ++ b.stimuli lane ms
  agree : First.Agree (b.decisions lane ms) (b'.decisions lane ms')
  early : ∀ x ∈ ahead, x.1 ≤ b.now

/-- The same is told of the lane in the end, and its hooks are handed the same inputs. -/
def SameCourse (lane : Nat × Point) (numbers numbers' : List Nat) (b : Broker) (ms : List Move) (b' : Broker)
    (ms' : List Move) : Prop :=
  (b'.play ms').chronicleIn lane numbers' = (b.play ms).chronicleIn lane numbers ∧
    laneInputs lane numbers' (b'.story ms') = laneInputs lane numbers (b.story ms)

namespace SameCourse

theorem symm (h : SameCourse lane numbers numbers' b ms b' ms') : SameCourse lane numbers' numbers b' ms' b ms :=
  ⟨h.1.symm, h.2.symm⟩

theorem cons (h : SameCourse lane numbers numbers' (b.move m) ms (b'.move m') ms')
    (hinputs : laneInputs lane numbers' (moveStory b' m') = laneInputs lane numbers (moveStory b m)) :
    SameCourse lane numbers numbers' b (m :: ms) b' (m' :: ms') := by
  refine ⟨h.1, ?_⟩
  rw [story, story, laneInputs_append, laneInputs_append, hinputs, h.2]

end SameCourse

theorem Spares.moment {b₁ : Broker} (hs : Spares lane b b₁) {time : Nat} (ht : b₁.Moment lane numbers time) :
    b.Moment lane numbers time := by
  unfold Moment at ht ⊢
  rwa [hs.pausesIn, hs.waitingIn] at ht

namespace Coupled

variable {k : Nat} {ahead : List (Nat × Packet)}

theorem symm (h : Coupled lane numbers numbers' k [] b ms b' ms') :
    Coupled lane numbers' numbers k [] b' ms' b ms where
  sound := h.sound'
  sound' := h.sound
  regular := h.regular'
  regular' := h.regular
  alike := h.alike.symm
  waiting := by simpa [queued] using h.waiting.symm
  steps := h.steps.symm fun time => h.alike.moment fun hne => by
    have heq : b.waitingIn lane numbers = b'.waitingIn lane numbers' := by simpa [queued] using h.waiting
    rwa [heq]
  numbered := h.numbered'
  numbered' := h.numbered
  stimuli := by simpa using h.stimuli.symm
  agree := h.agree.symm
  early := List.forall_mem_nil _

theorem left (h : Coupled lane numbers numbers' k ahead b (m :: ms) b' ms') (hm : b.stimulus? lane m = none)
    (hs : b.stirs lane m = false) : Coupled lane numbers numbers' k ahead (b.move m) ms b' ms' := by
  obtain ⟨hspares, hlimiter, hroster⟩ := spares_move h.sound hm hs
  have hnow := (move_walk b m).times.1
  exact {
    sound := h.sound.move h.regular.1
    sound' := h.sound'
    regular := h.regular.2
    regular' := h.regular'
    alike := h.alike.spare hspares (.refl b') (h.alike.limiter.trans hlimiter.symm) (hroster _ h.alike.roster)
    waiting := by rw [hspares.waitingIn, h.waiting]
    steps := by
      by_cases hpasses : (b.move m).now = b.now
      · exact h.steps.imp hpasses.trans fun hahead time ht => by
          rw [hpasses]
          exact hahead time (hspares.moment ht)
      · refine .inr fun time ht => ?_
        have hle := h.sound.now_le_moment h.regular.1 hpasses (hspares.moment ht)
        rcases h.steps with heq | hahead
        · omega
        · exact ⟨hle, (hahead time (hspares.moment ht)).2⟩
    numbered := h.numbered.other (by simp [hm])
    numbered' := h.numbered'
    stimuli := by rw [h.stimuli, stimuli_none hm]
    agree := decisions_still hs ms ▸ h.agree
    early := fun x hx => Nat.le_trans (h.early x hx) hnow }

theorem right (h : Coupled lane numbers numbers' k ahead b ms b' (m' :: ms')) (hm : b'.stimulus? lane m' = none)
    (hs : b'.stirs lane m' = false) : Coupled lane numbers numbers' k ahead b ms (b'.move m') ms' := by
  cases ahead with
  | nil => exact (h.symm.left hm hs).symm
  | cons x ahead =>
    obtain ⟨hspares, hlimiter, hroster⟩ := spares_move h.sound' hm hs
    have hnow := (move_walk b' m').times.1
    have hstimuli : (b'.move m').stimuli lane ms' =
        (x :: ahead).map (fun x => (x.1, .submit x.2)) ++ b.stimuli lane ms := by
      rw [← stimuli_none hm, h.stimuli]
    -- The packet is handed over no earlier than now, and has been in the first run.
    have hlate : (b'.move m').now ≤ b.now := by
      have htime := stimuli_time lane (b'.move m') ms' (x.1, .submit x.2) (by simp [hstimuli])
      exact Nat.le_trans htime (h.early x (List.mem_cons_self ..))
    exact {
      sound := h.sound
      sound' := h.sound'.move h.regular'.1
      regular := h.regular
      regular' := h.regular'.2
      alike := (h.alike.symm.spare hspares (.refl b) (h.alike.limiter.symm.trans hlimiter.symm)
        (hroster _ h.alike.roster.symm)).symm
      waiting := by rw [hspares.waitingIn, h.waiting]
      steps := by
        rcases h.steps with heq | hahead
        · exact .inl (by omega)
        · exact .inr fun time ht => ⟨(hahead time ht).1, Nat.le_trans hlate (hahead time ht).1⟩
      numbered := h.numbered
      numbered' := h.numbered'.other (by simp [hm])
      stimuli := hstimuli
      agree := decisions_still hs ms' ▸ h.agree
      early := h.early }

/-- The first run hands over a packet, which the second does later. If it cannot be at the same time, the lane has
something to do already. -/
theorem submit (h : Coupled lane numbers numbers' k ahead b (m :: ms) b' ms') {p : Packet}
    (hm : b.stimulus? lane m = some (.submit p)) (hbusy : b'.now = b.now ∨ ∃ time, b.Moment lane numbers time) :
    Coupled lane numbers numbers' k (ahead ++ [(b.now, p)]) (b.move m) ms b' ms' := by
  obtain ⟨rfl, hp⟩ := submit_of_stimulus hm
  obtain ⟨hk, hnumbered⟩ := h.numbered.submit hp
  have hmove : b.move (.submit lane.1 lane.2 p) = _ := move_submit hp
  have hnow : (b.move (.submit lane.1 lane.2 p)).now = b.now := by rw [hmove]
  have hpauses : (b.move (.submit lane.1 lane.2 p)).pausesIn lane numbers = b.pausesIn lane numbers := by
    rw [hmove]
    rfl
  exact {
    sound := h.sound.move h.regular.1
    sound' := h.sound'
    regular := h.regular.2
    regular' := h.regular'
    alike := by
      rw [hmove]
      exact { h.alike with }
    waiting := by
      rw [waitingIn_submit hp hk, h.waiting, List.append_assoc, List.map_append, List.map_singleton, queued_concat,
        List.length_map]
    steps := by
      rcases hbusy with heq | ⟨time, ht⟩
      · exact .inl (hnow.trans heq.symm)
      · refine h.steps.imp hnow.trans fun hahead time' ht' => ?_
        rw [hnow]
        refine hahead time' ?_
        unfold Moment at ht' ⊢
        rw [hpauses] at ht'
        -- The packet brings no new moment, as the lane was about to move on already.
        rcases ht' with ⟨hnone, -, hzero⟩ | hpause
        · refine .inl ⟨hnone, ?_, hzero⟩
          rcases ht with ⟨-, hwaiting, -⟩ | ⟨p, hp, -⟩
          · exact hwaiting
          · rw [hnone] at hp
            cases hp
        · exact .inr hpause
    numbered := by simpa [Nat.add_assoc] using hnumbered
    numbered' := h.numbered'
    stimuli := by rw [h.stimuli, stimuli_some hm, List.map_append, List.append_assoc]; rfl
    agree := decisions_still (stirs_of_stimulus hm) ms ▸ h.agree
    early := by
      intro x hx
      rw [hnow]
      rcases List.mem_append.1 hx with hx | hx
      · exact h.early x hx
      · rw [List.mem_singleton.1 hx] }

/-- What moves the lane on in the second run would do so in the first. -/
theorem moment (h : Coupled lane numbers numbers' k ahead b ms b' ms') {time : Nat}
    (ht : b'.Moment lane numbers' time) : b.Moment lane numbers time :=
  h.alike.moment (fun hne hnil => hne (List.append_eq_nil_iff.1 (h.waiting.symm.trans hnil)).1) ht

theorem no_moment (h : IsDone lane b) {time : Nat} : ¬b.Moment lane numbers time := by
  have hwaiting : b.waitingIn lane numbers = [] := by
    have hnone : b.waiting.filter (·.lane = lane) = [] :=
      List.filter_eq_nil_iff.2 fun c hc => by simpa using h.1 c hc
    rw [waitingIn, hnone, List.map_nil]
  rintro (⟨-, hne, -⟩ | ⟨p, hp, -⟩)
  · exact hne hwaiting
  · rw [pausesIn_of_free h.2] at hp
    cases hp

/-- Where all is done in the first run, nothing is left to the lane in the second. -/
theorem ended (h : Coupled lane numbers numbers' k ahead b [] b' (m' :: ms')) (hdone : IsDone lane b) :
    b'.stimulus? lane m' = none ∧ b'.stirs lane m' = false := by
  have hahead : ahead = [] := by
    cases ahead with
    | nil => rfl
    | cons first ahead =>
      have hmem : { number := k, connection := lane.1, point := lane.2, supplied := first.2 } ∈
          b.waitingIn lane numbers := by
        rw [h.waiting, List.map_cons, queued_cons]
        simp
      obtain ⟨c, hc, -⟩ := List.mem_map.1 hmem
      obtain ⟨hc, hlane⟩ := List.mem_filter.1 hc
      exact absurd (of_decide_eq_true hlane) (hdone.1 c hc)
  constructor
  · cases hm' : b'.stimulus? lane m' with
    | none => rfl
    | some x =>
      have hstimuli := h.stimuli
      rw [stimuli_some hm', hahead] at hstimuli
      cases hstimuli
  · cases hs' : b'.stirs lane m' with
    | false => rfl
    | true =>
      obtain ⟨time, ht, -⟩ := (stirring hs').moment numbers'
      exact absurd (h.moment ht) (no_moment hdone)

end Coupled

end BrokerHooks.Broker
