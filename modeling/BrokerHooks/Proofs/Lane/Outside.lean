import BrokerHooks.Proofs.Lane.Stir
import BrokerHooks.Proofs.Metrics.Calls

namespace BrokerHooks.Broker

/-- Apart from its chains, the connection sees no difference. -/
structure AlikeOutside (c : Nat) (b b' : Broker) : Prop where
  limiter : b'.limiter = b.limiter
  roster : b.roster.AlikeFor c b'.roster

variable {lane : Nat × Point} {numbers numbers' : List Nat} {c : Nat} {b b' : Broker} {m m' : Move}

theorem check_limiter (b : Broker) : b.check.2.limiter = (b.limiter.exceeded b.now).2 := by
  unfold check meter
  simp only
  split
  · split <;> rfl
  · rfl

theorem check_fst (b : Broker) :
    b.check.1 = if (b.limiter.exceeded b.now).1 then .error .rateLimitExceeded else .ok () := by
  unfold check
  simp only
  split <;> rfl

namespace AlikeOutside

theorem request (h : AlikeOutside c b b') (q : Roster.Request) :
    AlikeOutside c { b with roster := (b.roster.answer q).2 } { b' with roster := (b'.roster.answer q).2 } :=
  ⟨h.limiter, h.roster.answer q⟩

theorem check (h : AlikeOutside c b b') (hnow : b'.now = b.now) : AlikeOutside c b.check.2 b'.check.2 where
  limiter := by rw [check_limiter, check_limiter, h.limiter, hnow]
  roster := by
    rw [check_roster, check_roster]
    exact h.roster

theorem admitted (h : AlikeOutside c b b') (hnow : b'.now = b.now) {α : Type} {f : Broker → α × Broker}
    (hf : ∀ b b', AlikeOutside c b b' → AlikeOutside c (f b).2 (f b').2) :
    AlikeOutside c (b.admitted f).2 (b'.admitted f).2 := by
  have hchecked := h.check hnow
  have hverdict : b'.check.1 = b.check.1 := by rw [check_fst, check_fst, h.limiter, hnow]
  unfold Broker.admitted
  cases hb : b.check with
  | mk verdict b₁ =>
    cases hb' : b'.check with
    | mk verdict' b₁' =>
      rw [hb, hb'] at hchecked hverdict
      obtain rfl : verdict' = verdict := hverdict
      cases verdict' with
      | error => exact hchecked
      | ok => exact hf b₁ b₁' hchecked

theorem disconnect (h : AlikeOutside c b b') (clientId : String) (reason : Option ReasonCode) :
    AlikeOutside c
      (match b.roster.tracked? clientId with
        | none => (false, b)
        | some i => b.onRoster (·.close i reason)).2
      (match b'.roster.tracked? clientId with
        | none => (false, b')
        | some i => b'.onRoster (·.close i reason)).2 := by
  unfold Roster.tracked?
  rw [h.roster.tracked]
  cases b.roster.tracked.lookup clientId with
  | none => exact h
  | some i =>
    -- If only one of them has given the connection up, it is not the lane's, and the other may close it.
    cases hr : b.roster.isReleased i with
    | true =>
      cases hr' : b'.roster.isReleased i with
      | true => simpa [Option.filter, hr, hr'] using h
      | false =>
        have hclosed : AlikeOutside c b (b'.onRoster (·.close i reason)).2 :=
          ⟨h.limiter, (h.roster.symm.close_left (fun heq => heq ▸ hr) reason).symm⟩
        simpa [Option.filter, hr, hr'] using hclosed
    | false =>
      cases hr' : b'.roster.isReleased i with
      | true =>
        have hclosed : AlikeOutside c (b.onRoster (·.close i reason)).2 b' :=
          ⟨h.limiter, h.roster.close_left (fun heq => heq ▸ hr') reason⟩
        simpa [Option.filter, hr, hr'] using hclosed
      | false =>
        have hclosed : AlikeOutside c (b.onRoster (·.close i reason)).2 (b'.onRoster (·.close i reason)).2 :=
          ⟨h.limiter, h.roster.close i reason⟩
        simpa [Option.filter, hr, hr'] using hclosed

theorem perform (h : AlikeOutside c b b') (hnow : b'.now = b.now) {op : Op} (hop : op.isPrivate = false)
    {s s' : Site} (hs : s'.connection = s.connection) : AlikeOutside c (b.perform s op).2 (b'.perform s' op).2 := by
  cases op with
  | call | defer | resume | prevent | view | note => cases hop
  | close reason =>
    unfold Broker.perform
    rw [hs]
    exact h.request (.close s.connection reason)
  | resolve topic number =>
    unfold Broker.perform
    rw [hs]
    exact h.request (.resolve s.connection topic number)
  | register id priority => exact h.request (.register id priority)
  | remove id => exact h.request (.remove id)
  | enable id => exact h.request (.enable id)
  | disable id => exact h.request (.disable id)
  | isEnabled => exact h
  | check => exact h.check hnow
  | isConnected => exact h.admitted hnow fun _ _ h => h
  | disconnectClient clientId reason =>
    unfold Broker.perform Broker.disconnectClient
    simp only
    split
    · exact h
    · exact h.admitted hnow fun b b' h => h.disconnect clientId reason

end AlikeOutside

/-- A move that comes to the lane from outside. -/
inductive Comes (lane : Nat × Point) (b : Broker) : Move → Stimulus → Prop where
  | submit {p : Packet} (hbelongs : p.belongsTo lane.2) : Comes lane b (.submit lane.1 lane.2 p) (.submit p)
  | touch {site : Site} {op : Op} (hop : op.isPrivate) (hawaits : b.awaitsIn lane site.turn) :
      Comes lane b (.perform site op) (.touch op)
  | perform {site : Site} {op : Op} (hop : op.isPrivate = false) :
      Comes lane b (.perform site op) (.perform site.connection op)
  | request {m : Move} {q : Roster.Request} (hm : m.isOutside)
      (hmove : b.move m = { b with roster := (b.roster.answer q).2 }) : Comes lane b m (.request q)

theorem comes_of_stimulus {x : Stimulus} (h : b.stimulus? lane m = some x) : Comes lane b m x := by
  cases m with
  | submit connection point p =>
    by_cases hboth : (connection, point) = lane ∧ p.belongsTo point
    · obtain ⟨rfl, hbelongs⟩ := hboth
      obtain rfl : x = .submit p := by simpa [stimulus?, hbelongs] using h.symm
      exact .submit hbelongs
    · simp [stimulus?, hboth] at h
  | perform site op =>
    cases hop : op.isPrivate with
    | true =>
      by_cases hawaits : b.awaitsIn lane site.turn
      · obtain rfl : x = .touch op := by simpa [stimulus?, hop, hawaits] using h.symm
        exact .touch hop hawaits
      · simp [stimulus?, hop, hawaits] at h
    | false =>
      obtain rfl : x = .perform site.connection op := by simpa [stimulus?, hop] using h.symm
      exact .perform hop
  | openConnection | track | untrack | letGo | add =>
    cases h
    exact .request rfl rfl
  | begin | wake | work | elapse | sweep | observeAliases => cases h

theorem move_submit {connection : Nat} {point : Point} {p : Packet} (hp : p.belongsTo point) :
    b.move (.submit connection point p) = { b with
      chains := b.chains + 1
      waiting := b.waiting ++ [{ number := b.chains, connection, point, supplied := p }] } := by
  simp only [Broker.move, Broker.submit, hp, if_true]

theorem Comes.isOutside {x : Stimulus} (h : Comes lane b m x) (hx : ∀ p, x ≠ .submit p) : m.isOutside := by
  cases h with
  | submit => exact absurd rfl (hx _)
  | touch | perform => rfl
  | request hm => exact hm

/-- Code outside takes no time, runs no chain and hands over no packet. -/
theorem outside_idles (hm : m.isOutside) (b : Broker) : (b.move m).now = b.now ∧ (b.move m).waiting = b.waiting ∧
    inputsIn (moveStory b m) = [] ∧ b.submits m = [] := by
  cases m with
  | perform site op =>
    have he : Effect none (fun _ => True) b (b.perform site op).2 := .perform trivial b op
    exact ⟨he.now, he.waiting, rfl, rfl⟩
  | openConnection | track | untrack | letGo | add => exact ⟨rfl, rfl, rfl, rfl⟩
  | submit | begin | wake | work | elapse | sweep | observeAliases => cases hm

theorem regular_outside (hm : m.isOutside) (hquiet : b.isQuietUntil b.now)
    (hown : ∀ place id point family respond, m = .add place id point family respond → ActsOnOwnOutput respond) :
    Regular b m := by
  constructor
  case prompt => exact fun hpasses => absurd (outside_idles hm b).1 hpasses
  case outside => exact fun _ => hquiet
  case own => exact hown
  case works | handed =>
    cases m <;> simp [Move.isOutside] at hm ⊢

end BrokerHooks.Broker
