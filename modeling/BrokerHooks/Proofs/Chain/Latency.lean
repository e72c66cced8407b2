import BrokerHooks.Proofs.Chain.Execution
import BrokerHooks.Proofs.Chain.Replay
import BrokerHooks.Proofs.Chain.Settling
import BrokerHooks.Proofs.Run.Turns
import BrokerHooks.Proofs.Turn.Deadline
import BrokerHooks.Proofs.Turn.Waiter

namespace BrokerHooks.Broker

section

variable {b : Broker} {s : Suspended} {t : Turn} {deadline : Nat} {fallback : Fallback} {rs : List Nat}

theorem timely_elapse (hs : s ∈ b.suspended) (ht : b.turn? s.turn = some t)
    (h : t.deferral.Timely deadline fallback b.now rs) {m : Move} (hm : Punctual b m) :
    t.deferral.Timely deadline fallback (b.move m).now rs := by
  by_cases hnow : (b.move m).now = b.now
  · rwa [hnow]
  obtain ⟨hready, hdue⟩ := hm hnow s hs
  obtain ⟨d, f, hd, hdeadline, -⟩ := pending_of_not_ready ht hready
  rw [hd] at h ⊢
  cases h with
  | pending h => exact .pending (hdue _ hdeadline)

/-- Through a punctual run a request of a suspended chain is met in time. -/
theorem timely_play (ho : Orderly b) (hs : s ∈ b.suspended) (ht : b.turn? s.turn = some t)
    (h : t.deferral.Timely deadline fallback b.now rs) {ms : List Move} (hms : PunctualRun b ms)
    (hsilent : Silent s.chain b (b.play ms)) :
    (t.after (historyOf s.turn (b.story ms))).deferral.Timely deadline fallback (b.play ms).now
      (rs ++ t.resumptions (historyOf s.turn (b.story ms))) := by
  -- As nothing is told of it, the chain stays suspended on this turn from move to move.
  induction ms generalizing b t rs with
  | nil => simpa [story, historyOf, Turn.resumptions] using h
  | cons m ms ih =>
    obtain ⟨hm, hms⟩ := hms
    have hwalk := move_walk b m
    obtain ⟨hquiet, hquiet'⟩ := hsilent.of_prefix hwalk.journal (story_walk (b.move m) ms).journal
    have htimes : ∀ a ∈ historyOf s.turn (moveStory b m), a.1 = (b.move m).now := by
      intro a ha
      obtain ⟨d, hd, hnow⟩ := time_of_mem_historyOf ha
      rw [← hnow]
      exact moveStory_times b m d hd
    have hmoved := Turn.timely_after (timely_elapse hs ht h hm) htimes
    rw [story, historyOf_append, Turn.after_append, Turn.resumptions_append, ← List.append_assoc]
    exact ih (ho.move m) (ho.stays hs m hquiet) (hwalk.turn?_eq ht) hmoved hms hquiet'

end

def ownHistory (b : Broker) (c : Chain) (r : Ranked) (p : Packet) : List (Nat × Turn.Act) :=
  historyOf b.turns.length (callbackStory b c r.hook p)

/-- What is done to the turn of a hook while it is served and by the moves after that. -/
def turnHistory (b : Broker) (c : Chain) (r : Ranked) (rest : List Ranked) (p : Packet) (ms : List Move) :
    List (Nat × Turn.Act) :=
  historyOf b.turns.length (serveStory b c r p ++ (proceed c (r :: rest) p b).story ms)

/-- A visit takes no time, unless the hook's code returns having asked for time. Then the hook's turn ends
when a resumption takes effect, which is before the deadline is handled, or at the deadline if none does.
The last move is the look at which the turn is seen to have ended. -/
def OnTime (maxTimeout : Nat) (c : Chain) (r : Ranked) (rest : List Ranked) (p : Packet) (b : Broker)
    (ns : List Move) (v : Visit) (b' : Broker) : Prop :=
  match v with
  | .passedOver | .broke _ => b'.now = b.now
  | .ended completion _ =>
    match Turn.request? (b.ownHistory c r p) with
    | none => completion = .immediate ∧ b'.now = b.now
    | some (time, timeout, fallback) =>
      let deadline := time + min timeout maxTimeout
      let resumptions := (Turn.fresh c.point b.limits maxTimeout p).resumptions
        (b.turnHistory c r rest p ns.dropLast)
      time = b.now ∧
        ((resumptions = [b'.now] ∧ b'.now ≤ deadline ∧ completion = .resumed) ∨
          (resumptions = [] ∧ b'.now = deadline ∧ completion = .timedOut fallback))

theorem callback_now (b : Broker) (c : Chain) (h : Hook) (p : Packet) : (b.callback c h p).2.now = b.now := by
  have he : Effect (some c) (fun _ => False) b (b.callback c h p).2 := (Effect.callback b h p).1
  exact he.now

theorem standing_now (b : Broker) (c : Chain) (turn : Nat) : (b.standing c turn).2.now = b.now := by
  have he : Effect (some c) (fun _ => True) b (b.standing c turn).2 := .standing trivial b
  exact he.now

theorem callback_turn? (b : Broker) (c : Chain) (r : Ranked) (p : Packet) :
    (b.callback c r.hook p).2.turn? b.turns.length =
      some ((Turn.fresh c.point b.limits b.maxTimeout p).after (b.ownHistory c r p)) :=
  (code_walk _ _ (b.invited c r.hook p)).turn?_eq (invited_turn? b c r.hook p)

theorem ownHistory_times (b : Broker) (c : Chain) (r : Ranked) (p : Packet) :
    ∀ a ∈ b.ownHistory c r p, a.1 = b.now := by
  intro a ha
  obtain ⟨d, hd, hnow⟩ := time_of_mem_historyOf ha
  rw [← hnow]
  exact (callback_walk b c r.hook p).times_eq (callback_now b c r.hook p) d hd

/-- The executor's look follows what the code did, and resumes nothing. -/
theorem resumptions_turnHistory {b b' : Broker} {c : Chain} {r : Ranked} {p : Packet}
    (hon : b.roster.isEnabled r.hook.extension) (hcall : b.callback c r.hook p = (none, b'))
    (rest : List Ranked) (ms : List Move) (t : Turn) :
    t.resumptions (b.turnHistory c r rest p ms) = t.resumptions (b.ownHistory c r p) ++
      ((t.after (b.ownHistory c r p)).act b.now .poll).resumptions
        (historyOf b.turns.length ((proceed c (r :: rest) p b).story ms)) := by
  have hnow := callback_now b c r.hook p
  rw [hcall] at hnow
  simp only at hnow
  have hlook : historyOf b.turns.length (serveStory b c r p) = b.ownHistory c r p ++ [(b.now, .poll)] := by
    rw [serveStory, if_pos hon, hcall, historyOf_append]
    simp [ownHistory, historyOf, Deed.act?, hnow]
  rw [turnHistory, historyOf_append, hlook, List.append_assoc, Turn.resumptions_append]
  rfl

section

variable {c : Chain} {r : Ranked} {rest : List Ranked} {p : Packet} {b b' : Broker}

theorem Suspends.turn? (h : Suspends c r rest p b b') :
    b'.turn? b.turns.length =
      some (((Turn.fresh c.point b.limits b.maxTimeout p).after (b.ownHistory c r p)).act b.now .poll) := by
  obtain ⟨b₁, b₂, hcall, hstanding, rfl⟩ := h.suspends
  have hturn := callback_turn? b c r p
  have hnow := callback_now b c r.hook p
  rw [hcall] at hturn hnow
  have hlooked := standing_turn? hturn c b.turns.length
  rw [hstanding] at hlooked
  simp only at hnow
  simp only [Deed.act?, hnow] at hlooked
  exact hlooked

theorem Suspends.now (h : Suspends c r rest p b b') : b'.now = b.now := by
  obtain ⟨b₁, hserve, rfl⟩ := h.serve
  have he : Effect (some c) (fun _ => False) b b₁ := (Effect.of_serve hserve).1
  exact he.now

theorem Suspends.mem (h : Suspends c r rest p b b') : b.suspension c r rest p ∈ b'.suspended := by
  obtain ⟨b₁, -, rfl⟩ := h.serve
  exact List.mem_append_right _ (List.mem_singleton_self _)

theorem Suspends.requested (h : Suspends c r rest p b b') :
    ((Turn.fresh c.point b.limits b.maxTimeout p).after (b.ownHistory c r p)).deferral ≠ .notRequested := by
  obtain ⟨b₁, b₂, hcall, hstanding, -⟩ := h.suspends
  have hturn := callback_turn? b c r p
  rw [hcall] at hturn
  intro hnot
  rcases standing_cases b₁ c b.turns.length with ⟨-, -, hnone⟩ | ⟨completion, turn, -, hst⟩
  · exact hnone _ _ ⟨_, hturn, Turn.poll_of_notRequested hnot b₁.now⟩
  · rw [hstanding] at hst
    exact standingOf_ne_pending turn completion hst.symm

/-- The loop that waits for the hook that is served in `b`, after the moves. -/
def waiter (b : Broker) (c : Chain) (r : Ranked) (rest : List Ranked) (p : Packet) (ms : List Move) : Waiter :=
  let returned := (Turn.fresh c.point b.limits b.maxTimeout p).after (b.ownHistory c r p)
  ((Waiter.start returned).look b.now).after
    (historyOf b.turns.length ((proceed c (r :: rest) p b).story ms))

/-- The scheduler finds a suspended chain ready exactly when its loop can run. -/
theorem Suspends.isReady_eq (h : Suspends c r rest p b b') (ms : List Move) :
    (b'.play ms).isReady (b.suspension c r rest p) =
      (b.waiter c r rest p ms).canRun (b'.play ms).now := by
  have hturn : (b'.play ms).turn? (b.suspension c r rest p).turn = _ := (story_walk b' ms).turn?_eq h.turn?
  unfold isReady waiter
  rw [hturn, Waiter.canRun_after h.requested, h.proceed_eq]
  rfl

/-- As long as a chain is suspended and the clock waits for it, the request of its hook is not left past
its deadline. -/
theorem Suspends.timely (h : Suspends c r rest p b b') (ho : Orderly b') {ms : List Move}
    (hms : PunctualRun b' ms) (hsilent : Silent c b' (b'.play ms)) :
    ∃ timeout fallback t, Turn.request? (b.ownHistory c r p) = some (b.now, timeout, fallback) ∧
      (b'.play ms).turn? b.turns.length = some t ∧
      t.deferral.Timely (b.now + min timeout b.maxTimeout) fallback (b'.play ms).now
        ((Turn.fresh c.point b.limits b.maxTimeout p).resumptions (b.turnHistory c r rest p ms)) := by
  obtain ⟨b₁, -, hcall, -⟩ := h.suspends
  have hcases := Turn.request_cases (t := .fresh c.point b.limits b.maxTimeout p) rfl
    (b.ownHistory_times c r p)
  rcases hcases with ⟨-, hnot, -⟩ | ⟨timeout, fallback, hrequest, htimely⟩
  · exact absurd hnot h.requested
  refine ⟨timeout, fallback, _, hrequest, (story_walk b' ms).turn?_eq h.turn?, ?_⟩
  rw [resumptions_turnHistory h.enabled hcall, h.proceed_eq]
  -- The executor's first look resumes nothing, and from it on the clock waits.
  have hlooked := Turn.timely_act htimely .poll
  simp only [Turn.resumption, List.append_nil] at hlooked
  exact timely_play ho h.mem h.turn? (by rw [h.now]; exact hlooked) hms hsilent

theorem Suspends.now_le (h : Suspends c r rest p b b') (ho : Orderly b') {ms : List Move}
    (hms : PunctualRun b' ms) (hsilent : Silent c b' (b'.play ms)) :
    (b'.play ms).now ≤ b.now + b.maxTimeout := by
  obtain ⟨timeout, fallback, t, -, -, htimely⟩ := h.timely ho hms hsilent
  have hle := htimely.now_le
  omega

theorem Visited.onTime {ns : List Move} {v : Visit} (h : Visited c r rest p b ns v b')
    (ho : Orderly (proceed c (r :: rest) p b)) (hns : PunctualRun (proceed c (r :: rest) p b) ns) :
    OnTime b.maxTimeout c r rest p b ns v b' := by
  have hnow := callback_now b c r.hook p
  cases h with
  | passedOver => rfl
  | broke hon hcall =>
    rw [hcall] at hnow
    exact (meter_now ..).trans hnow
  | @atOnce completion turn b₁ hon hcall hends =>
    -- A turn that ends before its code returns was resumed by it, or not deferred at all.
    have hturn := callback_turn? b c r p
    have hcases := Turn.request_cases (t := .fresh c.point b.limits b.maxTimeout p) rfl
      (b.ownHistory_times c r p)
    have hmax : (Turn.fresh c.point b.limits b.maxTimeout p).maxTimeout = b.maxTimeout := rfl
    rw [hmax] at hcases
    rw [hcall] at hturn hnow
    simp only at hnow
    obtain ⟨t₀, ht₀, hpoll⟩ := hends
    obtain rfl := Option.some.inj (ht₀.symm.trans hturn)
    unfold OnTime
    simp only [standing_now, hnow]
    rcases hcases with ⟨hrequest, hnot, -⟩ | ⟨timeout, fallback, hrequest, htimely⟩ <;> rw [hrequest]
    · rw [Turn.poll_of_notRequested hnot] at hpoll
      cases hpoll
      exact ⟨rfl, trivial⟩
    · rw [hnow] at hpoll
      refine ⟨rfl, ?_⟩
      simp only [resumptions_turnHistory hon hcall]
      exact Turn.timely_poll (by simpa [story, historyOf, Turn.resumptions] using htimely) hpoll
  | @awaited completion turn b₁ b₂ ms before after hsus hplay hsilent hmem hends =>
    subst hplay
    obtain ⟨t₀, ht₀, hpoll⟩ := hends
    rw [hsus.proceed_eq] at ho hns
    obtain ⟨timeout, fallback, t, hrequest, ht, htimely⟩ :=
      hsus.timely ho (punctualRun_append.1 hns).1 hsilent
    obtain rfl := Option.some.inj (ht₀.symm.trans ht)
    unfold OnTime
    simp only [standing_now, hrequest, List.dropLast_concat]
    exact ⟨trivial, Turn.timely_poll htimely hpoll⟩

theorem OnTime.now_le {maxTimeout : Nat} {ns : List Move} {v : Visit}
    (h : OnTime maxTimeout c r rest p b ns v b') :
    b'.now ≤ b.now + if v.isInvoked then maxTimeout else 0 := by
  cases v with
  | passedOver | broke =>
    have hnow : b'.now = b.now := h
    omega
  | ended completion turn =>
    unfold OnTime at h
    simp only [Visit.isInvoked, if_true]
    cases hrequest : Turn.request? (b.ownHistory c r p) with
    | none =>
      simp only [hrequest] at h
      omega
    | some request =>
      obtain ⟨time, timeout, fallback⟩ := request
      simp only [hrequest] at h
      omega

end

section

variable {c : Chain} {b₀ b : Broker} {ms : List Move} {vs : List (Ranked × Visit)} {rest : List Ranked}

theorem Course.settings (h : Course c b₀ ms vs rest b) {p : Packet} (hp : foldVisits c.supplied vs = .ok p) :
    b.limits = b₀.limits ∧ b.maxTimeout = b₀.maxTimeout := by
  have hbegan := (begin_walk b₀ c).append (story_walk (b₀.begin c) ms)
  have hproceeds := proceed_walk c rest p b
  rw [h.play hp] at hbegan
  exact ⟨hproceeds.limits.symm.trans hbegan.limits, hproceeds.maxTimeout.symm.trans hbegan.maxTimeout⟩

theorem Course.now_le (h : Course c b₀ ms vs rest b) (ho : Orderly (b₀.begin c))
    (hms : PunctualRun (b₀.begin c) ms) :
    b.now ≤ b₀.now + (handed c.supplied vs).length * b₀.maxTimeout := by
  induction h with
  | began => exact Nat.le_add_right _ _
  | @next ms ns vs r rest p v b b' h hp hv ih =>
    obtain ⟨hms, hns⟩ := punctualRun_append.1 hms
    have hproceeds := h.play hp
    have hle := (hv.onTime (hproceeds ▸ ho.play ms) (hproceeds ▸ hns)).now_le
    have hbefore := ih hms
    rw [(h.settings hp).2] at hle
    rw [handed_concat hp, List.length_append, Nat.add_mul]
    -- A hook that is passed over is not counted, and takes no time.
    by_cases hinvoked : v.isInvoked
    · rw [if_pos hinvoked] at hle ⊢
      rw [List.length_singleton]
      omega
    · rw [if_neg hinvoked] at hle ⊢
      rw [List.length_nil]
      omega

end

/-- Since the chain was taken out of its lane in `b₀`, no more time passes until its report than the longest
timeout for each hook that it has invoked. -/
def InTime (maxTimeout : Nat) (c : Chain) (b₀ b : Broker) : Prop :=
  let limit := b₀.now + (invocationsOf c b.journal).length * maxTimeout
  (Reported c b.journal ∨ b.now ≤ limit) ∧
    ∀ e ∈ b.journal, ∀ report, e.event = .reported c report → e.time ≤ limit

theorem Stage.inTime {c : Chain} {b₀ b : Broker} {ms : List Move} (h : Stage c b₀ ms b)
    (hb₀ : told c b₀.journal = []) (ho : Orderly (b₀.begin c)) (hms : PunctualRun (b₀.begin c) ms) :
    InTime b₀.maxTimeout c b₀ b := by
  cases h with
  | @suspended ms₁ ns vs r rest p b₁ b₂ _ h hp hsus hplay hsilent hmem hsplit =>
    obtain ⟨hinvoked, hreports⟩ := ((h.tells.trans hsus.tells).trans hsilent.tells).of_untold hb₀
    subst hplay hsplit
    obtain ⟨hms₁, hns⟩ := punctualRun_append.1 hms
    have hproceeds : (b₀.begin c).play ms₁ = b₂ := (h.play hp).trans hsus.proceed_eq
    rw [hproceeds] at hns
    refine ⟨.inr ?_, fun e he report hreport => ?_⟩
    -- The hook that the chain waits for is the last that it invoked.
    · have hbefore := h.now_le ho hms₁
      have hsince := hsus.now_le (hproceeds ▸ ho.play ms₁) hns hsilent
      rw [(h.settings hp).2] at hsince
      rw [hinvoked, List.append_nil, List.length_append, List.length_singleton, Nat.add_mul]
      omega
    · have hmem := mem_reportsOf he hreport
      simp [hreports] at hmem
  | @reported ms₁ ns vs rest b₁ _ h hend hplay hsilent hsplit =>
    obtain ⟨hinvoked, hreports⟩ := h.tells.of_untold hb₀
    obtain ⟨new, hj, hnew⟩ := hsilent
    rw [report_journal] at hj
    have hlen : (handed c.supplied vs).length ≤ (invocationsOf c b.journal).length := by
      rw [hj, List.append_assoc, invocationsOf_append, hinvoked, List.length_append]
      omega
    refine ⟨.inl ?_, fun e he report hreport => ?_⟩
    · rw [hj]
      exact ⟨_, List.mem_append_left _ (List.mem_append_right _ (List.mem_singleton_self _)), _, rfl⟩
    -- The report is neither among what was told before it nor among what was told afterwards.
    rw [hj] at he
    rcases List.mem_append.1 he with he | he
    · rcases List.mem_append.1 he with he | he
      · have hmem := mem_reportsOf he hreport
        simp [hreports] at hmem
      · obtain rfl := List.mem_singleton.1 he
        have hnow := h.now_le ho (punctualRun_append.1 (hsplit ▸ hms)).1
        exact hnow.trans (Nat.add_le_add_left (Nat.mul_le_mul_right _ hlen) _)
    · exact absurd (by rw [hreport]; rfl) (hnew e he)

namespace Heads

variable {c : Chain} {b b₀ : Broker}

theorem mem_waiting (h : Heads c b b₀) : c ∈ b.waiting := by
  obtain ⟨before, after, hwaiting, -, -⟩ := h.head
  simp [hwaiting]

theorem maxTimeout (h : Heads c b b₀) : b₀.maxTimeout = b.maxTimeout := by
  obtain ⟨before, after, -, -, rfl⟩ := h.head
  rfl

theorem untold (h : Heads c b b₀) (ho : Orderly b) : told c b₀.journal = [] := by
  have hnone := ho.untold h.mem_waiting
  obtain ⟨before, after, -, -, rfl⟩ := h.head
  exact hnone

theorem orderly (h : Heads c b b₀) (ho : Orderly b) : Orderly (b₀.begin c) :=
  h.move ▸ ho.move (.begin c.lane)

theorem stage (h : Heads c b b₀) (ho : Orderly b) (ms : List Move) :
    Stage c b₀ ms ((b₀.begin c).play ms) := by
  have hstage := (stage_begin b₀ c).play (h.orderly ho) ms
  rwa [List.nil_append] at hstage

theorem inTime (h : Heads c b b₀) (ho : Orderly b) {ms : List Move} (hms : PunctualRun (b₀.begin c) ms) :
    InTime b.maxTimeout c b₀ ((b₀.begin c).play ms) := by
  rw [← h.maxTimeout]
  exact (h.stage ho ms).inTime (h.untold ho) (h.orderly ho) hms

end Heads

/-- In every run in which the clock waits for the chains, the course of a chain that has begun is a fold of
visits, and each of them is on time. The chain is found ready exactly when the loop that waits for its hook
can run, and no more time passes until its report than the longest timeout for each hook that it has invoked.
The scheduler brings every such run to the chain's report, in time as well. -/
theorem chains_end_in_time (config : Config) (metered : Bool) (before : List Move) {c : Chain} {b₀ : Broker}
    (hheads : Heads c ((ofConfig config metered).play before) b₀) {ms : List Move}
    (hms : PunctualRun (b₀.begin c) ms) :
    let maxTimeout := (ofConfig config metered).maxTimeout
    let b := (b₀.begin c).play ms
    RefinesFold c b₀ ms b ∧
      (∀ ms₁ ns ms₂ vs r rest p b₁ b₂, ms = ms₁ ++ ns ++ ms₂ → Course c b₀ ms₁ vs (r :: rest) b₁ →
        foldVisits c.supplied vs = .ok p →
          (∀ v, Visited c r rest p b₁ ns v b₂ → OnTime maxTimeout c r rest p b₁ ns v b₂) ∧
          (Suspends c r rest p b₁ b₂ → (b₂.play ns).isReady (b₁.suspension c r rest p) =
            (b₁.waiter c r rest p ns).canRun (b₂.play ns).now)) ∧
      InTime maxTimeout c b₀ b ∧
      ∃ fuel, ∀ more, Reported c (b.settle (fun _ => false) (fuel + more)).journal ∧
        InTime maxTimeout c b₀ (b.settle (fun _ => false) (fuel + more)) := by
  intro maxTimeout b
  have ho : Orderly ((ofConfig config metered).play before) := (orderly_ofConfig config metered).play before
  have hg : Grounded ((ofConfig config metered).play before) := (grounded_ofConfig config metered).play before
  have ho' : Orderly (b₀.begin c) := hheads.orderly ho
  have hg' : Grounded (b₀.begin c) := hheads.move ▸ hg.move (.begin c.lane)
  have hholds : (b₀.begin c).Holds c :=
    hheads.move ▸ Holds.move (.inl hheads.mem_waiting) ho (.begin c.lane)
  have hmax : ((ofConfig config metered).play before).maxTimeout = maxTimeout :=
    (story_walk _ before).maxTimeout
  have hinTime {ns : List Move} (hns : PunctualRun (b₀.begin c) ns) :
      InTime maxTimeout c b₀ ((b₀.begin c).play ns) := hmax ▸ hheads.inTime ho hns
  refine ⟨(hheads.stage ho ms).refinesFold (hheads.untold ho), ?_, hinTime hms, ?_⟩
  · intro ms₁ ns ms₂ vs r rest p b₁ b₂ hsplit h hp
    refine ⟨fun v hv => ?_, fun hsus => hsus.isReady_eq ns⟩
    rw [hsplit] at hms
    obtain ⟨hms₁, hns⟩ := punctualRun_append.1 (punctualRun_append.1 hms).1
    rw [h.play hp] at hns
    have hontime := hv.onTime (h.play hp ▸ ho'.play ms₁) hns
    rwa [(h.settings hp).2, hheads.maxTimeout, hmax] at hontime
  · -- The scheduler's run from here is punctual too, so the whole run is.
    obtain ⟨fuel, hreported⟩ := (hholds.play ho' ms).settles (ho'.play ms) (hg'.play ms) (fun _ => false)
      (by simp)
    refine ⟨fuel, fun more => ⟨hreported more, ?_⟩⟩
    obtain ⟨ms', heq, hms'⟩ := settle_scheduled (fun _ => false) (fuel + more) b
    rw [heq, ← play_append]
    exact hinTime (punctualRun_append.2 ⟨hms, hms'.punctual⟩)

theorem deferred_pingreq_in_time :
    let b := (ofConfig {} true).play (deferringMoves ++ [.submit 0 .pingreqInbound (.ping .request)])
    let c := deferredPingreq 0
    let b₀ : Broker := { b with waiting := [] }
    Heads c b b₀ ∧ PunctualRun (b₀.begin c) [.elapse 10, .wake 0] ∧
      InTime (ofConfig {} true).maxTimeout c b₀ ((b₀.begin c).play [.elapse 10, .wake 0]) := by
  intro b c b₀
  have hheads : Heads c b b₀ := ⟨List.forall_mem_nil _, [], [], rfl, List.forall_mem_nil _, rfl⟩
  have hbegin : b₀.begin c = proceed c [slow] (.ping .request) (b₀.record (.began c)) :=
    hheads.move.symm.trans (deferring_begins (b := b) rfl rfl rfl)
  have hms : PunctualRun (b₀.begin c) [.elapse 10, .wake 0] := by
    rw [hbegin]
    refine ⟨fun _ s hs => ?_, fun hnow => absurd rfl hnow, trivial⟩
    obtain rfl := List.mem_singleton.1 hs
    refine ⟨rfl, fun d hd => ?_⟩
    cases hd
    decide
  exact ⟨hheads, hms, (chains_end_in_time {} true _ hheads hms).2.2.1⟩

end BrokerHooks.Broker
