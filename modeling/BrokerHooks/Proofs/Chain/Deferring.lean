import BrokerHooks.Proofs.Lane.Fate

namespace BrokerHooks

open Broker

/-- Asks for time, and leaves the rest to be done after a while. -/
def Program.later (timeout : Nat) (fallback : Fallback) (delay : Nat) (task : Program) : Program :=
  .perform (.defer timeout fallback) fun _ => .spawn delay task .done

def Program.finishing (e : Edit) : Program :=
  .perform (.call (.edit e)) fun _ => .perform .resume fun _ => .done

/-- Whatever becomes of the hook, at once or later, is what the interceptor makes of its input. -/
structure Hook.Decides (h : Hook) (x : Interceptor) (point : Point) (limits : PacketLimits) (maxTimeout : Nat) :
    Prop where
  extension : h.extension = x.extension
  decides : ∀ now input v,
    ((h.respond 0 input).playOn now (Turn.fresh point limits maxTimeout input.packet)).Leads now v →
      v.result input.packet = x.respond input

theorem Program.playOn_own {program : Program} {t t' : Turn} {cause : Option Cause}
    (h : program.own? t = some (cause, t')) (now : Nat) :
    (program.playOn now t).cause = cause ∧ (program.playOn now t).turn = t' ∧ (program.playOn now t).tasks = [] := by
  induction program generalizing t with
  | done | fail | crash =>
    cases h
    exact ⟨rfl, rfl, rfl⟩
  | perform op next ih =>
    unfold own? at h
    cases hop : op.own? t with
    | none => simp [hop] at h
    | some result =>
      obtain ⟨answer, t₁⟩ := result
      rw [hop] at h
      have hplay : op.playOn? now t = some (answer, t₁) := by
        cases op with
        | defer => cases hop
        | _ => exact hop
      simpa only [playOn, hplay] using ih answer h
  | spawn => cases h

section

variable {h : Hook} {x : Interceptor} {point : Point} {limits : PacketLimits} {maxTimeout : Nat}

theorem Hook.Implements.decides (himplements : h.Implements x point limits maxTimeout) :
    h.Decides x point limits maxTimeout where
  extension := himplements.extension
  decides now input v hleads := by
    obtain ⟨cause, t, hown, hresult⟩ := himplements.responds 0 input
    obtain ⟨hcause, hturn, -⟩ := Program.playOn_own hown now
    have hdeferral : t.deferral = .notRequested := own_deferral hown rfl
    rw [← hresult]
    cases hleads with
    | broke hbroke =>
      obtain rfl := hcause.symm.trans hbroke
      rfl
    | ended hnone hfate =>
      obtain rfl := hcause.symm.trans hnone
      have hpoll := (hturn ▸ hfate).of_settled (by simp [Turn.deadline?, hdeferral])
      simp only [Turn.poll, hdeferral] at hpoll
      cases hpoll
      rfl

/-- A hook that asks for time decides in the end, if it comes to it before its time is up. -/
theorem Hook.decides_editing {timeout delay : Nat} {fallback : Fallback} {e : Edit}
    (hr : ∀ n input, h.respond n input = .later timeout fallback delay (.finishing e))
    (hdelay : delay < min timeout maxTimeout) :
    h.Decides (.editing h.extension limits e) point limits maxTimeout where
  extension := rfl
  decides now input v hleads := by
    have htimeout : timeout ≠ 0 := by omega
    have hplayed : (h.respond 0 input).playOn now (Turn.fresh point limits maxTimeout input.packet) = {
        turn := { Turn.fresh point limits maxTimeout input.packet with
          deferral := .pending (now + min timeout maxTimeout) fallback }
        tasks := [(now + delay, .finishing e)] } := by
      rw [hr]
      simp [Program.later, Program.playOn, Op.playOn?, Turn.defer, Turn.fresh, htimeout, tryUpdate, Op.notes]
    -- The work lies before the deadline, so it is the one thing that can end the turn.
    rw [hplayed] at hleads
    cases hleads with
    | broke hbroke => cases hbroke
    | ended _ hfate =>
      obtain ⟨rfl, rfl⟩ := hfate.of_task rfl (Nat.le_add_right ..) (by omega) rfl
      rfl

end

namespace Broker

variable {c : Chain} {b b' : Broker}

theorem Visited.sleepers_lt {r : Ranked} {rest : List Ranked} {p : Packet} {ns : List Move} {v : Visit}
    (hv : Visited c r rest p b ns v b') (hlt : ∀ w ∈ b.sleepers, w.site.turn < b.turns.length)
    (h : Sound (proceed c (r :: rest) p b)) (hns : RegularRun (proceed c (r :: rest) p b) ns) :
    ∀ w ∈ b'.sleepers, w.site.turn < b'.turns.length := by
  have hserve : Effect (some c) (fun _ => False) b (b.serve c r p).2 := (Effect.serve b r p).1
  have hserved := hserve.sleepers_lt hlt nofun
  cases hv with
  | passedOver => exact hlt
  | broke hon hcall =>
    rwa [Broker.serve, if_pos hon, hcall] at hserved
  | atOnce hon hcall =>
    rwa [Broker.serve, if_pos hon, hcall] at hserved
  | @awaited completion turn b₁ b₂ ms before after hsus hplay _ hmem hends =>
    subst hplay
    rw [hsus.proceed_eq] at h hns
    have hlooked : Effect (some c) (· = b.turns.length) { b₁.play ms with suspended := before ++ after } _ :=
      .standing (by rfl) _
    refine hlooked.sleepers_lt (h.play (regularRun_append.1 hns).1).sleepers_lt ?_
    rintro t rfl
    obtain ⟨t₀, ht₀, -⟩ := hends
    exact (List.getElem?_eq_some_iff.1 ht₀).1

theorem Course.sleepers_lt {b₀ : Broker} {ms : List Move} {vs : List (Ranked × Visit)} {rest : List Ranked}
    (hcourse : Course c b₀ ms vs rest b) (hlt : ∀ w ∈ b₀.sleepers, w.site.turn < b₀.turns.length)
    (h : Sound (b₀.begin c)) (hms : RegularRun (b₀.begin c) ms) : ∀ w ∈ b.sleepers, w.site.turn < b.turns.length := by
  induction hcourse with
  | began => exact hlt
  | next hcourse hp hv ih =>
    obtain ⟨hms, hns⟩ := regularRun_append.1 hms
    have hsound := h.play hms
    rw [hcourse.play hp] at hsound hns
    exact hv.sleepers_lt (ih hms) hsound hns

end Broker

namespace Execution

variable {point : Point} {p : Packet} {e : Execution point p}

/-- All hooks act on their own output alone, time passes as it should, and code outside does nothing to the turns of
the lane. The chain's hooks stay enabled. -/
structure Undisturbed (e : Execution point p) : Prop where
  sound : Sound e.start
  regular : RegularRun e.start
    (.submit e.connection point p :: (e.queued ++ .begin e.chain.lane :: e.running))
  untouched : Untouched e.chain.lane (e.taken.begin e.chain) e.running
  enabled : ∀ ms, ms <+: e.running → ∀ r ∈ e.hooks,
    ((e.taken.begin e.chain).play ms).roster.isEnabled r.hook.extension

theorem Undisturbed.taken (h : e.Undisturbed) :
    Sound e.taken ∧ Sound (e.taken.begin e.chain) ∧ RegularRun (e.taken.begin e.chain) e.running := by
  obtain ⟨hsubmit, hrest⟩ := h.regular
  obtain ⟨hqueued, hbegin, hrunning⟩ := regularRun_append.1 hrest
  have hsound := (h.sound.move hsubmit).play hqueued
  have hbegun := hsound.move hbegin
  have hmove : ((e.start.move (.submit e.connection point p)).play e.queued).move (.begin e.chain.lane) = _ := e.heads.move
  obtain ⟨before, after, hw, hfirst, htaken⟩ := e.heads.head
  rw [hmove] at hbegun hrunning
  refine ⟨?_, hbegun, hrunning⟩
  rw [htaken]
  exact hsound.takes_waiting hw hfirst e.heads.free

/-- What becomes of a hook of the chain is what its code leads to. -/
theorem Undisturbed.leads (h : e.Undisturbed) {ms ns ms' : List Move} {vs : List (Ranked × Visit)} {r : Ranked}
    {rest : List Ranked} {q : Packet} {v : Visit} {b b' : Broker} (hms : e.running = ms ++ ns ++ ms')
    (hcourse : Course e.chain e.taken ms vs (r :: rest) b) (hq : foldVisits p vs = .ok q)
    (hv : Visited e.chain r rest q b ns v b') :
    ((r.hook.respond 0 (b.input e.chain q)).playOn b.now
      (Turn.fresh point e.taken.limits e.taken.maxTimeout q)).Leads b.now v := by
  obtain ⟨htaken, hbegun, hrunning⟩ := h.taken
  have huntouched := h.untouched
  rw [hms, List.append_assoc] at hrunning huntouched
  obtain ⟨hbefore, hrunning⟩ := regularRun_append.1 hrunning
  obtain ⟨-, huntouched⟩ := untouched_append.1 huntouched
  have hsound := hbegun.play hbefore
  have hsupplied : e.chain.supplied = p := congrArg Chain.supplied e.chain_eq
  have hpoint : e.chain.point = point := congrArg Chain.point e.chain_eq
  have hmem : r ∈ e.hooks := List.mem_of_getElem? (e.hooks_getElem? hcourse)
  have hown : OwnHooks (r :: rest) := fun x hx =>
    htaken.ordered e.chain.connection e.chain.point x (hcourse.hooks ▸ List.mem_append_right _ hx)
  have henabled := h.enabled ms ⟨ns ++ ms', by rw [hms, List.append_assoc]⟩ r hmem
  rw [← hsupplied] at hq
  rw [hcourse.play hq] at hrunning hsound huntouched henabled
  have hon : v.isInvoked := by
    cases hv with
    | passedOver hoff =>
      -- What the chain does now changes nothing of the roster.
      have hprivate : Private (some e.chain.lane) b (proceed e.chain (r :: rest) q b) := .proceed hown q b
      rw [hprivate.roster, hoff] at henabled
      cases henabled
    | broke | atOnce | awaited => rfl
  have hleads := hv.leads hon (hown r (List.mem_cons_self ..)) (hcourse.sleepers_lt htaken.sleepers_lt hbegun hbefore) hsound
    (regularRun_append.1 hrunning).1 (untouched_append.1 huntouched).1
  rwa [played, hpoint, (hcourse.settings hq).1, (hcourse.settings hq).2] at hleads

/-- A chain whose hooks decide what these interceptors decide, at once or later, runs over them. -/
theorem Undisturbed.over {xs : List Interceptor} (h : e.Undisturbed)
    (hdecides : List.Forall₂ (fun r x => r.hook.Decides x point e.taken.limits e.taken.maxTimeout) e.hooks xs) :
    e.Over xs where
  extensions := by
    rw [← List.forall₂_eq_eq_eq, List.forall₂_map_left_iff, List.forall₂_map_right_iff]
    exact hdecides.imp fun _ _ hd => hd.extension
  responds := by
    intro i input v hvisits x hx
    obtain ⟨ms, ns, ms', vs, r, rest, q, b, b', hms, hcourse, rfl, hq, hv, rfl⟩ := hvisits
    obtain ⟨hlt, rfl⟩ := List.getElem?_eq_some_iff.1 (e.hooks_getElem? hcourse)
    obtain ⟨hlt', rfl⟩ := List.getElem?_eq_some_iff.1 hx
    refine (hdecides.get hlt hlt').decides b.now (b.input e.chain q) v ?_
    rw [input_packet]
    exact h.leads hms hcourse hq hv

end Execution

namespace filtering

def removalLater : Program := .later 10 .failure 5 (.finishing untrace)

def hooks : List Ranked := [hook 0 removalLater, hook 1 refusal]

def traceless : Broker := filtering [removalLater, refusal]

theorem traceless_ordered : traceless.roster.ordered 0 .pubrecInbound = hooks :=
  ordered hooks rfl (by simp [hooks, hook, Ranked.precedes])

def submitted : Chain := (traceless.submit 0 .pubrecInbound traced).1

def taken : Broker := { (traceless.submit 0 .pubrecInbound traced).2 with waiting := [] }

theorem taken_begins :
    taken.begin submitted = proceed submitted hooks traced (taken.record (.began submitted)) :=
  begin_alone (by decide) traceless_ordered

theorem taken_heads : Heads submitted ((traceless.submit 0 .pubrecInbound traced).2.play []) taken :=
  ⟨List.forall_mem_nil _, [], [], rfl, List.forall_mem_nil _, rfl⟩

/-- Once the property has been removed, and the chain has been looked at again, the next hook refuses the PUBREC. -/
theorem taken_ends :
    refused traced untraced ∈ reportsOf submitted ((taken.begin submitted).play [.work 0, .wake 0]).journal ∧
      ((taken.begin submitted).play [.work 0, .wake 0]).roster.isClosed 0 = false := by
  rw [taken_begins]
  decide

def removingLaterThenRefusing : Execution .pubrecInbound traced where
  start := traceless
  connection := 0
  queued := []
  taken
  running := [.work 0, .wake 0]
  client := { clientId := "client", version := .v5 }
  report := refused traced untraced
  reachable := reachable [removalLater, refusal]
  belongs := rfl
  heads := taken_heads
  known := rfl
  reported := taken_ends.1
  opened := taken_ends.2

theorem removingLaterThenRefusing_hooks : removingLaterThenRefusing.hooks = hooks := traceless_ordered

theorem removingLaterThenRefusing_undisturbed : removingLaterThenRefusing.Undisturbed where
  sound := by
    refine (sound_ofConfig {} true).play ⟨regular_outside rfl rfl nofun, regular_outside rfl rfl nofun,
      regular_outside rfl rfl ?_, regular_outside rfl rfl ?_, trivial⟩
    · intro place id point family respond hm
      cases hm
      exact fun _ _ => ⟨rfl, rfl, fun _ => ⟨⟨rfl, fun _ => ⟨rfl, fun _ => trivial⟩⟩, trivial⟩⟩
    · intro place id point family respond hm
      cases hm
      exact fun _ _ => ⟨rfl, trivial⟩
  regular := by
    have hbegin : (removingLaterThenRefusing.start.move
        (.submit removingLaterThenRefusing.connection .pubrecInbound traced)).move
          (.begin removingLaterThenRefusing.chain.lane) = _ :=
      removingLaterThenRefusing.heads.move.trans taken_begins
    refine ⟨regular_submit rfl _ _, regular_begin _ _, ?_⟩
    rw [hbegin]
    refine ⟨regular_work rfl rfl ?_ (List.forall_mem_nil _) ?_, regular_wake _ _, trivial⟩
    · exact List.forall_mem_singleton.2 (Nat.le_refl _)
    · refine List.forall_mem_singleton.2 fun d hd => ?_
      cases hd
      decide
  untouched := by simp [Untouched, removingLaterThenRefusing, Broker.stimuli, stimulus?]
  enabled := by
    intro ms hms
    have hbegin : removingLaterThenRefusing.taken.begin removingLaterThenRefusing.chain = _ := taken_begins
    rw [removingLaterThenRefusing_hooks, hbegin]
    simp only [removingLaterThenRefusing, List.prefix_cons_iff, List.prefix_nil] at hms
    obtain rfl | ⟨_, rfl, rfl | ⟨_, rfl, rfl⟩⟩ := hms <;> decide

theorem removingLaterThenRefusing_over : removingLaterThenRefusing.Over [remove, refuse] := by
  refine removingLaterThenRefusing_undisturbed.over ?_
  rw [removingLaterThenRefusing_hooks]
  exact .cons (Hook.decides_editing (fun _ _ => rfl) (by decide))
    (.cons (Hook.implements_refusing fun _ _ => rfl).decides .nil)

end filtering
end BrokerHooks
