import BrokerHooks.Proofs.Chain.Execution
import BrokerHooks.Proofs.Late.Chain
import BrokerHooks.Proofs.Run.Pauses

namespace BrokerHooks

/-- The moves that both runs make alike: none of them runs code that was left behind, brings new code or
depends on what is still referred to. -/
def Move.isShared : Move → Bool
  | .work _ | .add .. | .sweep => false
  | _ => true

namespace Broker

theorem Agrees.refl (b : Broker) : Agrees b b where
  limits := rfl
  maxTimeout := rfl
  metered := rfl
  now := rfl
  limiter := rfl
  metrics := rfl
  chains := rfl
  waiting := rfl
  roster := .refl b.roster
  chronicle := rfl
  suspended := List.forall₂_same.2 fun _ _ =>
    ⟨rfl, rfl, rfl, rfl, List.forall₂_same.2 fun x _ => .refl x⟩
  turns_length := rfl
  turn? := fun _ _ => rfl
  awaited := fun s hs => ⟨s, hs, rfl⟩

/-- The same connections are referred to, of those that are not released. -/
def SameReferences (b b' : Broker) : Prop :=
  ∀ c, b.roster.isReleased c = false → b'.refersTo c = b.refersTo c

namespace AgreesOn

variable {live : Nat → Prop} {b b' : Broker}

theorem isFree (h : AgreesOn live b b') (lane : Nat × Point) : b'.isFree lane = b.isFree lane := by
  have hall {xs ys : List Suspended} (hsame : List.Forall₂ Suspended.Agrees xs ys) :
      ys.all (·.chain.lane ≠ lane) = xs.all (·.chain.lane ≠ lane) := by
    induction hsame with
    | nil => rfl
    | cons hs _ ih => rw [List.all_cons, List.all_cons, ih, hs.chain]
  exact hall h.suspended

theorem submit (h : AgreesOn live b b') (connection : Nat) (point : Point) (p : Packet) :
    AgreesOn live (b.submit connection point p).2 (b'.submit connection point p).2 := by
  unfold Broker.submit
  simp only [h.chains]
  have hcounted : AgreesOn live { b with chains := b.chains + 1 } { b' with chains := b.chains + 1 } :=
    { h with chains := rfl }
  split
  · exact { hcounted with waiting := congrArg (· ++ [_]) h.waiting }
  · exact hcounted.record _

end AgreesOn

namespace Agrees

variable {b b' : Broker}

theorem begins (h : Agrees b b') (lane : Nat × Point) :
    Agrees (b.move (.begin lane)) (b'.move (.begin lane)) ∧
      inputsIn (moveStory b' (.begin lane)) = inputsIn (moveStory b (.begin lane)) := by
  simp only [Broker.move, moveStory, h.isFree, h.waiting]
  split
  · cases takeFirst? (fun c => decide (c.lane = lane)) b.waiting with
    | none => exact ⟨h, rfl⟩
    | some found =>
      have hrest : Agrees { b with waiting := found.2 } { b' with waiting := found.2 } :=
        { h with waiting := rfl }
      exact hrest.begin found.1
  · exact ⟨h, rfl⟩

theorem wakes (h : Agrees b b') (i : Nat) :
    Agrees (b.move (.wake i)) (b'.move (.wake i)) ∧
      inputsIn (moveStory b' (.wake i)) = inputsIn (moveStory b (.wake i)) := by
  have hi := forall₂_getElem? h.suspended i
  simp only [Broker.move, moveStory]
  cases hs : b.suspended[i]? with
  | none =>
    rw [hs] at hi
    cases hi' : b'.suspended[i]? with
    | none => exact ⟨h, rfl⟩
    | some s' => rw [hi'] at hi; cases hi
  | some s =>
    rw [hs] at hi
    cases hi' : b'.suspended[i]? with
    | none => rw [hi'] at hi; cases hi
    | some s' =>
      rw [hi'] at hi
      cases hi with
      | some hagrees =>
        have hrest : AgreesOn b.Awaits { b with suspended := b.suspended.eraseIdx i }
            { b' with suspended := b'.suspended.eraseIdx i } :=
          { h with
            suspended := forall₂_eraseIdx h.suspended i
            awaited := fun s hs => h.awaited s (List.mem_of_mem_eraseIdx hs) }
        exact hrest.wake hagrees ⟨s, List.mem_of_getElem? hs, rfl⟩

theorem move (h : Agrees b b') {m : Move} (hm : m.isShared) :
    Agrees (b.move m) (b'.move m) ∧ inputsIn (moveStory b' m) = inputsIn (moveStory b m) := by
  have hask (q : Roster.Request) : Agrees { b with roster := (b.roster.answer q).2 }
      { b' with roster := (b'.roster.answer q).2 } := h.setRoster (h.roster.answer (.same q))
  cases m with
  | work | add | sweep => cases hm
  | submit connection point p => exact ⟨(h.submit connection point p).agrees, rfl⟩
  | begin lane => exact h.begins lane
  | wake i => exact h.wakes i
  | elapse time => exact ⟨{ h with now := congrArg (max · time) h.now }, rfl⟩
  | perform site op => exact ⟨(h.perform site op).1.agrees, rfl⟩
  | openConnection clientId version aliasMaximum =>
    exact ⟨hask (.openConnection clientId version aliasMaximum), rfl⟩
  | track c => exact ⟨hask (.track c), rfl⟩
  | untrack clientId => exact ⟨hask (.untrack clientId), rfl⟩
  | letGo c => exact ⟨hask (.letGo c), rfl⟩
  | observeAliases =>
    refine ⟨{ h with metrics := ?_ }, rfl⟩
    simp only [Broker.move, h.roster.aliases, h.metrics]

theorem add (h : Agrees b b') (place : Roster.Place) (id : String) (point : Point) (family : Family)
    {respond respond' : Nat → Input → Program}
    (hcode : ∀ n input, (respond n input).Agrees False (respond' n input)) :
    Agrees (b.move (.add place id point family respond)) (b'.move (.add place id point family respond')) :=
  h.setRoster (h.roster.answer (.add hcode))

/-- Work that agrees, or agrees but for what it does too late, leads to brokers that agree. -/
theorem work (h : Agrees b b') {i j : Nat} {s s' : Sleeper} (hs : b.sleepers[i]? = some s)
    (hs' : b'.sleepers[j]? = some s') (hdue : s'.due = s.due) (hsite : s'.site = s.site)
    (hcode : s.program.Agrees (¬b.Awaits s.site.turn) s'.program) :
    Agrees (b.move (.work i)) (b'.move (.work j)) := by
  simp only [Broker.move, hs, hs']
  unfold runSleeper
  rw [hdue, hsite]
  have helapsed : AgreesOn b.Awaits { b with now := max b.now s.due, sleepers := b.sleepers.eraseIdx i }
      { b' with now := max b'.now s.due, sleepers := b'.sleepers.eraseIdx j } :=
    { h with now := congrArg (max · s.due) h.now }
  exact (AgreesOn.run Iff.rfl hcode helapsed).1.agrees

/-- Work in one run alone does nothing but let time pass. -/
theorem work_left (h : Agrees b b') {i : Nat} {s : Sleeper} (hs : b.sleepers[i]? = some s)
    (hcode : s.program.Agrees (¬b.Awaits s.site.turn) .done) :
    Agrees (b.move (.work i)) (b'.move (.elapse s.due)) := by
  simp only [Broker.move, hs]
  unfold runSleeper
  have helapsed : AgreesOn b.Awaits { b with now := max b.now s.due, sleepers := b.sleepers.eraseIdx i }
      { b' with now := max b'.now s.due } := { h with now := congrArg (max · s.due) h.now }
  exact (AgreesOn.run Iff.rfl hcode helapsed).1.agrees

theorem perform_left (h : Agrees b b') {site : Site} {op : Op} (hop : op.isPrivate)
    (hover : ¬b.Awaits site.turn) : Agrees (b.move (.perform site op)) b' :=
  (AgreesOn.perform_left h hover hop).agrees

theorem sweep (h : Agrees b b') (href : SameReferences b b') :
    Agrees (b.move .sweep) (b'.move .sweep) := by
  have hlength : b'.roster.connections.length = b.roster.connections.length := by
    have hbare := congrArg (·.connections.length) h.roster.bare
    simpa [Roster.bare] using hbare
  have habandoned : (List.range b'.roster.connections.length).filter
        (fun c => !b'.refersTo c && !b'.roster.isReleased c) =
      (List.range b.roster.connections.length).filter
        fun c => !b.refersTo c && !b.roster.isReleased c := by
    rw [hlength]
    congr 1
    funext c
    rw [h.roster.isReleased]
    cases hreleased : b.roster.isReleased c with
    | true => simp
    | false => rw [href c hreleased]
  have hreleases (abandoned : List Nat) {r r' : Roster} (hr : r.Agrees r') :
      (abandoned.foldl Roster.release r).Agrees (abandoned.foldl Roster.release r') := by
    induction abandoned generalizing r r' with
    | nil => exact hr
    | cons c abandoned ih => exact ih (hr.answer (.same (.release c)))
  simp only [Broker.move]
  unfold Broker.sweep
  rw [habandoned]
  exact h.setRoster (hreleases _ h.roster)

theorem exists_suspended (h : Agrees b b') {s' : Suspended} (hs' : s' ∈ b'.suspended) :
    ∃ s ∈ b.suspended, s.Agrees s' := by
  obtain ⟨i, hi⟩ := List.mem_iff_getElem?.1 hs'
  have hagrees := forall₂_getElem? h.suspended i
  rw [hi] at hagrees
  cases hs : b.suspended[i]? with
  | none => rw [hs] at hagrees; cases hagrees
  | some s =>
    rw [hs] at hagrees
    cases hagrees with
    | some hagrees => exact ⟨s, List.mem_of_getElem? hs, hagrees⟩

theorem punctual (h : Agrees b b') {m m' : Move} (hnow : (b'.move m').now = (b.move m).now)
    (hm : Punctual b m) : Punctual b' m' := by
  unfold Punctual
  rw [hnow, h.now]
  intro helapses s' hs'
  obtain ⟨s, hs, hagrees⟩ := h.exists_suspended hs'
  have hturn : b'.turn? s'.turn = b.turn? s.turn := by
    rw [hagrees.turn]
    exact h.turn? s.turn ⟨s, hs, rfl⟩
  have hready : b'.isReady s' = b.isReady s := by rw [isReady, isReady, hturn, h.now]
  have hdeadline : b'.deadline? s' = b.deadline? s := by rw [deadline?, deadline?, hturn]
  rw [hready, hdeadline]
  exact hm helapses s hs

theorem symm (h : Agrees b b') : Agrees b' b := (AgreesOn.symm h).agrees

theorem punctual_iff (h : Agrees b b') {m m' : Move} (hmoved : Agrees (b.move m) (b'.move m')) :
    Punctual b' m' ↔ Punctual b m :=
  ⟨h.symm.punctual hmoved.now.symm, h.punctual hmoved.now⟩

end Agrees

/-- Two runs that differ only in what is done in private to turns that no chain waits for, by code outside or
by work left behind, and in what else is left behind. Whatever else they do they do at the same time; and
where they release what is abandoned, `S` holds of the two brokers. -/
inductive Differ (S : Broker → Broker → Prop) : Broker → Broker → List Move → List Move → Prop where
  | nil {b b' : Broker} : Differ S b b' [] []
  | same {b b' : Broker} {m : Move} {ms ms' : List Move} (hm : m.isShared)
      (rest : Differ S (b.move m) (b'.move m) ms ms') : Differ S b b' (m :: ms) (m :: ms')
  | add {b b' : Broker} {place : Roster.Place} {id : String} {point : Point} {family : Family}
      {respond respond' : Nat → Input → Program} {ms ms' : List Move}
      (hcode : ∀ n input, (respond n input).Agrees False (respond' n input))
      (rest : Differ S (b.move (.add place id point family respond))
        (b'.move (.add place id point family respond')) ms ms') :
      Differ S b b' (.add place id point family respond :: ms) (.add place id point family respond' :: ms')
  | sweep {b b' : Broker} {ms ms' : List Move} (href : S b b')
      (rest : Differ S (b.move .sweep) (b'.move .sweep) ms ms') :
      Differ S b b' (.sweep :: ms) (.sweep :: ms')
  | work {b b' : Broker} {i j : Nat} {s s' : Sleeper} {ms ms' : List Move}
      (hs : b.sleepers[i]? = some s) (hs' : b'.sleepers[j]? = some s') (hdue : s'.due = s.due)
      (hsite : s'.site = s.site) (hcode : s.program.Agrees (¬b.Awaits s.site.turn) s'.program)
      (rest : Differ S (b.move (.work i)) (b'.move (.work j)) ms ms') :
      Differ S b b' (.work i :: ms) (.work j :: ms')
  | workLeft {b b' : Broker} {i : Nat} {s : Sleeper} {ms ms' : List Move} (hs : b.sleepers[i]? = some s)
      (hcode : s.program.Agrees (¬b.Awaits s.site.turn) .done)
      (rest : Differ S (b.move (.work i)) (b'.move (.elapse s.due)) ms ms') :
      Differ S b b' (.work i :: ms) (.elapse s.due :: ms')
  | workRight {b b' : Broker} {j : Nat} {s' : Sleeper} {ms ms' : List Move}
      (hs' : b'.sleepers[j]? = some s') (hcode : s'.program.Agrees (¬b'.Awaits s'.site.turn) .done)
      (rest : Differ S (b.move (.elapse s'.due)) (b'.move (.work j)) ms ms') :
      Differ S b b' (.elapse s'.due :: ms) (.work j :: ms')
  | lateLeft {b b' : Broker} {site : Site} {op : Op} {ms ms' : List Move} (hop : op.isPrivate)
      (hover : ¬b.Awaits site.turn) (rest : Differ S (b.move (.perform site op)) b' ms ms') :
      Differ S b b' (.perform site op :: ms) ms'
  | lateRight {b b' : Broker} {site : Site} {op : Op} {ms ms' : List Move} (hop : op.isPrivate)
      (hover : ¬b'.Awaits site.turn) (rest : Differ S b (b'.move (.perform site op)) ms ms') :
      Differ S b b' ms (.perform site op :: ms')

/-- What cannot be told apart of two runs: what hooks are handed, all that the journal says of chains and
services, reports and their times included, the metrics, and whether the clock waited for the chains. -/
structure Alike (b b' : Broker) (ms ms' : List Move) : Prop where
  agrees : Agrees (b.play ms) (b'.play ms')
  inputs : inputsIn (b'.story ms') = inputsIn (b.story ms)
  punctual : PunctualRun b' ms' ↔ PunctualRun b ms

namespace Alike

variable {b b' : Broker} {m m' : Move} {ms ms' : List Move}

theorem cons (h : Agrees b b') (hmoved : Agrees (b.move m) (b'.move m'))
    (hinputs : inputsIn (moveStory b' m') = inputsIn (moveStory b m))
    (rest : Alike (b.move m) (b'.move m') ms ms') : Alike b b' (m :: ms) (m' :: ms') where
  agrees := rest.agrees
  inputs := by rw [story, story, inputsIn_append, inputsIn_append, hinputs, rest.inputs]
  punctual := and_congr (h.punctual_iff hmoved) rest.punctual

theorem late_left (h : Agrees b b') {site : Site} {op : Op} (hop : op.isPrivate)
    (hover : ¬b.Awaits site.turn) (rest : Alike (b.move (.perform site op)) b' ms ms') :
    Alike b b' (.perform site op :: ms) ms' where
  agrees := rest.agrees
  inputs := rest.inputs
  punctual := by
    have hnow : (b.move (.perform site op)).now = b.now := (h.perform_left hop hover).now.symm.trans h.now
    rw [rest.punctual]
    exact ⟨fun hms => ⟨fun hne => absurd hnow hne, hms⟩, fun hms => hms.2⟩

theorem symm (h : Alike b b' ms ms') : Alike b' b ms' ms :=
  ⟨h.agrees.symm, h.inputs.symm, h.punctual.symm⟩

end Alike

theorem inputsIn_work (b : Broker) (i : Nat) : inputsIn (moveStory b (.work i)) = [] := by
  simp only [moveStory]
  split
  · exact inputsIn_codeStory ..
  · rfl

theorem Differ.alike {b b' : Broker} {ms ms' : List Move} (hd : Differ SameReferences b b' ms ms')
    (h : Agrees b b') : Alike b b' ms ms' := by
  -- Each step keeps the brokers in agreement and hands the same inputs over; what differs is late or left behind.
  induction hd with
  | nil => exact ⟨h, rfl, Iff.rfl⟩
  | same hm _ ih =>
    obtain ⟨hmoved, hinputs⟩ := h.move hm
    exact .cons h hmoved hinputs (ih hmoved)
  | @add _ _ place id point family _ _ _ _ hcode _ ih =>
    have hmoved := h.add place id point family hcode
    exact .cons h hmoved rfl (ih hmoved)
  | sweep href _ ih =>
    have hmoved := h.sweep href
    exact .cons h hmoved rfl (ih hmoved)
  | work hs hs' hdue hsite hcode _ ih =>
    have hmoved := h.work hs hs' hdue hsite hcode
    exact .cons h hmoved (by rw [inputsIn_work, inputsIn_work]) (ih hmoved)
  | workLeft hs hcode _ ih =>
    have hmoved := h.work_left hs hcode
    exact .cons h hmoved (inputsIn_work ..).symm (ih hmoved)
  | workRight hs' hcode _ ih =>
    have hmoved := (h.symm.work_left hs' hcode).symm
    exact .cons h hmoved (inputsIn_work ..) (ih hmoved)
  | lateLeft hop hover _ ih => exact .late_left h hop hover (ih (h.perform_left hop hover))
  | lateRight hop hover _ ih =>
    have hmoved := (h.symm.perform_left hop hover).symm
    exact (Alike.late_left h.symm hop hover (ih hmoved).symm).symm

/-- Late use of a turn's handles cannot touch a chain. Two runs that differ, up to pauses, only in what is done
to turns that are over and in what work is left behind hand their hooks the same inputs and the same fresh
turns; the reports and their times are the same, and so are the metrics. The clock waits for the chains in
both runs or in neither. What is left behind must not make the difference whether a connection is given up. -/
theorem late_use_unseen (config : Config) (metered : Bool) {ms ms' ns ns' : List Move}
    (hpaused : Paused (ofConfig config metered) ms ns) (hpaused' : Paused (ofConfig config metered) ms' ns')
    (hd : Differ SameReferences (ofConfig config metered) (ofConfig config metered) ns ns') :
    let b := ofConfig config metered
    inputsIn (b.story ms') = inputsIn (b.story ms) ∧ (b.play ms').chronicle = (b.play ms).chronicle ∧
      (b.play ms').metrics = (b.play ms).metrics ∧ (PunctualRun b ms' ↔ PunctualRun b ms) := by
  intro b
  have h := hd.alike (.refl _)
  rw [← hpaused.story_eq, ← hpaused'.story_eq, ← hpaused.play_eq, ← hpaused'.play_eq,
    ← hpaused.punctualRun_iff, ← hpaused'.punctualRun_iff]
  exact ⟨h.inputs, h.agrees.chronicle, h.agrees.metrics, h.punctual⟩

/-- A hook that serves the PINGREQs of a connection with five topic aliases. -/
def visitor (respond : Nat → Input → Program) : Ranked where
  priority := 0
  hook := { extension := "visitor", point := .pingreqInbound, number := 0, respond }

def visit (respond : Nat → Input → Program) : List Move :=
  [.openConnection "client" .v5 (some 5), .perform { connection := 0, turn := 0 } (.register "visitor" 0),
    .add .shared "visitor" .pingreqInbound .ping respond, .submit 0 .pingreqInbound (.ping .request),
    .begin (0, .pingreqInbound)]

def expecting (respond : Nat → Input → Program) : Broker := (ofConfig {} true).play ((visit respond).take 4)

theorem play_visit (respond : Nat → Input → Program) : (ofConfig {} true).play (visit respond) =
    proceed (deferredPingreq 0) [visitor respond] (.ping .request)
      ({ expecting respond with waiting := [] }.record (.began (deferredPingreq 0))) := by
  have hheads : Heads (deferredPingreq 0) (expecting respond) { expecting respond with waiting := [] } :=
    ⟨List.forall_mem_nil _, [], [], rfl, List.forall_mem_nil _, rfl⟩
  have hordered : (expecting respond).roster.ordered 0 .pingreqInbound = [visitor respond] :=
    List.mergeSort_singleton _
  rw [← hordered]
  exact hheads.move

theorem differ_visit {S : Broker → Broker → Prop} {respond respond' : Nat → Input → Program}
    (hcode : ∀ n input, (respond n input).Agrees False (respond' n input)) {ms ms' : List Move}
    (rest : Differ S ((ofConfig {} true).play (visit respond)) ((ofConfig {} true).play (visit respond'))
      ms ms') :
    Differ S (ofConfig {} true) (ofConfig {} true) (visit respond ++ ms) (visit respond' ++ ms') :=
  .same rfl (.same rfl (.add hcode (.same rfl (.same rfl rest))))

/-- The visitor prevents the packet when it has long gone on. -/
def lateVisitor : Nat → Input → Program :=
  fun _ _ => .spawn 1000 (.perform .prevent fun _ => .done) .done

def briefVisitor : Nat → Input → Program := fun _ _ => .done

def afterLateVisit : List Move :=
  visit lateVisitor ++ [.sweep, .work 0, .sweep, .elapse 2000, .submit 0 .pingreqInbound (.ping .request)]

def afterBriefVisit : List Move :=
  visit briefVisitor ++ [.sweep, .elapse 2000, .submit 0 .pingreqInbound (.ping .request)]

def afterBriefVisitPaused : List Move :=
  visit briefVisitor ++
    [.sweep, .elapse 1000, .sweep, .elapse 2000, .submit 0 .pingreqInbound (.ping .request)]

theorem paused_afterBriefVisit : Paused (ofConfig {} true) afterBriefVisit afterBriefVisitPaused := by
  refine .append_left _ (.move (.stop (.elapse (by decide)) (.sweep ?_ (.refl _ _))))
  rw [play_visit]
  rfl

theorem differ_afterVisit :
    Differ SameReferences (ofConfig {} true) (ofConfig {} true) afterLateVisit afterBriefVisitPaused := by
  refine differ_visit (fun _ _ => .leavesLeft (.ended rfl rfl (.inr rfl))) ?_
  rw [play_visit, play_visit]
  have hheld {b b' : Broker} (h : b'.refersTo 0 = b.refersTo 0) (hone : b.roster.connections.length = 1) :
      SameReferences b b' := by
    intro c hc
    cases c with
    | zero => exact h
    | succ c =>
      have hnone : b.roster.connection? (c + 1) = none := List.getElem?_eq_none (by omega)
      simp [Roster.isReleased, hnone] at hc
  refine .sweep (hheld rfl rfl) (.workLeft (s := ⟨1000, ⟨0, 0⟩, .perform .prevent fun _ => .done⟩) rfl ?_
    (.sweep (hheld rfl rfl) (.same rfl (.same rfl .nil))))
  refine .left ?_ rfl fun _ => .ended rfl rfl (.inr rfl)
  rintro ⟨s, hs, -⟩
  cases hs

theorem late_prevention_unseen :
    Paused (ofConfig {} true) afterBriefVisit afterBriefVisitPaused ∧
      Differ SameReferences (ofConfig {} true) (ofConfig {} true) afterLateVisit afterBriefVisitPaused ∧
      ((ofConfig {} true).play afterBriefVisit).chronicle = ((ofConfig {} true).play afterLateVisit).chronicle :=
  ⟨paused_afterBriefVisit, differ_afterVisit,
    (late_use_unseen {} true (.refl _ _) paused_afterBriefVisit differ_afterVisit).2.1⟩

/-- The visitor keeps its input for a second, and does nothing with it. -/
def keepingVisitor : Nat → Input → Program := fun _ _ => .spawn 1000 .done .done

/-- A kept input keeps its connection, and the topic aliases of that are still counted. -/
theorem kept_input_seen : ¬∀ (config : Config) (metered : Bool) (ms ms' : List Move),
    Differ (fun _ _ => True) (ofConfig config metered) (ofConfig config metered) ms ms' →
      ((ofConfig config metered).play ms').metrics = ((ofConfig config metered).play ms).metrics := by
  intro h
  have hcode (n : Nat) (input : Input) : (keepingVisitor n input).Agrees False (briefVisitor n input) :=
    .leavesLeft (.ended rfl rfl (.inr rfl))
  have hmetrics := h {} true _ _ (differ_visit hcode
    (.same (m := .letGo 0) rfl (.sweep trivial (.same (m := .observeAliases) rfl .nil))))
  rw [play_append, play_append, play_visit, play_visit] at hmetrics
  exact absurd (congrArg (·.aliasBytes) hmetrics) (by decide)

end Broker
end BrokerHooks
