import Mathlib.Logic.Relation
import BrokerHooks.Proofs.Chain.Course
import BrokerHooks.Proofs.Roster.Closing

namespace BrokerHooks.Broker

open Relation

inductive Deed where
  /-- The chain looks up its hooks. -/
  | began (b : Broker) (c : Chain)
  | invoked (b : Broker) (c : Chain) (h : Hook) (p : Packet)
  /-- Code performs an operation. -/
  | did (b : Broker) (s : Site) (op : Op)
  /-- The chain looks whether the turn has ended. -/
  | looked (b : Broker) (c : Chain) (turn : Nat)

namespace Deed

def before : Deed → Broker
  | began b _ | invoked b _ _ _ | did b _ _ | looked b _ _ => b

def after : Deed → Broker
  | began b c => b.record (.began c)
  | invoked b c h p => b.invited c h p
  | did b s op => (b.perform s op).2
  | looked b c turn => (b.standing c turn).2

end Deed

def codeStory (s : Site) : Program → Broker → List Deed
  | .done, _ | .fail _, _ | .crash _, _ => []
  | .perform op next, b => .did b s op :: codeStory s (next (b.perform s op).1) (b.perform s op).2
  | .spawn delay task next, b =>
    codeStory s next
      { b with sleepers := b.sleepers ++ [{ due := b.now + delay, site := s, program := task }] }

def callbackStory (b : Broker) (c : Chain) (h : Hook) (p : Packet) : List Deed :=
  .invoked b c h p ::
    codeStory { connection := c.connection, turn := b.turns.length }
      (h.respond (b.invocations h.number) (b.input c p)) (b.invited c h p)

/-- A hook that returns without a failure has its turn looked at. -/
def serveStory (b : Broker) (c : Chain) (r : Ranked) (p : Packet) : List Deed :=
  if b.roster.isEnabled r.hook.extension then
    callbackStory b c r.hook p ++
      match b.callback c r.hook p with
      | (some _, _) => []
      | (none, b') => [.looked b' c b.turns.length]
  else []

def proceedStory (c : Chain) : List Ranked → Packet → Broker → List Deed
  | [], _, _ => []
  | r :: rest, p, b =>
    serveStory b c r p ++
      match b.serve c r p with
      | (.passed q, b') => proceedStory c rest q b'
      | _ => []

def beginStory (b : Broker) (c : Chain) : List Deed :=
  .began b c ::
    proceedStory c (b.roster.ordered c.connection c.point) c.supplied (b.record (.began c))

def wakeStory (b : Broker) (s : Suspended) : List Deed :=
  .looked b s.chain s.turn ::
    match b.standing s.chain s.turn with
    | (.passed q, b') => proceedStory s.chain s.rest q b'
    | _ => []

def moveStory (b : Broker) : Move → List Deed
  | .begin lane =>
    if b.isFree lane then
      match takeFirst? (·.lane = lane) b.waiting with
      | some (c, rest) => beginStory { b with waiting := rest } c
      | none => []
    else []
  | .wake i =>
    match b.suspended[i]? with
    | some s => wakeStory { b with suspended := b.suspended.eraseIdx i } s
    | none => []
  | .work i =>
    match b.sleepers[i]? with
    | some s =>
      codeStory s.site s.program
        { b with now := max b.now s.due, sleepers := b.sleepers.eraseIdx i }
    | none => []
  | .perform site op => [.did b site op]
  | _ => []

def story (b : Broker) : List Move → List Deed
  | [] => []
  | m :: ms => moveStory b m ++ story (b.move m) ms

theorem story_append (b : Broker) (ms ns : List Move) :
    b.story (ms ++ ns) = b.story ms ++ (b.play ms).story ns := by
  induction ms generalizing b with
  | nil => rfl
  | cons m ms ih => simp [story, ih]

/-- What may happen to a broker between two deeds. -/
structure Drifts (b b' : Broker) : Prop where
  limits : b'.limits = b.limits
  maxTimeout : b'.maxTimeout = b.maxTimeout
  now : b.now ≤ b'.now
  turns : b'.turns = b.turns
  roster : ReflTransGen RosterStep b.roster b'.roster
  extensions : b'.roster.extensions = b.roster.extensions
  closed : b.roster.KeepsClosed b'.roster
  metered : b'.metered = b.metered
  denied : b'.metrics.denied = b.metrics.denied
  journal : b.journal <+: b'.journal

namespace Drifts

variable {b b' b'' : Broker}

@[refl] theorem refl (b : Broker) : Drifts b b where
  limits := rfl
  maxTimeout := rfl
  now := Nat.le_refl _
  turns := rfl
  roster := .refl
  extensions := rfl
  closed := .refl _
  metered := rfl
  denied := rfl
  journal := List.prefix_rfl

theorem trans (h : Drifts b b') (h' : Drifts b' b'') : Drifts b b'' where
  limits := h'.limits.trans h.limits
  maxTimeout := h'.maxTimeout.trans h.maxTimeout
  now := Nat.le_trans h.now h'.now
  turns := h'.turns.trans h.turns
  roster := h.roster.trans h'.roster
  extensions := h'.extensions.trans h.extensions
  closed := h.closed.trans h'.closed
  metered := h'.metered.trans h.metered
  denied := h'.denied.trans h.denied
  journal := h.journal.trans h'.journal

theorem meter (b : Broker) (f : Metrics → Metrics) (hf : ∀ m, (f m).denied = m.denied) :
    Drifts b (b.meter f) := by
  unfold Broker.meter
  split
  · exact { refl b with denied := hf b.metrics }
  · exact refl b

theorem record (b : Broker) (e : Event) : Drifts b (b.record e) :=
  { refl b with journal := List.prefix_append .. }

theorem report (b : Broker) (c : Chain) (r : Report) : Drifts b (b.report c r) := by
  refine (meter b _ ?_).trans (record ..)
  exact fun _ => rfl

theorem answer (b : Broker) (q : Roster.Request) (hq : q.isClose = false)
    (he : (b.roster.answer q).2.extensions = b.roster.extensions) :
    Drifts b { b with roster := (b.roster.answer q).2 } :=
  { refl b with
    roster := b.roster.answer_steps q
    extensions := he
    closed := b.roster.answer_keepsClosed q hq }

theorem sweep (b : Broker) : Drifts b b.sweep := by
  unfold Broker.sweep
  simp only
  generalize (List.filter _ _ : List Nat) = abandoned
  induction abandoned generalizing b with
  | nil => exact refl b
  | cons c abandoned ih => exact (answer b (.release c) rfl rfl).trans (ih _)

end Drifts

/-- From the one broker the deeds lead to the other, with nothing but drifting in between. -/
inductive Walk : Broker → List Deed → Broker → Prop where
  | drift {b b' : Broker} (h : Drifts b b') : Walk b [] b'
  | deed {b b' : Broker} {d : Deed} {ds : List Deed} (h : Drifts b d.before)
      (next : Walk d.after ds b') : Walk b (d :: ds) b'

namespace Walk

variable {b b' b'' : Broker} {ds ds' : List Deed}

theorem drift_trans (h : Drifts b b') (h' : Walk b' ds b'') : Walk b ds b'' := by
  cases h' with
  | drift h' => exact .drift (h.trans h')
  | deed h' next => exact .deed (h.trans h') next

theorem append (h : Walk b ds b') (h' : Walk b' ds' b'') : Walk b (ds ++ ds') b'' := by
  induction h with
  | drift h => exact h'.drift_trans h
  | deed h _ ih => exact .deed h (ih h')

theorem trans_drift (h : Walk b ds b') (h' : Drifts b' b'') : Walk b ds b'' := by
  have hwhole := h.append (.drift h')
  rwa [List.append_nil] at hwhole

theorem single (d : Deed) : Walk d.before [d] d.after := .deed (.refl _) (.drift (.refl _))

theorem split (h : Walk b (ds ++ ds') b'') : ∃ b', Walk b ds b' ∧ Walk b' ds' b'' := by
  induction ds generalizing b with
  | nil => exact ⟨b, .drift (.refl b), h⟩
  | cons d ds ih =>
    cases h with
    | deed h next =>
      obtain ⟨b', h₁, h₂⟩ := ih next
      exact ⟨b', .deed h h₁, h₂⟩

theorem at_deed {d : Deed} (h : Walk b (ds ++ d :: ds') b') :
    Walk b ds d.before ∧ Walk d.after ds' b' := by
  obtain ⟨b₁, h₁, h₂⟩ := h.split
  cases h₂ with
  | deed hd next => exact ⟨h₁.trans_drift hd, next⟩

end Walk

theorem code_walk (s : Site) (program : Program) (b : Broker) :
    Walk b (codeStory s program b) (run s program b).2 := by
  induction program generalizing b with
  | done | fail | crash => exact .drift (.refl b)
  | perform op next ih => exact .deed (.refl b) (ih _ _)
  | spawn delay task next _ ih =>
    refine Walk.drift_trans ?_ (ih _)
    exact { Drifts.refl b with }

theorem callback_walk (b : Broker) (c : Chain) (h : Hook) (p : Packet) :
    Walk b (callbackStory b c h p) (b.callback c h p).2 :=
  .deed (.refl b) (code_walk _ _ _)

theorem serve_walk (b : Broker) (c : Chain) (r : Ranked) (p : Packet) :
    Walk b (serveStory b c r p) (b.serve c r p).2 := by
  have hcallback := callback_walk b c r.hook p
  unfold serveStory serve
  split
  · cases hc : b.callback c r.hook p with
    | mk cause b' =>
      rw [hc] at hcallback
      cases cause with
      | some cause =>
        exact hcallback.append (.drift (.meter b' (·.extensionError c.point) fun _ => rfl))
      | none => exact hcallback.append (.single (.looked b' c b.turns.length))
  · exact .drift (.refl b)

theorem proceed_walk (c : Chain) (hooks : List Ranked) (p : Packet) (b : Broker) :
    Walk b (proceedStory c hooks p b) (proceed c hooks p b) := by
  induction hooks generalizing p b with
  | nil => exact .drift (.report ..)
  | cons r rest ih =>
    rw [proceed_cons]
    have hserve := serve_walk b c r p
    unfold proceedStory
    cases hs : b.serve c r p with
    | mk standing b' =>
      rw [hs] at hserve
      cases standing with
      | pending => exact hserve.append (.drift { Drifts.refl b' with })
      | failed cause => exact hserve.append (.drift (.report ..))
      | passed q => exact hserve.append (ih q b')

theorem begin_walk (b : Broker) (c : Chain) : Walk b (beginStory b c) (b.begin c) :=
  .deed (.refl b) (proceed_walk c _ _ _)

theorem wake_walk (b : Broker) (s : Suspended) : Walk b (wakeStory b s) (b.wake s) := by
  rw [wake_eq_conclude]
  unfold wakeStory
  have hlooked : Walk b [.looked b s.chain s.turn] (b.standing s.chain s.turn).2 :=
    .single (.looked b s.chain s.turn)
  cases hs : b.standing s.chain s.turn with
  | mk standing b' =>
    rw [hs] at hlooked
    cases standing with
    | pending => exact hlooked.trans_drift { Drifts.refl b' with }
    | failed cause => exact hlooked.trans_drift (.report ..)
    | passed q => exact hlooked.append (proceed_walk s.chain s.rest q b')

/-- What a move leads to, and the deeds it does. -/
inductive Moved (b : Broker) : Move → List Deed → Broker → Prop where
  | begins {lane : Nat × Point} {c : Chain} {rest : List Chain} :
      Moved b (.begin lane) (beginStory { b with waiting := rest } c) ({ b with waiting := rest }.begin c)
  | wakes {i : Nat} {s : Suspended} (hs : b.suspended[i]? = some s) :
      Moved b (.wake i) (wakeStory { b with suspended := b.suspended.eraseIdx i } s)
        ({ b with suspended := b.suspended.eraseIdx i }.wake s)
  | works {i : Nat} {s : Sleeper} (hs : b.sleepers[i]? = some s) :
      Moved b (.work i)
        (codeStory s.site s.program { b with now := max b.now s.due, sleepers := b.sleepers.eraseIdx i })
        (b.runSleeper s (b.sleepers.eraseIdx i))
  | performs {site : Site} {op : Op} :
      Moved b (.perform site op) [.did b site op] (b.perform site op).2
  | quiet {m : Move} {b' : Broker} (h : Drifts b b') (hsuspended : b'.suspended = b.suspended) :
      Moved b m [] b'

theorem add_extensions {r r' : Roster} {place : Roster.Place} {id : String} {point : Point}
    {family : Family} {respond : Nat → Input → Program}
    (h : r.add place id point family respond = .ok r') : r'.extensions = r.extensions := by
  unfold Roster.add at h
  split at h
  · cases h
  split at h
  · cases h
  simp only at h
  split at h <;> cases h <;> rfl

theorem moved (b : Broker) (m : Move) : Moved b m (moveStory b m) (b.move m) := by
  -- A move that is not possible changes nothing.
  have hstill : Moved b m [] b := .quiet (.refl b) rfl
  cases m with
  | begin lane =>
    by_cases hfree : b.isFree lane
    · cases htake : takeFirst? (fun c => decide (c.lane = lane)) b.waiting with
      | none =>
        simp only [move, moveStory, hfree, htake, if_true]
        exact hstill
      | some found =>
        simp only [move, moveStory, hfree, htake, if_true]
        exact .begins
    · simp only [move, moveStory, hfree]
      exact hstill
  | wake i =>
    cases hs : b.suspended[i]? with
    | none =>
      simp only [move, moveStory, hs]
      exact hstill
    | some s =>
      simp only [move, moveStory, hs]
      exact .wakes hs
  | work i =>
    cases hs : b.sleepers[i]? with
    | none =>
      simp only [move, moveStory, hs]
      exact hstill
    | some s =>
      simp only [move, moveStory, hs]
      exact .works hs
  | perform site op => exact .performs
  | submit connection point p =>
    unfold move submit
    simp only
    split
    · exact .quiet { Drifts.refl b with } rfl
    · exact .quiet { Drifts.refl b with journal := List.prefix_append .. } rfl
  | elapse time => exact .quiet { Drifts.refl b with now := Nat.le_max_left _ _ } rfl
  | openConnection clientId version aliasMaximum =>
    exact .quiet (.answer b (.openConnection clientId version aliasMaximum) rfl rfl) rfl
  | track c =>
    have hsame : (b.roster.track c).extensions = b.roster.extensions := by
      unfold Roster.track
      split <;> rfl
    exact .quiet (.answer b (.track c) rfl hsame) rfl
  | untrack clientId => exact .quiet (.answer b (.untrack clientId) rfl rfl) rfl
  | letGo c => exact .quiet (.answer b (.letGo c) rfl rfl) rfl
  | add place extension point family respond =>
    have hsame : (tryUpdate b.roster (b.roster.add place extension point family respond)).2.extensions =
        b.roster.extensions := by
      cases hadd : b.roster.add place extension point family respond with
      | ok r' => exact add_extensions hadd
      | error e => rfl
    exact .quiet (.answer b (.add place extension point family respond) rfl hsame) rfl
  | sweep => exact .quiet (.sweep b) rfl
  | observeAliases => exact .quiet { Drifts.refl b with } rfl

theorem move_walk (b : Broker) (m : Move) : Walk b (moveStory b m) (b.move m) := by
  have hmoved := moved b m
  generalize moveStory b m = ds at hmoved
  generalize b.move m = b' at hmoved
  cases hmoved with
  | @begins lane c rest =>
    refine Walk.drift_trans ?_ (begin_walk _ c)
    exact { Drifts.refl b with }
  | @wakes i s hs =>
    refine Walk.drift_trans ?_ (wake_walk _ s)
    exact { Drifts.refl b with }
  | @works i s hs =>
    refine Walk.drift_trans ?_ (code_walk s.site s.program _)
    exact { Drifts.refl b with now := Nat.le_max_left _ _ }
  | performs => exact .single (.did b _ _)
  | quiet h => exact .drift h

theorem story_walk (b : Broker) (ms : List Move) : Walk b (b.story ms) (b.play ms) := by
  induction ms generalizing b with
  | nil => exact .drift (.refl b)
  | cons m ms ih => exact (move_walk b m).append (ih _)

theorem perform_roster (b : Broker) (s : Site) (op : Op) :
    ReflTransGen RosterStep b.roster (b.perform s op).2.roster :=
  perform_preserves (P := ReflTransGen RosterStep b.roster) (fun _ _ hstep h => h.tail hstep) .refl s op

theorem Deed.roster (d : Deed) : ReflTransGen RosterStep d.before.roster d.after.roster := by
  cases d with
  | began | invoked => exact .refl
  | did b s op => exact perform_roster b s op
  | looked b c turn =>
    unfold Deed.after
    rw [standing_roster]
    exact .refl

theorem Deed.effect (d : Deed) : ∃ who, Effect who (fun _ => True) d.before d.after := by
  cases d with
  | began b c => exact ⟨some c, .record (e := .began c) rfl (.inr rfl) b⟩
  | invoked b c h p => exact ⟨some c, .invited b h p⟩
  | did b s op => exact ⟨none, .perform trivial b op⟩
  | looked b c turn => exact ⟨some c, .standing trivial b⟩

namespace Walk

variable {b b' : Broker} {ds : List Deed}

theorem roster (h : Walk b ds b') : ReflTransGen RosterStep b.roster b'.roster := by
  induction h with
  | drift h => exact h.roster
  | @deed b b' d ds h _ ih => exact (h.roster.trans d.roster).trans ih

theorem limits (h : Walk b ds b') : b'.limits = b.limits := by
  induction h with
  | drift h => exact h.limits
  | @deed b b' d ds h _ ih =>
    obtain ⟨who, he⟩ := d.effect
    rw [ih, he.limits, h.limits]

theorem maxTimeout (h : Walk b ds b') : b'.maxTimeout = b.maxTimeout := by
  induction h with
  | drift h => exact h.maxTimeout
  | @deed b b' d ds h _ ih =>
    obtain ⟨who, he⟩ := d.effect
    rw [ih, he.maxTimeout, h.maxTimeout]

/-- Nothing is taken back from the journal. -/
theorem journal (h : Walk b ds b') : b.journal <+: b'.journal := by
  induction h with
  | drift h => exact h.journal
  | @deed b b' d ds h _ ih =>
    obtain ⟨who, he⟩ := d.effect
    obtain ⟨new, hj, -⟩ := he.journal
    exact h.journal.trans (List.IsPrefix.trans ⟨new, hj.symm⟩ ih)

theorem journal_after {d : Deed} (h : Walk b (d :: ds) b') : d.after.journal <+: b'.journal := by
  cases h with
  | deed _ next => exact next.journal

/-- A deed takes no time, and the clock never goes back between them. -/
theorem times (h : Walk b ds b') :
    b.now ≤ b'.now ∧ ∀ d ∈ ds, b.now ≤ d.before.now ∧ d.before.now ≤ b'.now := by
  induction h with
  | drift h => exact ⟨h.now, List.forall_mem_nil _⟩
  | @deed b b' d ds h _ ih =>
    obtain ⟨who, he⟩ := d.effect
    obtain ⟨hle, hds⟩ := ih
    rw [he.now] at hle hds
    refine ⟨Nat.le_trans h.now hle, fun x hx => ?_⟩
    rcases List.mem_cons.1 hx with rfl | hx
    · exact ⟨h.now, hle⟩
    · exact ⟨Nat.le_trans h.now (hds x hx).1, (hds x hx).2⟩

theorem times_eq (h : Walk b ds b') (hnow : b'.now = b.now) : ∀ d ∈ ds, d.before.now = b.now := by
  intro d hd
  obtain ⟨hle, hle'⟩ := h.times.2 d hd
  omega

end Walk

/-- If the clock moves, it does so before anything is done. -/
theorem moveStory_times (b : Broker) (m : Move) :
    ∀ d ∈ moveStory b m, d.before.now = (b.move m).now := by
  have hmoved := moved b m
  generalize moveStory b m = ds at hmoved
  generalize b.move m = b' at hmoved
  cases hmoved with
  | @begins lane c rest =>
    have hhalts := begin_halts { b with waiting := rest } c fun _ => False
    rw [hhalts.now]
    exact (begin_walk _ c).times_eq hhalts.now
  | @wakes i s hs =>
    have hhalts := wake_halts { b with suspended := b.suspended.eraseIdx i } s
    rw [hhalts.now]
    exact (wake_walk _ s).times_eq hhalts.now
  | @works i s hs =>
    have he : Effect none (· = s.site.turn)
        { b with now := max b.now s.due, sleepers := b.sleepers.eraseIdx i }
        (b.runSleeper s (b.sleepers.eraseIdx i)) := Effect.run (by rfl) _ _
    rw [he.now]
    exact (code_walk s.site s.program _).times_eq he.now
  | @performs site op =>
    have he : Effect none (fun _ => True) b (b.perform site op).2 := .perform trivial b op
    intro d hd
    obtain rfl := List.mem_singleton.1 hd
    exact he.now.symm
  | quiet h => exact List.forall_mem_nil _

end BrokerHooks.Broker
