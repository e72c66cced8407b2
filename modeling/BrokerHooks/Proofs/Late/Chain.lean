import BrokerHooks.Proofs.Late.Roster
import BrokerHooks.Proofs.Run.Story

namespace BrokerHooks

def Event.isNote : Event → Bool
  | .noted _ => true
  | _ => false

structure Suspended.Agrees (s s' : Suspended) : Prop where
  chain : s'.chain = s.chain
  current : s'.current = s.current
  extension : s'.extension = s.extension
  turn : s'.turn = s.turn
  rest : List.Forall₂ Ranked.Agrees s.rest s'.rest

theorem Suspended.Agrees.symm {s s' : Suspended} (h : s.Agrees s') : s'.Agrees s :=
  ⟨h.chain.symm, h.current.symm, h.extension.symm, h.turn.symm, forall₂_symm Ranked.Agrees.symm h.rest⟩

namespace Broker

/-- The journal without the notes of extensions. -/
def chronicle (b : Broker) : List Entry := b.journal.filter (!·.event.isNote)

def Awaits (b : Broker) (t : Nat) : Prop := ∃ s ∈ b.suspended, s.turn = t

/-- The brokers differ in no turn that is `live`, nor in anything else but the code of hooks, work left
behind and notes. -/
structure AgreesOn (live : Nat → Prop) (b b' : Broker) : Prop where
  limits : b'.limits = b.limits
  maxTimeout : b'.maxTimeout = b.maxTimeout
  metered : b'.metered = b.metered
  now : b'.now = b.now
  limiter : b'.limiter = b.limiter
  metrics : b'.metrics = b.metrics
  chains : b'.chains = b.chains
  waiting : b'.waiting = b.waiting
  roster : b.roster.Agrees b'.roster
  chronicle : b'.chronicle = b.chronicle
  suspended : List.Forall₂ Suspended.Agrees b.suspended b'.suspended
  turns_length : b'.turns.length = b.turns.length
  turn? : ∀ t, live t → b'.turn? t = b.turn? t
  awaited : ∀ s ∈ b.suspended, live s.turn

/-- The brokers differ in no turn that a chain waits for. -/
def Agrees (b b' : Broker) : Prop := AgreesOn b.Awaits b b'

namespace AgreesOn

variable {live : Nat → Prop} {b b' : Broker}

theorem awaits_iff (h : AgreesOn live b b') (t : Nat) : b'.Awaits t ↔ b.Awaits t := by
  have hmap : b'.suspended.map (·.turn) = b.suspended.map (·.turn) := by
    have hturns : List.Forall₂ (· = ·) (b.suspended.map (·.turn)) (b'.suspended.map (·.turn)) := by
      rw [List.forall₂_map_left_iff, List.forall₂_map_right_iff]
      exact h.suspended.imp fun _ _ hs => hs.turn.symm
    exact (List.forall₂_eq_eq_eq ▸ hturns : _ = _).symm
  unfold Awaits
  rw [← List.mem_map, ← List.mem_map, hmap]

theorem symm (h : AgreesOn live b b') : AgreesOn live b' b where
  limits := h.limits.symm
  maxTimeout := h.maxTimeout.symm
  metered := h.metered.symm
  now := h.now.symm
  limiter := h.limiter.symm
  metrics := h.metrics.symm
  chains := h.chains.symm
  waiting := h.waiting.symm
  roster := h.roster.symm
  chronicle := h.chronicle.symm
  suspended := forall₂_symm Suspended.Agrees.symm h.suspended
  turns_length := h.turns_length.symm
  turn? := fun t ht => (h.turn? t ht).symm
  awaited := by
    intro s hs
    obtain ⟨s', hs', hturn⟩ := (h.awaits_iff s.turn).1 ⟨s, hs, rfl⟩
    exact hturn ▸ h.awaited s' hs'

theorem agrees (h : AgreesOn live b b') : Agrees b b' :=
  { h with
    turn? := by
      rintro t ⟨s, hs, rfl⟩
      exact h.turn? s.turn (h.awaited s hs)
    awaited := fun s hs => ⟨s, hs, rfl⟩ }

theorem chronicle_record (b : Broker) (e : Event) :
    (b.record e).chronicle = b.chronicle ++ if e.isNote then [] else [{ time := b.now, event := e }] := by
  unfold Broker.chronicle
  rw [record_journal, List.filter_append, List.filter_singleton]
  cases e.isNote <;> rfl

theorem record (h : AgreesOn live b b') (e : Event) : AgreesOn live (b.record e) (b'.record e) :=
  { h with chronicle := by rw [chronicle_record, chronicle_record, h.chronicle, h.now] }

theorem meter (h : AgreesOn live b b') (f : Metrics → Metrics) : AgreesOn live (b.meter f) (b'.meter f) := by
  unfold Broker.meter
  by_cases hmetered : b.metered
  · rw [if_pos hmetered, if_pos (h.metered.trans hmetered)]
    exact { h with metrics := congrArg f h.metrics }
  · rw [if_neg hmetered, if_neg (h.metered ▸ hmetered)]
    exact h

theorem setTurn (h : AgreesOn live b b') (i : Nat) (t : Turn) :
    AgreesOn live (b.setTurn i t) (b'.setTurn i t) :=
  { h with
    turns_length := by
      rw [Broker.setTurn, Broker.setTurn, List.length_set, List.length_set]
      exact h.turns_length
    turn? := by
      intro k hk
      unfold Broker.turn? Broker.setTurn
      rw [List.getElem?_set, List.getElem?_set, h.turns_length]
      exact congrArg (if i = k then if i < b.turns.length then some t else none else ·) (h.turn? k hk) }

theorem setTurn_left (h : AgreesOn live b b') {i : Nat} (hi : ¬live i) (t : Turn) :
    AgreesOn live (b.setTurn i t) b' :=
  { h with
    turns_length := by
      rw [Broker.setTurn, List.length_set]
      exact h.turns_length
    turn? := by
      intro k hk
      have hne : i ≠ k := fun heq => hi (heq ▸ hk)
      rw [h.turn? k hk]
      exact (List.getElem?_set_ne hne).symm }

theorem setRoster (h : AgreesOn live b b') {r r' : Roster} (hr : r.Agrees r') :
    AgreesOn live { b with roster := r } { b' with roster := r' } := { h with roster := hr }

structure Both (live : Nat → Prop) {α : Type} (x x' : α × Broker) : Prop where
  answer : x'.1 = x.1
  broker : AgreesOn live x.2 x'.2

theorem check (h : AgreesOn live b b') : Both live b.check b'.check := by
  have hverdict : b'.limiter.exceeded b'.now = b.limiter.exceeded b.now := by rw [h.limiter, h.now]
  unfold Broker.check
  rw [hverdict]
  have hlimiter : AgreesOn live { b with limiter := (b.limiter.exceeded b.now).2 }
      { b' with limiter := (b.limiter.exceeded b.now).2 } := { h with limiter := rfl }
  simp only
  split
  · exact ⟨rfl, (hlimiter.meter _).record _⟩
  · exact ⟨rfl, hlimiter⟩

theorem admitted {α : Type} (h : AgreesOn live b b') {f f' : Broker → α × Broker}
    (hf : ∀ {b b'}, AgreesOn live b b' → Both live (f b) (f' b')) :
    Both live (b.admitted f) (b'.admitted f') := by
  obtain ⟨hverdict, hcheck⟩ := h.check
  unfold Broker.admitted
  cases hb : b.check with
  | mk verdict b₁ =>
    cases hb' : b'.check with
    | mk verdict' b₁' =>
      rw [hb, hb'] at hverdict hcheck
      cases hverdict
      cases verdict with
      | error e => exact ⟨rfl, hcheck⟩
      | ok u =>
        obtain ⟨hanswer, hbroker⟩ := hf hcheck
        exact ⟨congrArg Except.ok hanswer, hbroker⟩

theorem close (h : AgreesOn live b b') (c : Nat) (reason : Option ReasonCode) :
    Both live (b.onRoster (·.close c reason)) (b'.onRoster (·.close c reason)) := by
  refine ⟨?_, h.setRoster (h.roster.answer (.same (.close c reason)))⟩
  have hbare (r : Roster) : (r.close c reason).1 = (r.bare.close c reason).1 := by
    rw [Roster.bare_close]
    rfl
  exact (hbare _).trans (h.roster.bare ▸ (hbare _).symm)

theorem resolve (h : AgreesOn live b b') (c : Nat) (topic : String) (number : Option UInt16) :
    Both live (b.onRoster (·.resolve c topic number)) (b'.onRoster (·.resolve c topic number)) := by
  refine ⟨?_, h.setRoster (h.roster.answer (.same (.resolve c topic number)))⟩
  have hbare (r : Roster) : (r.resolve c topic number).1 = (r.bare.resolve c topic number).1 := by
    rw [Roster.bare_resolve]
    rfl
  exact (hbare _).trans (h.roster.bare ▸ (hbare _).symm)

theorem ask (h : AgreesOn live b b') {q q' : Roster.Request} (hq : q.Agrees q') :
    Both live (b.onRoster (·.answer q)) (b'.onRoster (·.answer q')) :=
  ⟨(h.roster.bare_answer hq).1, h.setRoster (h.roster.answer hq)⟩

theorem isConnected (h : AgreesOn live b b') (clientId : String) :
    Both live (b.isConnected clientId) (b'.isConnected clientId) := by
  refine h.admitted fun {b b'} h => ⟨?_, h⟩
  have hclosed : (!b'.roster.isClosed ·) = (!b.roster.isClosed ·) := by
    funext c
    rw [h.roster.isClosed]
  rw [h.roster.tracked?, hclosed]

theorem disconnectClient (h : AgreesOn live b b') (clientId : String) (reason : Option ReasonCode) :
    Both live (b.disconnectClient clientId reason) (b'.disconnectClient clientId reason) := by
  unfold Broker.disconnectClient
  split
  · exact ⟨rfl, h⟩
  · refine h.admitted fun {b b'} h => ?_
    rw [h.roster.tracked?]
    split
    · exact ⟨rfl, h⟩
    · exact h.close _ reason

theorem onTurn_left {α : Type} (h : AgreesOn live b b') {s : Site} (hs : ¬live s.turn) (default : α)
    (f : Turn → α × Turn) : AgreesOn live (b.onTurn s default f).2 b' := by
  unfold onTurn
  split
  · exact h
  · exact h.setTurn_left hs _

theorem onTurn {α : Type} (h : AgreesOn live b b') (s : Site) (default : α) (f : Turn → α × Turn) :
    AgreesOn live (b.onTurn s default f).2 (b'.onTurn s default f).2 ∧
      (live s.turn → (b'.onTurn s default f).1 = (b.onTurn s default f).1) := by
  by_cases hs : live s.turn
  · unfold Broker.onTurn
    rw [h.turn? s.turn hs]
    split
    · exact ⟨h, fun _ => rfl⟩
    · exact ⟨h.setTurn s.turn _, fun _ => rfl⟩
  · exact ⟨((h.onTurn_left hs default f).symm.onTurn_left hs default f).symm, fun hs' => absurd hs' hs⟩

/-- What is done in private to a turn that is not live makes no difference. -/
theorem perform_left (h : AgreesOn live b b') {s : Site} (hs : ¬live s.turn) {op : Op}
    (hop : op.isPrivate) : AgreesOn live (b.perform s op).2 b' := by
  cases op with
  | call | defer | resume | prevent | view => exact h.onTurn_left hs _ _
  | note n =>
    refine { h with chronicle := ?_ }
    have hsame : (b.record (.noted n)).chronicle = b.chronicle := by
      rw [chronicle_record]
      exact List.append_nil _
    exact h.chronicle.trans hsame.symm
  | close | resolve | register | remove | enable | disable | isEnabled | check | isConnected
  | disconnectClient => cases hop

/-- The same operation has the same effect, and the same answer unless it is private to a turn that is not
live. -/
theorem perform (h : AgreesOn live b b') (s : Site) (op : Op) :
    AgreesOn live (b.perform s op).2 (b'.perform s op).2 ∧
      (live s.turn ∨ op.isPrivate = false → (b'.perform s op).1 = (b.perform s op).1) := by
  have hturn {α : Type} (default : α) (f : Turn → α × Turn) :
      AgreesOn live (b.onTurn s default f).2 (b'.onTurn s default f).2 ∧
        (live s.turn ∨ true = false → (b'.onTurn s default f).1 = (b.onTurn s default f).1) := by
    obtain ⟨hbroker, hanswer⟩ := h.onTurn s default f
    exact ⟨hbroker, fun hlive => hanswer (hlive.resolve_right nofun)⟩
  have hboth {α : Type} {x x' : α × Broker} (hx : Both live x x') :
      AgreesOn live x.2 x'.2 ∧ (live s.turn ∨ op.isPrivate = false → x'.1 = x.1) :=
    ⟨hx.broker, fun _ => hx.answer⟩
  cases op with
  | call | resume | prevent | view => exact hturn _ _
  | defer timeout fallback =>
    unfold Broker.perform
    rw [h.now]
    exact hturn _ _
  | close reason => exact hboth (h.close s.connection reason)
  | resolve topic number => exact hboth (h.resolve s.connection topic number)
  | register id priority => exact hboth (h.ask (.same (.register id priority)))
  | remove id => exact hboth (h.ask (.same (.remove id)))
  | enable id => exact hboth (h.ask (.same (.enable id)))
  | disable id => exact hboth (h.ask (.same (.disable id)))
  | isEnabled id => exact ⟨h, fun _ => h.roster.isEnabled id⟩
  | check => exact hboth h.check
  | isConnected clientId => exact hboth (h.isConnected clientId)
  | disconnectClient clientId reason => exact hboth (h.disconnectClient clientId reason)
  | note n => exact ⟨h.record _, fun _ => rfl⟩

/-- Code that agrees has the same effect. It fails alike unless it runs when its turn is not live any
more. -/
theorem run {late : Prop} {s : Site} (hlate : late ↔ ¬live s.turn) {p p' : Program} (hp : p.Agrees late p')
    (h : AgreesOn live b b') : AgreesOn live (run s p b).2 (run s p' b').2 ∧
      (¬late → (Broker.run s p' b').1 = (Broker.run s p b).1) := by
  induction hp generalizing b b' with
  | @ended p p' hp hp' hsame =>
    have hrun {p : Program} (hp : p.hasEnded) (b : Broker) : (Broker.run s p b).2 = b := by
      cases p <;> first | rfl | cases hp
    rw [hrun hp, hrun hp']
    refine ⟨h, fun hnot => ?_⟩
    obtain rfl := hsame.resolve_left hnot
    cases p <;> first | rfl | cases hp
  | @perform op next next' hop _ ih =>
    obtain ⟨hbroker, hanswer⟩ := h.perform s op
    -- A program that runs late performs nothing whose answer depends on its turn.
    have hsame : (b'.perform s op).1 = (b.perform s op).1 := by
      by_cases hl : late
      · exact hanswer (.inr (hop hl))
      · exact hanswer (.inl (Classical.byContradiction fun hs => hl (hlate.2 hs)))
    unfold Broker.run
    simp only [hsame]
    exact ih _ hbroker
  | left hl hop _ ih => exact ih _ (h.perform_left (hlate.1 hl) hop)
  | right hl hop _ ih => exact ih _ (h.symm.perform_left (hlate.1 hl) hop).symm
  | leavesLeft _ ih => exact ih { h with }
  | leavesRight _ ih => exact ih { h with }

theorem standing (h : AgreesOn live b b') {t : Nat} (ht : live t) (c : Chain) :
    Both live (b.standing c t) (b'.standing c t) := by
  unfold Broker.standing
  rw [h.turn? t ht, h.now]
  cases b.turn? t with
  | none => exact ⟨rfl, h⟩
  | some turn =>
    simp only
    cases turn.poll b.now with
    | mk completion turn' =>
      have hset := h.setTurn t turn'
      cases completion with
      | none => exact ⟨rfl, hset⟩
      | some completion =>
        cases completion with
        | immediate | resumed => exact ⟨rfl, hset⟩
        | timedOut fallback => exact ⟨rfl, (hset.meter _).record _⟩

theorem report (h : AgreesOn live b b') (c : Chain) (r : Report) :
    AgreesOn live (b.report c r) (b'.report c r) := by
  unfold Broker.report
  rw [h.roster.isClosed]
  exact (h.meter _).record _

theorem input (h : AgreesOn live b b') (c : Chain) (p : Packet) : b'.input c p = b.input c p := by
  have hconn := h.roster.connection? c.connection
  unfold Broker.input
  cases hb : b.roster.connection? c.connection with
  | none =>
    cases hb' : b'.roster.connection? c.connection with
    | none => rfl
    | some conn' => simp [hb, hb'] at hconn
  | some conn =>
    cases hb' : b'.roster.connection? c.connection with
    | none => simp [hb, hb'] at hconn
    | some conn' =>
      have hbare : conn'.bare = conn.bare := by simpa [hb, hb'] using hconn
      have hclient : conn'.clientId = conn.clientId := congrArg (·.clientId) hbare
      have hversion : conn'.version = conn.version := congrArg (·.version) hbare
      simp only [hclient, hversion]

theorem countP_chronicle (b : Broker) {p : Entry → Bool} (hp : ∀ e, e.event.isNote → p e = false) :
    b.chronicle.countP p = b.journal.countP p := by
  unfold Broker.chronicle
  rw [List.countP_filter]
  congr 1
  funext e
  cases hnote : e.event.isNote with
  | false => simp
  | true => simp [hp e hnote]

theorem invocations (h : AgreesOn live b b') (hook : Nat) : b'.invocations hook = b.invocations hook := by
  unfold Broker.invocations
  rw [← countP_chronicle b', h.chronicle, countP_chronicle b]
  -- No note is an invocation.
  all_goals
    intro e hnote
    cases hevent : e.event <;> simp_all [Event.isNote]

theorem widen (h : AgreesOn live b b') : AgreesOn (fun t => live t ∨ t = b.turns.length) b b' :=
  { h with
    turn? := by
      rintro t (ht | rfl)
      · exact h.turn? t ht
      · unfold Broker.turn?
        rw [List.getElem?_eq_none (Nat.le_refl _), List.getElem?_eq_none (Nat.le_of_eq h.turns_length)]
    awaited := fun s hs => .inl (h.awaited s hs) }

theorem invited (h : AgreesOn live b b') (c : Chain) {hook hook' : Hook} (hh : hook.Agrees hook')
    (p : Packet) : AgreesOn (fun t => live t ∨ t = b.turns.length) (b.invited c hook p)
      (b'.invited c hook' p) := by
  unfold Broker.invited
  rw [hh.number, h.limits, h.maxTimeout]
  refine record ?_ _
  exact { h with
    limits := rfl
    maxTimeout := rfl
    turns_length := by simp [h.turns_length]
    turn? := by
      intro t ht
      unfold Broker.turn?
      rw [List.getElem?_append, List.getElem?_append, h.turns_length]
      split
      · rename_i hlt
        exact h.turn? t (ht.resolve_right (Nat.ne_of_lt hlt))
      · rfl
    awaited := fun s hs => .inl (h.awaited s hs) }

theorem callback (h : AgreesOn live b b') (c : Chain) {hook hook' : Hook} (hh : hook.Agrees hook')
    (p : Packet) : Both (fun t => live t ∨ t = b.turns.length) (b.callback c hook p)
      (b'.callback c hook' p) := by
  have hlive : False ↔ ¬(live b.turns.length ∨ b.turns.length = b.turns.length) :=
    ⟨False.elim, fun hnot => hnot (.inr rfl)⟩
  have hrun := run (s := { connection := c.connection, turn := b.turns.length }) hlive
    (hh.respond (b.invocations hook.number) (b.input c p)) (h.invited c hh p)
  unfold Broker.callback
  rw [h.turns_length, h.invocations, hh.number, h.input]
  exact ⟨hrun.2 not_false, hrun.1⟩

theorem serve (h : AgreesOn live b b') (c : Chain) {r r' : Ranked} (hr : r.Agrees r') (p : Packet) :
    Both (fun t => live t ∨ t = b.turns.length) (b.serve c r p) (b'.serve c r' p) := by
  obtain ⟨hcause, hbroker⟩ := h.callback c hr.hook p
  unfold Broker.serve
  rw [hr.hook.extension, h.roster.isEnabled, h.turns_length]
  split
  · cases hb : b.callback c r.hook p with
    | mk cause b₁ =>
      cases hb' : b'.callback c r'.hook p with
      | mk cause' b₁' =>
        rw [hb, hb'] at hcause hbroker
        cases hcause
        cases cause with
        | some cause => exact ⟨rfl, hbroker.meter (·.extensionError c.point)⟩
        | none => exact hbroker.standing (.inr rfl) c
  · exact ⟨rfl, h.widen⟩

end AgreesOn

/-- What hooks are handed in a story: the chain, the hook's number, its input and its fresh turn. -/
def inputsIn (ds : List Deed) : List (Chain × Nat × Input × Turn) :=
  ds.filterMap fun d =>
    match d with
    | .invoked b c h p => some (c, h.number, b.input c p, Turn.fresh c.point b.limits b.maxTimeout p)
    | _ => none

theorem inputsIn_append (ds ds' : List Deed) : inputsIn (ds ++ ds') = inputsIn ds ++ inputsIn ds' :=
  List.filterMap_append

theorem inputsIn_codeStory (s : Site) (p : Program) (b : Broker) : inputsIn (codeStory s p b) = [] := by
  induction p generalizing b with
  | done | fail | crash => rfl
  | perform op next ih => exact ih _ _
  | spawn delay task next _ ih => exact ih _

theorem inputsIn_serveStory (b : Broker) (c : Chain) (r : Ranked) (p : Packet) :
    inputsIn (serveStory b c r p) = if b.roster.isEnabled r.hook.extension then
      [(c, r.hook.number, b.input c p, Turn.fresh c.point b.limits b.maxTimeout p)] else [] := by
  unfold serveStory
  split
  · have hcallback : inputsIn (callbackStory b c r.hook p) =
        [(c, r.hook.number, b.input c p, Turn.fresh c.point b.limits b.maxTimeout p)] := by
      unfold callbackStory
      rw [← List.singleton_append, inputsIn_append, inputsIn_codeStory]
      rfl
    rw [inputsIn_append, hcallback]
    split <;> rfl
  · rfl

namespace AgreesOn

variable {live : Nat → Prop} {b b' : Broker}

theorem inputsIn_serveStory (h : AgreesOn live b b') (c : Chain) {r r' : Ranked} (hr : r.Agrees r')
    (p : Packet) : inputsIn (serveStory b' c r' p) = inputsIn (serveStory b c r p) := by
  rw [Broker.inputsIn_serveStory, Broker.inputsIn_serveStory, hr.hook.extension, hr.hook.number,
    h.roster.isEnabled, h.input, h.limits, h.maxTimeout]

/-- Chains that agree on the hooks still to come go on alike: their hooks are handed the same, and the
brokers agree where the chains halt. -/
theorem proceed (h : AgreesOn live b b') (c : Chain) {hooks hooks' : List Ranked}
    (hhooks : List.Forall₂ Ranked.Agrees hooks hooks') (p : Packet) :
    Agrees (Broker.proceed c hooks p b) (Broker.proceed c hooks' p b') ∧
      inputsIn (proceedStory c hooks' p b') = inputsIn (proceedStory c hooks p b) := by
  -- Serving a hook makes its turn live, so `live` varies along the hooks.
  induction hhooks generalizing live p b b' with
  | nil => exact ⟨(h.report c _).agrees, rfl⟩
  | @cons r r' rest rest' hr hrest ih =>
    obtain ⟨hstanding, hbroker⟩ := h.serve c hr p
    have hinputs := h.inputsIn_serveStory c hr p
    rw [proceed_cons, proceed_cons]
    unfold proceedStory
    rw [inputsIn_append, inputsIn_append, hinputs]
    cases hb : b.serve c r p with
    | mk st b₁ =>
      cases hb' : b'.serve c r' p with
      | mk st' b₁' =>
        rw [hb, hb'] at hstanding hbroker
        cases hstanding
        cases st with
        | pending =>
          have hsuspension : (b.suspension c r rest p).Agrees (b'.suspension c r' rest' p) :=
            ⟨rfl, rfl, hr.hook.extension, h.turns_length, hrest⟩
          refine ⟨agrees { hbroker with
            suspended := List.rel_append hbroker.suspended (.cons hsuspension .nil)
            awaited := ?_ }, rfl⟩
          intro s hs
          rcases List.mem_append.1 hs with hs | hs
          · exact hbroker.awaited s hs
          · obtain rfl := List.mem_singleton.1 hs
            exact .inr rfl
        | failed cause =>
          have hextension : r'.hook.extension = r.hook.extension := hr.hook.extension
          refine ⟨?_, rfl⟩
          unfold conclude reportFailure suspension
          simp only [hextension]
          exact (hbroker.report c _).agrees
        | passed q =>
          obtain ⟨hagrees, hstory⟩ := ih hbroker q
          exact ⟨hagrees, congrArg (inputsIn (serveStory b c r p) ++ ·) hstory⟩

theorem begin (h : AgreesOn live b b') (c : Chain) : Agrees (b.begin c) (b'.begin c) ∧
    inputsIn (beginStory b' c) = inputsIn (beginStory b c) := by
  obtain ⟨hagrees, hstory⟩ := (h.record (.began c)).proceed c
    (h.roster.ordered c.connection c.point) c.supplied
  refine ⟨hagrees, ?_⟩
  unfold beginStory
  exact hstory

theorem wake (h : AgreesOn live b b') {s s' : Suspended} (hs : s.Agrees s') (ht : live s.turn) :
    Agrees (b.wake s) (b'.wake s') ∧ inputsIn (wakeStory b' s') = inputsIn (wakeStory b s) := by
  obtain ⟨hstanding, hbroker⟩ := h.standing ht s.chain
  rw [wake_eq_conclude, wake_eq_conclude]
  unfold wakeStory
  rw [hs.chain, hs.turn]
  cases hb : b.standing s.chain s.turn with
  | mk st b₁ =>
    cases hb' : b'.standing s.chain s.turn with
    | mk st' b₁' =>
      rw [hb, hb'] at hstanding hbroker
      cases hstanding
      cases st with
      | pending =>
        refine ⟨agrees { hbroker with
          suspended := List.rel_append hbroker.suspended (.cons hs .nil)
          awaited := ?_ }, rfl⟩
        intro s₁ hs₁
        rcases List.mem_append.1 hs₁ with hs₁ | hs₁
        · exact hbroker.awaited s₁ hs₁
        · obtain rfl := List.mem_singleton.1 hs₁
          exact ht
      | failed cause =>
        refine ⟨?_, rfl⟩
        unfold conclude reportFailure
        simp only [hs.chain, hs.current, hs.extension]
        exact (hbroker.report _ _).agrees
      | passed q =>
        obtain ⟨hagrees, hstory⟩ := hbroker.proceed s.chain hs.rest q
        exact ⟨hagrees, hstory⟩

end AgreesOn

end Broker
end BrokerHooks
