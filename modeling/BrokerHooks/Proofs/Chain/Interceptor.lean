import BrokerHooks.Proofs.Chain.Execution
import BrokerHooks.Proofs.Run.Rosters
import BrokerHooks.Proofs.Run.Sessions

namespace BrokerHooks

namespace Roster

def Keeps (c : Nat) (conn : Connection) (r : Roster) : Prop :=
  ∃ conn', r.connection? c = some conn' ∧ conn.Becomes conn'

theorem Keeps.step {c : Nat} {conn : Connection} {r r' : Roster} (hstep : RosterStep r r')
    (h : r.Keeps c conn) : r'.Keeps c conn := by
  obtain ⟨conn₁, hc, h⟩ := h
  obtain ⟨conn₂, hc', h', -⟩ := hstep.changes.carries c conn₁ hc
  exact ⟨conn₂, hc', h'.clientId.trans h.clientId, h'.version.trans h.version,
    fun hclosed => h'.closed (h.closed hclosed), fun hreleased => h'.released (h.released hreleased)⟩

end Roster

namespace Broker

section

variable {P : Roster → Prop} (hP : ∀ r r', RosterStep r r' → P r → P r') {c : Chain} {b b' : Broker}
include hP

theorem Suspends.preserves {r : Ranked} {rest : List Ranked} {p : Packet}
    (h : Suspends c r rest p b b') (hb : P b.roster) : P b'.roster := by
  obtain ⟨b₁, b₂, hcall, hstanding, rfl⟩ := h.suspends
  have h₁ := callback_preserves hP hb c r.hook p
  have h₂ := standing_roster b₁ c b.turns.length
  rw [hcall] at h₁
  rw [hstanding] at h₂
  exact h₂ ▸ h₁

theorem Visited.preserves {r : Ranked} {rest : List Ranked} {p : Packet} {ns : List Move} {v : Visit}
    (h : Visited c r rest p b ns v b') (hb : P b.roster) : P b'.roster := by
  cases h with
  | passedOver hoff => exact hb
  | broke hon hcall _ =>
    have h := callback_preserves hP hb c r.hook p
    rw [hcall] at h
    simpa using h
  | atOnce hon hcall hends =>
    have h := callback_preserves hP hb c r.hook p
    rw [hcall] at h
    rwa [standing_roster]
  | awaited hsus hplay hsilent hmem hends =>
    rw [standing_roster, ← hplay]
    exact play_roster hP (hsus.preserves hP hb) _

theorem Course.preserves {b₀ : Broker} {ms : List Move} {vs : List (Ranked × Visit)}
    {rest : List Ranked} (h : Course c b₀ ms vs rest b) (hb : P b₀.roster) : P b.roster := by
  induction h with
  | began => exact hb
  | next h hp hv ih => exact hv.preserves hP ih

end

end Broker

open Broker

/-- A packet that is executed at a point of a connection, up to its report. The chain waits until its
turn in the lane comes, is taken out of it, and runs; all the time anything else may happen. -/
structure Execution (point : Point) (p : Packet) where
  start : Broker
  connection : Nat
  queued : List Move
  taken : Broker
  running : List Move
  client : Connection
  report : Report
  reachable : start.Reachable
  belongs : p.belongsTo point
  heads : Heads (start.submit connection point p).1
    ((start.submit connection point p).2.play queued) taken
  known : taken.roster.connection? connection = some client
  reported : report ∈ reportsOf (start.submit connection point p).1
    ((taken.begin (start.submit connection point p).1).play running).journal
  /-- The connection is open, even in the end. -/
  opened : ((taken.begin (start.submit connection point p).1).play running).roster.isClosed
    connection = false

/-- Code whose behaviour depends only on what it is handed: it makes the packet for the next hook of
it, or fails. -/
structure Interceptor where
  extension : String
  respond : Input → Except Cause Packet

namespace Interceptor

variable (client : String × ProtocolVersion) (supplied : Packet)

def step (p : Packet) (x : Interceptor) : Except Failure Packet :=
  match x.respond { clientId := client.1, version := client.2, packet := p } with
  | .ok q => .ok q
  | .error cause => .error { extension := x.extension, cause, supplied, lastGood := p }

/-- Takes a packet through a list of interceptors, up to the first that fails. -/
def fold (p : Packet) (xs : List Interceptor) : Except Failure Packet :=
  xs.foldlM (step client supplied) p

theorem fold_append (p : Packet) (xs ys : List Interceptor) :
    fold client supplied p (xs ++ ys) =
      (fold client supplied p xs >>= fun q => fold client supplied q ys) :=
  List.foldlM_append ..

theorem fold_cons (p : Packet) (x : Interceptor) (xs : List Interceptor) :
    fold client supplied p (x :: xs) =
      (step client supplied p x >>= fun q => fold client supplied q xs) :=
  List.foldlM_cons ..

/-- What was supplied is only remembered for a failure. -/
theorem fold_supplied (supplied' p : Packet) (xs : List Interceptor) :
    fold client supplied' p xs =
      (fold client supplied p xs).mapError fun f => { f with supplied := supplied' } := by
  induction xs generalizing p with
  | nil => rfl
  | cons x xs ih =>
    rw [fold_cons, fold_cons]
    unfold step
    split
    · exact ih _
    · rfl

end Interceptor

theorem begin_alone {start : Broker} {connection : Nat} {point : Point} {p : Packet}
    (hp : p.belongsTo point) {hooks : List Ranked}
    (hhooks : start.roster.ordered connection point = hooks) :
    { (start.submit connection point p).2 with waiting := [] }.begin (start.submit connection point p).1 =
      proceed (start.submit connection point p).1 hooks p
        ({ (start.submit connection point p).2 with waiting := [] }.record
          (.began (start.submit connection point p).1)) := by
  subst hhooks
  simp [Broker.begin, submit, hp]

namespace Execution

variable {point : Point} {p : Packet} (e : Execution point p)

/-- The execution of a packet in a broker that is at rest, with nothing else going on: from the hooks
that it has for the packet, it proceeds to the report. -/
def alone {start : Broker} (hstart : start.Reachable)
    (hrest : start.waiting = [] ∧ start.suspended = []) (hp : p.belongsTo point) (connection : Nat)
    {client : Connection} (hclient : start.roster.connection? connection = some client)
    {hooks : List Ranked} (hhooks : start.roster.ordered connection point = hooks) (r : Report)
    (hr : let c := (start.submit connection point p).1
      let b := proceed c hooks p ({ (start.submit connection point p).2 with waiting := [] }.record (.began c))
      reportsOf c b.journal = [r] ∧ b.roster.isClosed connection = false) :
    Execution point p where
  start
  connection
  queued := []
  taken := { (start.submit connection point p).2 with waiting := [] }
  running := []
  client
  report := r
  reachable := hstart
  belongs := hp
  heads := {
    free := by simp [submit, hp, hrest.2]
    head := ⟨[], [], by simp [submit, hp, hrest.1], by simp, rfl⟩ }
  known := by simpa [submit, hp] using hclient
  reported := by
    have hbegin := begin_alone hp hhooks
    simp [hbegin, hr.1]
  opened := by
    have hbegin := begin_alone hp hhooks
    rw [play_nil, hbegin]
    exact hr.2

def identity : String × ProtocolVersion := (e.client.clientId, e.client.version)

def chain : Chain := (e.start.submit e.connection point p).1

def final : Broker := (e.taken.begin e.chain).play e.running

/-- The hooks of the chain, as the roster has them when its turn comes. -/
def hooks : List Ranked := e.taken.roster.ordered e.connection point

/-- The hook at a place of the chain is handed an input, and `v` becomes of it. -/
def Visits (i : Nat) (input : Input) (v : Visit) : Prop :=
  ∃ ms ns ms' vs r rest q b b', e.running = ms ++ ns ++ ms' ∧
    Course e.chain e.taken ms vs (r :: rest) b ∧ vs.length = i ∧ foldVisits p vs = .ok q ∧
    Visited e.chain r rest q b ns v b' ∧ input = b.input e.chain q

/-- The chain runs over these interceptors: its hooks are theirs, and what becomes of a hook is what
the interceptor makes of the input, whatever else happens. -/
structure Over (xs : List Interceptor) : Prop where
  extensions : e.hooks.map (·.hook.extension) = xs.map (·.extension)
  responds : ∀ i input v, e.Visits i input v → ∀ x, xs[i]? = some x →
    v.result input.packet = x.respond input

def FailsAt (i : Nat) (cause : Cause) : Prop :=
  ∃ input v, e.Visits i input v ∧ v.result input.packet = .error cause

theorem chain_eq : e.chain = { number := e.start.chains, connection := e.connection, point, supplied := p } :=
  submit_fst ..

theorem refinesFold : RefinesFold e.chain e.taken e.running e.final := by
  obtain ⟨config, metered, ms, hstart⟩ := e.reachable
  have ho : Orderly e.start := hstart ▸ (orderly_ofConfig config metered).play ms
  obtain ⟨ho, -⟩ := ho.submit e.belongs e.connection
  have hqueued := ho.play e.queued
  have hbegun := hqueued.move (.begin e.chain.lane)
  have hbegin := e.heads.move
  rw [chain, hbegin] at hbegun
  have hstage := (stage_begin e.taken e.chain).play hbegun e.running
  apply hstage.refinesFold
  obtain ⟨before, after, hw, -, htaken⟩ := e.heads.head
  rw [htaken]
  exact hqueued.untold (by simp [hw, chain])

/-- The input of any hook names the client of the connection. -/
theorem input_eq {ms : List Move} {vs : List (Ranked × Visit)} {rest : List Ranked} {b : Broker}
    (h : Course e.chain e.taken ms vs rest b) (q : Packet) :
    b.input e.chain q =
      { clientId := e.identity.1, version := e.identity.2, packet := q } := by
  have hkeeps : b.roster.Keeps e.connection e.client :=
    h.preserves (fun _ _ => Roster.Keeps.step) ⟨e.client, e.known, rfl, rfl, id, id⟩
  obtain ⟨conn, hconn, hbecomes⟩ := hkeeps
  have hc : b.roster.connection? e.chain.connection = some conn := by rw [chain_eq]; exact hconn
  simp only [input, hc, hbecomes.clientId, hbecomes.version, identity]

theorem hooks_getElem? {ms : List Move} {vs : List (Ranked × Visit)} {r : Ranked} {rest : List Ranked}
    {b : Broker} (h : Course e.chain e.taken ms vs (r :: rest) b) : e.hooks[vs.length]? = some r := by
  have hhooks : vs.map (·.1) ++ r :: rest = e.hooks := by
    rw [h.hooks, chain_eq]
    rfl
  rw [← hhooks, List.getElem?_append_right (by simp)]
  simp

theorem exists_interceptor {xs : List Interceptor} (hover : e.Over xs) {ms : List Move}
    {vs : List (Ranked × Visit)} {r : Ranked} {rest : List Ranked} {b : Broker}
    (h : Course e.chain e.taken ms vs (r :: rest) b) :
    ∃ x, xs[vs.length]? = some x ∧ x.extension = r.hook.extension := by
  have hget := congrArg (·[vs.length]?) hover.extensions
  simp only [List.getElem?_map, e.hooks_getElem? h] at hget
  exact Option.map_eq_some_iff.1 hget.symm

/-- What the visits fold to is what the interceptors that were visited make of the packet. -/
theorem fold_visits {xs : List Interceptor} (hover : e.Over xs) {ms ms' : List Move}
    {vs : List (Ranked × Visit)} {rest : List Ranked} {b : Broker}
    (h : Course e.chain e.taken ms vs rest b) (hms : e.running = ms ++ ms') :
    foldVisits p vs = Interceptor.fold e.identity p p (xs.take vs.length) := by
  have hsupplied : e.chain.supplied = p := congrArg Chain.supplied e.chain_eq
  induction h generalizing ms' with
  | began => rfl
  | @next ms ns vs r rest q v b b' h hp hv ih =>
    rw [hsupplied] at hp
    rw [List.append_assoc] at hms
    obtain ⟨x, hx, hext⟩ := e.exists_interceptor hover h
    have hinput := e.input_eq h q
    have hvisits : e.Visits vs.length (b.input e.chain q) v :=
      ⟨ms, ns, ms', vs, r, rest, q, b, b', by rw [hms, List.append_assoc], h, rfl, hp, hv, rfl⟩
    have hresult := hover.responds _ _ _ hvisits x hx
    rw [hinput] at hresult
    -- What became of the hook is what its interceptor says, so the two folds take the same step.
    have hstep : foldVisit p q (r, v) = Interceptor.step e.identity p q x := by
      cases hr : x.respond { clientId := e.identity.1, version := e.identity.2, packet := q } with
      | ok q' => simp [foldVisit, Interceptor.step, hresult, hr]
      | error cause => simp [foldVisit, Interceptor.step, hresult, hr, hext]
    have htake : xs.take (vs ++ [(r, v)]).length = xs.take vs.length ++ [x] := by
      rw [List.length_append, List.length_singleton, List.take_add_one, hx]
      rfl
    rw [foldVisits_concat_of_ok hp, htake, Interceptor.fold_append, ← ih hms, hp, hstep]
    exact (bind_pure _).symm

theorem not_closed {ms ms' : List Move} {vs : List (Ranked × Visit)} {rest : List Ranked} {b : Broker}
    {r : Report} (h : Course e.chain e.taken ms vs rest b)
    (hfinal : e.final = (b.report e.chain r).play ms') : b.roster.isClosed e.connection = false := by
  have hkeeps : b.roster.Keeps e.connection e.client :=
    h.preserves (fun _ _ => Roster.Keeps.step) ⟨e.client, e.known, rfl, rfl, id, id⟩
  obtain ⟨conn, hconn, -⟩ := hkeeps
  -- What is closed stays closed, and in the end the connection is open.
  have hend : e.final.roster.Keeps e.connection conn := by
    rw [hfinal]
    refine play_roster (fun _ _ => Roster.Keeps.step) ?_ ms'
    rw [report_roster]
    exact ⟨conn, hconn, rfl, rfl, id, id⟩
  obtain ⟨conn', hconn', hbecomes⟩ := hend
  have hopen : e.final.roster.isClosed e.connection = false := e.opened
  simp only [Roster.isClosed, hconn', Option.all_some] at hopen
  simp only [Roster.isClosed, hconn, Option.all_some]
  cases hclosed : conn.closed with
  | false => rfl
  | true => exact absurd (hbecomes.closed hclosed) (by simp [hopen])

/-- The course of the chain up to its report: no hook is left, or the visits fold to a failure. -/
theorem visits_of_report :
    ∃ ms ms' vs rest b, e.running = ms ++ ms' ∧ Course e.chain e.taken ms vs rest b ∧
      vs.map (·.1) ++ rest = e.hooks ∧ (rest = [] ∨ ∃ f, foldVisits p vs = .error f) ∧
      e.report = Report.ofFold point (foldVisits p vs) := by
  have hsupplied : e.chain.supplied = p := congrArg Chain.supplied e.chain_eq
  have hpoint : e.chain.point = point := congrArg Chain.point e.chain_eq
  have hconnection : e.chain.connection = e.connection := congrArg Chain.connection e.chain_eq
  have hreported : e.report ∈ reportsOf e.chain e.final.journal := e.reported
  obtain ⟨ms, ms', vs, rest, b, hms, hcourse, hhooks, -, hcase⟩ := e.refinesFold
  rw [hsupplied, hpoint, hconnection] at hcase
  rw [hpoint, hconnection] at hhooks
  rcases hcase with ⟨_, _, _, _, -, -, -, -, -, -, hnone⟩ | ⟨hend, hfinal, -, hreports⟩
  · simp [hnone] at hreported
  · rw [hreports, e.not_closed hcourse hfinal] at hreported
    exact ⟨ms, ms', vs, rest, b, hms, hcourse, hhooks, hend,
      by simpa [Report.onConnection] using hreported⟩

theorem report_eq {xs : List Interceptor} (hover : e.Over xs) :
    e.report = Report.ofFold point (Interceptor.fold e.identity p p xs) := by
  obtain ⟨ms, ms', vs, rest, b, hms, hcourse, hhooks, hend, hreport⟩ := e.visits_of_report
  have hfold := e.fold_visits hover hcourse hms
  rw [hreport, hfold]
  rcases hend with rfl | ⟨f, hf⟩
  · have hlength : vs.length = xs.length := by
      have := congrArg List.length hover.extensions
      rw [List.append_nil] at hhooks
      simpa only [← hhooks, List.length_map] using this
    rw [hlength, List.take_length]
  · -- Whatever is left after a failure makes no difference.
    have hsplit := Interceptor.fold_append e.identity p p (xs.take vs.length) (xs.drop vs.length)
    rw [List.take_append_drop, ← hfold, hf] at hsplit
    rw [← hfold, hf, hsplit]
    rfl

/-- Where a chain fails, the interceptors before have made a packet that the failing one was handed. -/
theorem FailsAt.fold {A B : List Interceptor} {h : Interceptor} {cause : Cause}
    (hfails : e.FailsAt A.length cause) (hover : e.Over (A ++ h :: B)) :
    ∃ q, Interceptor.fold e.identity p p A = .ok q ∧
      ∀ xs, Interceptor.fold e.identity p p (A ++ h :: xs) =
        .error { extension := h.extension, cause, supplied := p, lastGood := q } := by
  obtain ⟨input, v, hvisits, hcause⟩ := hfails
  have hresponds := hover.responds _ _ _ hvisits h (by simp)
  obtain ⟨ms, ns, ms', vs, r, rest, q, b, b', hms, hcourse, hlength, hq, -, rfl⟩ := hvisits
  rw [List.append_assoc] at hms
  have hfold := e.fold_visits hover hcourse hms
  rw [hq, hlength, List.take_left] at hfold
  rw [hcause, e.input_eq hcourse] at hresponds
  refine ⟨q, hfold.symm, fun xs => ?_⟩
  have hstep : Interceptor.step e.identity p q h =
      .error { extension := h.extension, cause, supplied := p, lastGood := q } := by
    unfold Interceptor.step
    rw [← hresponds]
  rw [Interceptor.fold_append, ← hfold]
  simp only [bind, Except.bind, Interceptor.fold_cons, hstep]

/-- Conversely, the chain fails where an interceptor fails on what those before it have made. -/
theorem failsAt_of_fold {A B : List Interceptor} {h : Interceptor} {cause : Cause} {q : Packet}
    (hover : e.Over (A ++ h :: B)) (hA : Interceptor.fold e.identity p p A = .ok q)
    (hh : h.respond { clientId := e.identity.1, version := e.identity.2, packet := q } = .error cause) :
    e.FailsAt A.length cause := by
  obtain ⟨ms, ms', vs, rest, b, hms, hcourse, hhooks, hend⟩ := e.visits_of_report
  have hfold := e.fold_visits hover hcourse hms
  -- The visits go beyond `A`: on it they fold to a packet, and there is a hook left.
  have hlt : A.length < vs.length := by
    refine Nat.lt_of_not_le fun hle => ?_
    rw [List.take_append_of_le_length hle] at hfold
    rcases hend with rfl | ⟨f, hf⟩
    · have hlength := congrArg List.length hover.extensions
      simp only [← hhooks, List.length_map, List.length_append, List.length_cons, List.length_nil]
        at hlength
      omega
    · have hsplit := Interceptor.fold_append e.identity p p (A.take vs.length) (A.drop vs.length)
      rw [List.take_append_drop, ← hfold, hf, hA] at hsplit
      cases hsplit
  obtain ⟨⟨r, v⟩, hget⟩ : ∃ visit, vs[A.length]? = some visit := ⟨_, List.getElem?_eq_getElem hlt⟩
  obtain ⟨ms₁, ns, ms₂, rest₁, q₁, b₁, b₂, rfl, hcourse₁, hq₁, hv⟩ := hcourse.visit_at hget
  have hsupplied : e.chain.supplied = p := congrArg Chain.supplied e.chain_eq
  have hlength : (vs.take A.length).length = A.length := by simp [Nat.le_of_lt hlt]
  have hms₁ : e.running = ms₁ ++ (ns ++ ms₂ ++ ms') := by simpa using hms
  have hfold₁ := e.fold_visits hover hcourse₁ hms₁
  rw [hsupplied] at hq₁
  rw [hlength, List.take_left, hA, hq₁] at hfold₁
  obtain rfl : q₁ = q := Except.ok.inj hfold₁
  have hvisits : e.Visits A.length (b₁.input e.chain q₁) v :=
    ⟨ms₁, ns, ms₂ ++ ms', vs.take A.length, r, rest₁, q₁, b₁, b₂, by simpa using hms, hcourse₁,
      hlength, hq₁, hv, rfl⟩
  have hresult := hover.responds _ _ _ hvisits h (by simp)
  rw [e.input_eq hcourse₁ q₁, hh] at hresult
  exact ⟨_, v, hvisits, by rw [e.input_eq hcourse₁ q₁]; exact hresult⟩

end Execution

end BrokerHooks
