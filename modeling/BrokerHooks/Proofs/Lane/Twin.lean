import BrokerHooks.Proofs.Lane.Frame
import BrokerHooks.Proofs.Late.Chain

namespace BrokerHooks.Broker

def laneInputs (lane : Nat × Point) (numbers : List Nat) (ds : List Deed) : List (Chain × Nat × Input × Turn) :=
  ((inputsIn ds).filter (·.1.lane = lane)).map fun x => (x.1.among numbers, x.2)

/-- The broker after a hook that acts on its own output alone has returned. -/
def afterCallback (b : Broker) (c : Chain) (hook : Hook) (p : Packet) (result : Played) : Broker :=
  (b.invited c hook p).afterPlay { connection := c.connection, turn := b.turns.length } result

def suspend (b : Broker) (s : Suspended) : Broker := { b with suspended := b.suspended ++ [s] }

/-- A chain of the lane runs in both, at the same time. -/
structure Running (lane : Nat × Point) (numbers numbers' : List Nat) (b b' : Broker) : Prop
    extends AlikeIn lane numbers numbers' b b' where
  now : b'.now = b.now
  kept : b.roster.isReleased lane.1 = false
  kept' : b'.roster.isReleased lane.1 = false
  free : ∀ s ∈ b.suspended, s.chain.lane ≠ lane
  free' : ∀ s ∈ b'.suspended, s.chain.lane ≠ lane
  sleepers_lt : ∀ w ∈ b.sleepers, w.site.turn < b.turns.length
  sleepers_lt' : ∀ w ∈ b'.sleepers, w.site.turn < b'.turns.length

/-- The chain is about to look at its turn, which is the same in both. -/
structure OnTurn (lane : Nat × Point) (numbers numbers' : List Nat) (b b' : Broker) (i i' : Nat) : Prop
    extends Running lane numbers numbers' b b' where
  turn : b'.turn? i' = b.turn? i
  tasks : b'.tasksOf i' = b.tasksOf i

variable {lane : Nat × Point} {numbers numbers' : List Nat} {b b' : Broker}

theorem laneInputs_append (ds ds' : List Deed) :
    laneInputs lane numbers (ds ++ ds') = laneInputs lane numbers ds ++ laneInputs lane numbers ds' := by
  unfold laneInputs
  rw [inputsIn_append, List.filter_append, List.map_append]

theorem pausesIn_of_free (h : ∀ s ∈ b.suspended, s.chain.lane ≠ lane) (numbers : List Nat) :
    b.pausesIn lane numbers = [] := by
  have hnone : b.suspended.filter (·.chain.lane = lane) = [] :=
    List.filter_eq_nil_iff.2 fun s hs => by simpa using h s hs
  rw [pausesIn, hnone, List.map_nil]

theorem pausesIn_suspend (h : ∀ s ∈ b.suspended, s.chain.lane ≠ lane) {s : Suspended} (hs : s.chain.lane = lane)
    (numbers : List Nat) : (b.suspend s).pausesIn lane numbers = [b.pauseOf numbers s] := by
  have hnone : b.suspended.filter (·.chain.lane = lane) = [] :=
    List.filter_eq_nil_iff.2 fun s hs => by simpa using h s hs
  have hone : (b.suspend s).suspended.filter (·.chain.lane = lane) = [s] := by
    simp [suspend, List.filter_append, hnone, hs]
  rw [pausesIn, hone]
  rfl

theorem chronicleIn_record (b : Broker) {e : Event} (he : e.lane? = some lane) (numbers : List Nat) :
    (b.record e).chronicleIn lane numbers =
      b.chronicleIn lane numbers ++ [{ time := b.now, event := e.mapChain (·.among numbers) }] := by
  rw [chronicleIn_append (record_journal b e)]
  simp [he]

theorem afterCallback_turn? (b : Broker) (c : Chain) (hook : Hook) (p : Packet) (result : Played) :
    (b.afterCallback c hook p result).turn? b.turns.length = some result.turn :=
  afterPlay_turn? (invited_turn? b c hook p) result

theorem afterPlay_tasksOf (b : Broker) {site : Site} {i : Nat} (hsite : site.turn = i) (result : Played) :
    (b.afterPlay site result).tasksOf i = b.tasksOf i ++ result.tasks := by
  have hnew : (result.tasks.map fun w => ({ due := w.1, site, program := w.2 } : Sleeper)).filter
      (·.site.turn = i) = result.tasks.map fun w => { due := w.1, site, program := w.2 } :=
    List.filter_eq_self.2 fun w hw => by
      obtain ⟨task, -, rfl⟩ := List.mem_map.1 hw
      simpa using hsite
  unfold tasksOf afterPlay
  rw [List.filter_append, List.map_append, hnew, List.map_map]
  exact congrArg (_ ++ ·) (List.map_id' _)

theorem afterPlay_chronicleIn (b : Broker) (site : Site) (result : Played) (numbers : List Nat) :
    (b.afterPlay site result).chronicleIn lane numbers = b.chronicleIn lane numbers := by
  have hnone : (result.notes.map fun n => ({ time := b.now, event := .noted n } : Entry)).filter
      (·.event.lane? = some lane) = [] := by
    refine List.filter_eq_nil_iff.2 fun e he => ?_
    obtain ⟨n, -, rfl⟩ := List.mem_map.1 he
    simp [Event.lane?]
  have hjournal : (b.afterPlay site result).journal = b.journal ++
      result.notes.map fun n => { time := b.now, event := .noted n } := rfl
  rw [chronicleIn_append hjournal, hnone, List.map_nil, List.append_nil]

theorem afterCallback_tasksOf (hlt : ∀ w ∈ b.sleepers, w.site.turn < b.turns.length) (c : Chain)
    (hook : Hook) (p : Packet) (result : Played) :
    (b.afterCallback c hook p result).tasksOf b.turns.length = result.tasks := by
  have hold : (b.invited c hook p).tasksOf b.turns.length = [] := by
    have hnone : b.sleepers.filter (·.site.turn = b.turns.length) = [] :=
      List.filter_eq_nil_iff.2 fun w hw => by simpa using Nat.ne_of_lt (hlt w hw)
    exact congrArg (List.map _) hnone
  rw [afterCallback, afterPlay_tasksOf _ rfl, hold, List.nil_append]

theorem afterCallback_chronicleIn (b : Broker) {c : Chain} (hlane : c.lane = lane) (hook : Hook) (p : Packet)
    (result : Played) (numbers : List Nat) : (b.afterCallback c hook p result).chronicleIn lane numbers =
      b.chronicleIn lane numbers ++
        [{ time := b.now, event := .invoked (c.among numbers) hook.number p }] := by
  rw [afterCallback, afterPlay_chronicleIn]
  exact chronicleIn_record { b with turns := b.turns ++ [Turn.fresh c.point b.limits b.maxTimeout p] }
    (e := .invoked c hook.number p) (congrArg some hlane) numbers

theorem afterCallback_sleepers_lt (hlt : ∀ w ∈ b.sleepers, w.site.turn < b.turns.length) (c : Chain)
    (hook : Hook) (p : Packet) (result : Played) :
    ∀ w ∈ (b.afterCallback c hook p result).sleepers,
      w.site.turn < (b.afterCallback c hook p result).turns.length := by
  have hlength : (b.afterCallback c hook p result).turns.length = b.turns.length + 1 := by
    simp [afterCallback, afterPlay, invited]
  intro w hw
  rw [hlength]
  rcases List.mem_append.1 hw with hw | hw
  · exact Nat.lt_succ_of_lt (hlt w hw)
  · obtain ⟨task, -, rfl⟩ := List.mem_map.1 hw
    exact Nat.lt_succ_self _

namespace Running

theorem record (h : Running lane numbers numbers' b b') (e e' : Event) (he : e.lane? = some lane)
    (he' : e'.lane? = some lane) (hsame : e'.mapChain (·.among numbers') = e.mapChain (·.among numbers)) :
    Running lane numbers numbers' (b.record e) (b'.record e') :=
  { h with
    chronicle := by rw [chronicleIn_record b he, chronicleIn_record b' he', h.chronicle, h.now, hsame] }

theorem meter (h : Running lane numbers numbers' b b') (f f' : Metrics → Metrics) :
    Running lane numbers numbers' (b.meter f) (b'.meter f') := by
  unfold Broker.meter
  split <;> split <;> exact { h with }

theorem setTurn (h : Running lane numbers numbers' b b') (i i' : Nat) (t t' : Turn) :
    Running lane numbers numbers' (b.setTurn i t) (b'.setTurn i' t') :=
  { h with
    pauses := by rw [pausesIn_of_free (b := b.setTurn i t) h.free, pausesIn_of_free (b := b'.setTurn i' t') h.free']
    sleepers_lt := by simpa [Broker.setTurn] using h.sleepers_lt
    sleepers_lt' := by simpa [Broker.setTurn] using h.sleepers_lt' }

section

variable {c c' : Chain}

theorem among_fields (hsame : c'.among numbers' = c.among numbers) :
    c'.connection = c.connection ∧ c'.point = c.point ∧ c'.supplied = c.supplied := by
  have hconnection := congrArg Chain.connection hsame
  have hpoint := congrArg Chain.point hsame
  have hsupplied := congrArg Chain.supplied hsame
  exact ⟨hconnection, hpoint, hsupplied⟩

theorem lane_eq (hlane : c.lane = lane) (hsame : c'.among numbers' = c.among numbers) : c'.lane = lane :=
  (congrArg Chain.lane hsame).trans hlane

theorem input (h : Running lane numbers numbers' b b') (hlane : c.lane = lane)
    (hsame : c'.among numbers' = c.among numbers) (p : Packet) : b'.input c' p = b.input c p := by
  have hc : c.connection = lane.1 := congrArg Prod.fst hlane
  have hc' : c'.connection = lane.1 := congrArg Prod.fst (lane_eq hlane hsame)
  obtain ⟨conn, conn', hconn, hconn', hseen⟩ := h.roster.exists_connection h.kept h.kept'
  have hclientId : conn'.clientId = conn.clientId := congrArg (·.clientId) hseen
  have hversion : conn'.version = conn.version := congrArg (·.version) hseen
  unfold Broker.input
  rw [hc, hc', hconn, hconn']
  simp only [hclientId, hversion]

theorem played (h : Running lane numbers numbers' b b') (hlane : c.lane = lane)
    (hsame : c'.among numbers' = c.among numbers) (hook : Hook) (p : Packet) :
    b'.played c' hook p = b.played c hook p := by
  unfold Broker.played
  rw [h.input hlane hsame, h.limits, h.maxTimeout, h.now, (among_fields hsame).2.1]

theorem afterCallback (h : Running lane numbers numbers' b b') (hlane : c.lane = lane)
    (hsame : c'.among numbers' = c.among numbers) (hook : Hook) (p : Packet) (result : Played) :
    OnTurn lane numbers numbers' (b.afterCallback c hook p result) (b'.afterCallback c' hook p result)
      b.turns.length b'.turns.length :=
  { h with
    pauses := by
      rw [pausesIn_of_free (b := b.afterCallback c hook p result) h.free,
        pausesIn_of_free (b := b'.afterCallback c' hook p result) h.free']
    chronicle := by
      rw [afterCallback_chronicleIn b hlane, afterCallback_chronicleIn b' (lane_eq hlane hsame), h.chronicle, h.now,
        hsame]
    sleepers_lt := afterCallback_sleepers_lt h.sleepers_lt c hook p result
    sleepers_lt' := afterCallback_sleepers_lt h.sleepers_lt' c' hook p result
    turn := by rw [afterCallback_turn?, afterCallback_turn?]
    tasks := by rw [afterCallback_tasksOf h.sleepers_lt, afterCallback_tasksOf h.sleepers_lt'] }

theorem report (h : Running lane numbers numbers' b b') (hlane : c.lane = lane)
    (hsame : c'.among numbers' = c.among numbers) (r : Report) :
    AlikeIn lane numbers numbers' (b.report c r) (b'.report c' r) := by
  have hc : c.connection = lane.1 := congrArg Prod.fst hlane
  have hclosed : b'.roster.isClosed c'.connection = b.roster.isClosed c.connection := by
    rw [(among_fields hsame).1, hc, h.roster.isClosed h.kept h.kept']
  unfold Broker.report
  rw [hclosed]
  refine ((h.meter _ _).record (.reported c _) (.reported c' _) (congrArg some hlane)
    (congrArg some (lane_eq hlane hsame)) ?_).toAlikeIn
  exact congrArg (Event.reported · _) hsame

theorem reportFailure (h : Running lane numbers numbers' b b') (hlane : c.lane = lane)
    (hsame : c'.among numbers' = c.among numbers) (current : Packet) (extension : String) (cause : Cause) :
    AlikeIn lane numbers numbers' (b.reportFailure c current extension cause)
      (b'.reportFailure c' current extension cause) := by
  obtain ⟨-, hpoint, hsupplied⟩ := among_fields hsame
  unfold Broker.reportFailure
  simp only [hpoint, hsupplied]
  exact h.report hlane hsame _

end

end Running

namespace OnTurn

variable {i i' : Nat} {c c' : Chain}

theorem meter (h : OnTurn lane numbers numbers' b b' i i') (f f' : Metrics → Metrics) :
    OnTurn lane numbers numbers' (b.meter f) (b'.meter f') i i' :=
  { h.toRunning.meter f f' with
    turn := by simpa [Broker.turn?] using h.turn
    tasks := by simpa [tasksOf] using h.tasks }

theorem setTurn (h : OnTurn lane numbers numbers' b b' i i') {t : Turn} (ht : b.turn? i = some t) (next : Turn) :
    OnTurn lane numbers numbers' (b.setTurn i next) (b'.setTurn i' next) i i' :=
  { h.toRunning.setTurn i i' next next with
    turn := by rw [setTurn_turn? ht, setTurn_turn? (h.turn.trans ht)]
    tasks := h.tasks }

theorem standing (h : OnTurn lane numbers numbers' b b' i i') (hlane : c.lane = lane)
    (hsame : c'.among numbers' = c.among numbers) : ∃ st b₁ b₁', b.standing c i = (st, b₁) ∧
      b'.standing c' i' = (st, b₁') ∧ OnTurn lane numbers numbers' b₁ b₁' i i' := by
  unfold Broker.standing
  rw [h.turn]
  cases ht : b.turn? i with
  | none => exact ⟨_, _, _, rfl, rfl, h⟩
  | some t =>
    simp only [h.now]
    cases t.poll b.now with
    | mk completion next =>
      have hset := h.setTurn ht next
      cases completion with
      | none => exact ⟨_, _, _, rfl, rfl, hset⟩
      | some completion =>
        refine ⟨_, _, _, rfl, rfl, ?_⟩
        cases completion with
        | immediate | resumed => exact hset
        | timedOut fallback =>
          have hmetered := hset.meter (·.timedOut fallback) (·.timedOut fallback)
          exact { hmetered.record (.expired c fallback) (.expired c' fallback) (congrArg some hlane)
              (congrArg some (Running.lane_eq hlane hsame)) (congrArg (Event.expired · fallback) hsame) with
            turn := hmetered.turn
            tasks := hmetered.tasks }

theorem suspend (h : OnTurn lane numbers numbers' b b' i i') {s s' : Suspended} (hs : s.turn = i) (hs' : s'.turn = i')
    (hlane : s.chain.lane = lane) (hsame : s'.chain.among numbers' = s.chain.among numbers)
    (hcurrent : s'.current = s.current) (hextension : s'.extension = s.extension) (hrest : s'.rest = s.rest) :
    AlikeIn lane numbers numbers' (b.suspend s) (b'.suspend s') :=
  { h.toAlikeIn with
    pauses := by
      rw [pausesIn_suspend h.free hlane, pausesIn_suspend h.free' (Running.lane_eq hlane hsame)]
      unfold pauseOf
      rw [hsame, hcurrent, hextension, hrest, hs, hs', h.turn, h.tasks] }

end OnTurn

namespace Running

variable {c c' : Chain}

/-- A hook gets its turn, or is passed over, in both. -/
theorem serve (h : Running lane numbers numbers' b b') (hlane : c.lane = lane)
    (hsame : c'.among numbers' = c.among numbers) {r : Ranked} (hown : ActsOnOwnOutput r.hook.respond) (p : Packet) :
    ∃ st b₁ b₁', b.serve c r p = (st, b₁) ∧ b'.serve c' r p = (st, b₁') ∧ Running lane numbers numbers' b₁ b₁' ∧
      (st = .pending → OnTurn lane numbers numbers' b₁ b₁' b.turns.length b'.turns.length) := by
  unfold Broker.serve
  rw [h.roster.isEnabled]
  split
  · rw [callback_private hown, callback_private hown, h.played hlane hsame]
    have hcalled := h.afterCallback hlane hsame r.hook p (b.played c r.hook p)
    cases (b.played c r.hook p).cause with
    | some cause => exact ⟨_, _, _, rfl, rfl, hcalled.toRunning.meter _ _, nofun⟩
    | none =>
      obtain ⟨st, b₁, b₁', hst, hst', hturn⟩ := hcalled.standing hlane hsame
      exact ⟨st, b₁, b₁', hst, hst', hturn.toRunning, fun _ => hturn⟩
  · exact ⟨_, _, _, rfl, rfl, h, nofun⟩

theorem inputs_serve (h : Running lane numbers numbers' b b') (hlane : c.lane = lane)
    (hsame : c'.among numbers' = c.among numbers) (r : Ranked) (p : Packet) :
    laneInputs lane numbers' (serveStory b' c' r p) = laneInputs lane numbers (serveStory b c r p) := by
  unfold laneInputs
  rw [inputsIn_serveStory, inputsIn_serveStory, h.roster.isEnabled, h.input hlane hsame, h.limits, h.maxTimeout,
    (among_fields hsame).2.1]
  split
  · simp [hlane, lane_eq hlane hsame, hsame]
  · rfl

/-- The chains run on alike until they halt: their hooks are handed the same, and the lane sees no difference
afterwards. -/
theorem proceed (h : Running lane numbers numbers' b b') (hlane : c.lane = lane)
    (hsame : c'.among numbers' = c.among numbers) {hooks : List Ranked} (hown : OwnHooks hooks) (p : Packet) :
    AlikeIn lane numbers numbers' (Broker.proceed c hooks p b) (Broker.proceed c' hooks p b') ∧
      laneInputs lane numbers' (proceedStory c' hooks p b') = laneInputs lane numbers (proceedStory c hooks p b) := by
  induction hooks generalizing p b b' with
  | nil => exact ⟨h.report hlane hsame _, rfl⟩
  | cons r rest ih =>
    obtain ⟨hhook, hrest⟩ := List.forall_mem_cons.1 hown
    obtain ⟨st, b₁, b₁', hst, hst', hrunning, hpending⟩ := h.serve hlane hsame hhook p
    have hinputs := h.inputs_serve hlane hsame r p
    rw [proceed_cons, proceed_cons]
    unfold proceedStory
    rw [laneInputs_append, laneInputs_append, hinputs, hst, hst']
    cases st with
    | pending => exact ⟨(hpending rfl).suspend rfl rfl hlane hsame rfl rfl rfl, rfl⟩
    | failed cause => exact ⟨hrunning.reportFailure hlane hsame p r.hook.extension cause, rfl⟩
    | passed q =>
      obtain ⟨halike, hlater⟩ := ih hrunning hrest q
      exact ⟨halike, congrArg (laneInputs lane numbers (serveStory b c r p) ++ ·) hlater⟩

theorem begin (h : Running lane numbers numbers' b b') (hlane : c.lane = lane)
    (hsame : c'.among numbers' = c.among numbers) (hown : OwnHooks (b.roster.ordered c.connection c.point)) :
    AlikeIn lane numbers numbers' (b.begin c) (b'.begin c') ∧
      laneInputs lane numbers' (beginStory b' c') = laneInputs lane numbers (beginStory b c) := by
  have hc : c.connection = lane.1 := congrArg Prod.fst hlane
  have hbegan := h.record (.began c) (.began c') (congrArg some hlane)
    (congrArg some (lane_eq hlane hsame)) (congrArg Event.began hsame)
  obtain ⟨hconnection, hpoint, hsupplied⟩ := among_fields hsame
  have hordered : b'.roster.ordered c'.connection c'.point = b.roster.ordered c.connection c.point := by
    rw [hconnection, hpoint, hc, h.roster.ordered h.kept h.kept']
  unfold Broker.begin beginStory
  rw [hordered, hsupplied]
  exact hbegan.proceed hlane hsame hown c.supplied

end Running

theorem OnTurn.wake {s s' : Suspended} (h : OnTurn lane numbers numbers' b b' s.turn s'.turn)
    (hlane : s.chain.lane = lane) (hsame : s'.chain.among numbers' = s.chain.among numbers)
    (hcurrent : s'.current = s.current) (hextension : s'.extension = s.extension) (hrest : s'.rest = s.rest)
    (hown : OwnHooks s.rest) : AlikeIn lane numbers numbers' (b.wake s) (b'.wake s') ∧
      laneInputs lane numbers' (wakeStory b' s') = laneInputs lane numbers (wakeStory b s) := by
  obtain ⟨st, b₁, b₁', hst, hst', hturn⟩ := h.standing hlane hsame
  rw [wake_eq_conclude, wake_eq_conclude]
  unfold wakeStory
  rw [hst, hst']
  cases st with
  | pending => exact ⟨hturn.suspend rfl rfl hlane hsame hcurrent hextension hrest, rfl⟩
  | failed cause =>
    refine ⟨?_, rfl⟩
    unfold conclude
    rw [hcurrent, hextension]
    exact hturn.toRunning.reportFailure hlane hsame s.current s.extension cause
  | passed q =>
    unfold conclude
    rw [hrest]
    exact hturn.toRunning.proceed hlane hsame hown q

end BrokerHooks.Broker
