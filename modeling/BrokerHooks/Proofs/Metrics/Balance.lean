import BrokerHooks.Proofs.Metrics.Books
import BrokerHooks.Session.Basic

namespace BrokerHooks.Broker

def Standing.owed (point : Point) : Standing → List (Point × Cause)
  | .failed cause => [(point, cause)]
  | .pending | .passed _ => []

theorem standingOf_balanced {k : Books} (h : k.Balanced []) (point : Point) (t : Turn) {completion : Completion}
    (hcompletion : completion ≠ .timedOut .failure) : k.Balanced ((standingOf t completion).owed point) := by
  have hsettled : k.Balanced (Standing.owed point
      (if t.prevented then .failed .prevented else .passed t.draft.packet)) := by
    split
    · exact h.prevented point
    · exact h
  cases completion with
  | immediate | resumed => exact hsettled
  | timedOut fallback =>
    cases fallback with
    | success => exact hsettled
    | failure => exact absurd rfl hcompletion

theorem books_expire {b : Broker} (hmetered : b.metered) (c : Chain) (turn : Nat) (t : Turn) (fallback : Fallback) :
    (((b.setTurn turn { t with deferral := .timedOut fallback }).meter (·.timedOut fallback)).record
      (.expired c fallback)).books =
        { b.books with
          timeouts := b.books.timeouts.bump fallback
          expired := b.books.expired.set turn (some fallback) } := by
  rw [books_record rfl]
  simp [meter, setTurn, hmetered, books, Metrics.timedOut, List.map_set, Turn.expired?]

/-- Looking at a turn that has not run out of time leaves the failure of the turn as a debt. -/
theorem standing_balanced {b : Broker} (h : b.books.Balanced []) (c : Chain) {turn : Nat}
    (hturn : b.books.expired[turn]? = some none) :
    (b.standing c turn).2.books.Balanced ((b.standing c turn).1.owed c.point) ∧
      ((b.standing c turn).1 = .pending → (b.standing c turn).2.books = b.books) := by
  obtain ⟨t, ht, hunexpired⟩ : ∃ t, b.turn? turn = some t ∧ t.expired? = none := by
    simpa [books, turn?] using hturn
  have hsame : (b.setTurn turn t).books = b.books := books_setTurn ht rfl
  unfold standing
  rw [ht]
  cases hdeferral : t.deferral with
  | notRequested =>
    have hpoll : t.poll b.now = (some .immediate, t) := by simp [Turn.poll, hdeferral]
    simp only [hpoll, hsame]
    exact ⟨standingOf_balanced h c.point t (by simp), fun _ => trivial⟩
  | resumed =>
    have hpoll : t.poll b.now = (some .resumed, t) := by simp [Turn.poll, hdeferral]
    simp only [hpoll, hsame]
    exact ⟨standingOf_balanced h c.point t (by simp), fun _ => trivial⟩
  -- The turn would have been counted as expired already.
  | timedOut fallback => simp [Turn.expired?, hdeferral] at hunexpired
  | pending deadline fallback =>
    by_cases hdue : deadline ≤ b.now
    · have hpoll : t.poll b.now = (some (.timedOut fallback), { t with deferral := .timedOut fallback }) := by
        simp [Turn.poll, hdeferral, hdue]
      simp only [hpoll, books_expire h.metered]
      have hexpired := h.expire c.point hturn fallback
      cases fallback with
      | failure => exact ⟨hexpired, by simp [standingOf]⟩
      | success =>
        refine ⟨standingOf_balanced hexpired c.point _ (by simp), fun hpending => ?_⟩
        simp only [standingOf] at hpending
        split at hpending <;> cases hpending
    · have hpoll : t.poll b.now = (none, t) := by simp [Turn.poll, hdeferral, hdue]
      simp only [hpoll, hsame]
      exact ⟨h, fun _ => trivial⟩

/-- Serving a hook leaves the failure of its turn as a debt. If the turn is pending, it has not run out of time. -/
theorem serve_balanced {b : Broker} (h : b.books.Balanced []) (c : Chain) (r : Ranked) (p : Packet) :
    (b.serve c r p).2.books.Balanced ((b.serve c r p).1.owed c.point) ∧
      ((b.serve c r p).1 = .pending → (b.serve c r p).2.books.expired[b.turns.length]? = some none) := by
  have hlength : b.books.expired.length = b.turns.length := List.length_map ..
  unfold serve
  split
  · cases hcall : b.callback c r.hook p with
    | mk cause b' =>
      have hbooks := books_callback hcall
      have hbalanced : b'.books.Balanced [] := hbooks ▸ h.extend
      cases cause with
      | some cause =>
        have herror := hbalanced.extensionError c.point (callback_cause hcall)
        have hmeter : (b'.meter (·.extensionError c.point)).books =
            { b'.books with extensionErrors := b'.books.extensionErrors.bump c.point } := by
          have hmetered : b'.metered = true := hbalanced.metered
          simp [meter, hmetered, books, Metrics.extensionError]
        simp only [hmeter]
        exact ⟨herror, by simp⟩
      | none =>
        have hturn : b'.books.expired[b.turns.length]? = some none := by
          rw [hbooks, ← hlength]
          exact List.getElem?_concat_length ..
        obtain ⟨hstanding, hpending⟩ := standing_balanced hbalanced c hturn
        exact ⟨hstanding, fun h => by rw [hpending h]; exact hturn⟩
  · exact ⟨h, by simp⟩

theorem report_balanced {b : Broker} {owed : List (Point × Cause)} (h : b.books.Balanced owed) (c : Chain)
    {r : Report} (hr : (r.failure.map fun f => (c.point, f.cause)).toList = owed) :
    (b.report c r).books.Balanced [] := by
  have hmetered : b.metered = true := h.metered
  have hbooks : (b.report c r).books =
      let x := (c, r.onConnection (b.roster.isClosed c.connection))
      { b.books with chains := b.books.chains.bump (labelOf x), reports := b.books.reports ++ [x] } := by
    simp [report, meter, hmetered, books, record, Metrics.chainCompleted, labelOf, Event.reported?]
  rw [hbooks]
  exact h.report (by simpa [failureOf?] using hr)

/-- The books balance but for what is owed, and each of the turns for which chains are suspended has one chain and
has not run out of time. -/
structure Accounted (owed : List (Point × Cause)) (b : Broker) : Prop where
  balanced : b.books.Balanced owed
  awaited : ∀ s ∈ b.suspended, b.books.expired[s.turn]? = some none
  distinct : b.suspended.Pairwise (·.turn ≠ ·.turn)

namespace Accounted

variable {b b' : Broker} {owed owed' : List (Point × Cause)}

theorem of_books (h : Accounted owed b) (hbooks : b'.books = b.books) (hsuspended : b'.suspended = b.suspended) :
    Accounted owed b' where
  balanced := hbooks ▸ h.balanced
  awaited := by rw [hsuspended, hbooks]; exact h.awaited
  distinct := hsuspended ▸ h.distinct

theorem lt (h : Accounted owed b) {s : Suspended} (hs : s ∈ b.suspended) : s.turn < b.turns.length := by
  obtain ⟨hlt, -⟩ := List.getElem?_eq_some_iff.1 (h.awaited s hs)
  simpa [books] using hlt

/-- What happens to other turns does not matter to those for which chains are suspended. -/
theorem of_effect {who : Option Chain} {touched : Nat → Prop} (h : Accounted owed b)
    (he : Effect who touched b b') (hnot : ∀ s ∈ b.suspended, ¬touched s.turn)
    (hbalanced : b'.books.Balanced owed') : Accounted owed' b' where
  balanced := hbalanced
  awaited := by
    rw [he.suspended]
    intro s hs
    have hsame : b'.turns[s.turn]? = b.turns[s.turn]? := he.turn? s.turn (h.lt hs) (hnot s hs)
    have hunexpired := h.awaited s hs
    unfold books at hunexpired ⊢
    rw [List.getElem?_map] at hunexpired ⊢
    rw [hsame]
    exact hunexpired
  distinct := he.suspended ▸ h.distinct

theorem report (h : Accounted owed b) (c : Chain) {r : Report}
    (hr : (r.failure.map fun f => (c.point, f.cause)).toList = owed) : Accounted [] (b.report c r) where
  balanced := report_balanced h.balanced c hr
  awaited := by
    have hexpired : (b.report c r).books.expired = b.books.expired := by simp [books]
    rw [hexpired, report_suspended]
    exact h.awaited
  distinct := by
    rw [report_suspended]
    exact h.distinct

theorem suspend (h : Accounted owed b) {s : Suspended} (hturn : b.books.expired[s.turn]? = some none)
    (hnew : ∀ s' ∈ b.suspended, s'.turn ≠ s.turn) :
    Accounted owed { b with suspended := b.suspended ++ [s] } where
  balanced := h.balanced
  awaited := by
    intro s' hs'
    rcases List.mem_append.1 hs' with hs' | hs'
    · exact h.awaited s' hs'
    · obtain rfl := List.mem_singleton.1 hs'
      exact hturn
  distinct := List.pairwise_append.2 ⟨h.distinct, List.pairwise_singleton .., by simpa using hnew⟩

theorem serve (h : Accounted [] b) (c : Chain) (r : Ranked) (p : Packet) :
    Accounted ((b.serve c r p).1.owed c.point) (b.serve c r p).2 := by
  have he : Effect (some c) (fun _ => False) b (b.serve c r p).2 := (Effect.serve b r p).1
  exact h.of_effect he (by simp) (serve_balanced h.balanced c r p).1

theorem proceed (h : Accounted [] b) (c : Chain) (hooks : List Ranked) (p : Packet) :
    Accounted [] (proceed c hooks p b) := by
  refine proceed_induction (motive := fun _ _ b => Accounted [] b) ?finished ?pending ?failed ?passed h
  case finished => exact fun p b h => h.report c rfl
  case pending =>
    intro r rest p b b' h hs
    have hserved := h.serve c r p
    have hturn := (serve_balanced h.balanced c r p).2
    have he : Effect (some c) (fun _ => False) _ _ := (Effect.of_serve hs).1
    rw [hs] at hserved hturn
    refine hserved.suspend (hturn rfl) fun s hmem => ?_
    rw [he.suspended] at hmem
    exact Nat.ne_of_lt (h.lt hmem)
  case failed =>
    intro r rest p b cause b' h hs
    have hserved := h.serve c r p
    rw [hs] at hserved
    exact hserved.report c rfl
  case passed =>
    intro r rest p b q b' h hs
    have hserved := h.serve c r p
    rw [hs] at hserved
    exact hserved

theorem begins (h : Accounted [] b) (c : Chain) : Accounted [] (b.begin c) :=
  have hbegun : Accounted [] (b.record (.began c)) := h.of_books (books_record rfl b) rfl
  hbegun.proceed c _ _

/-- A suspended chain is taken out, and runs on from the turn for which it was suspended. -/
theorem wake (h : Accounted [] b) {before after : List Suspended} {s : Suspended}
    (hs : b.suspended = before ++ s :: after) :
    Accounted [] ({ b with suspended := before ++ after }.wake s) := by
  have hturn : b.books.expired[s.turn]? = some none := h.awaited s (by simp [hs])
  have hdistinct := h.distinct
  rw [hs] at hdistinct
  have hothers : ∀ s' ∈ before ++ after, s'.turn ≠ s.turn := by
    intro s' hs'
    obtain ⟨-, hafter, hbefore⟩ := List.pairwise_append.1 hdistinct
    rcases List.mem_append.1 hs' with hs' | hs'
    · exact hbefore s' hs' s (by simp)
    · exact ((List.pairwise_cons.1 hafter).1 s' hs').symm
  have htaken : Accounted [] { b with suspended := before ++ after } :=
    ⟨h.balanced, fun s' hs' => h.awaited s' (mem_of_split hs hs'), hdistinct.sublist (by simp)⟩
  have he : Effect (some s.chain) (· = s.turn) { b with suspended := before ++ after }
      ({ b with suspended := before ++ after }.standing s.chain s.turn).2 := .standing (by rfl) _
  obtain ⟨hbalanced, hpending⟩ := standing_balanced htaken.balanced s.chain hturn
  have hstanding := htaken.of_effect he hothers hbalanced
  rw [wake_eq_conclude]
  cases hst : { b with suspended := before ++ after }.standing s.chain s.turn with
  | mk standing b' =>
    rw [hst] at he hstanding hpending
    cases standing with
    | pending =>
      have hsuspended : b'.suspended = before ++ after := he.suspended
      have hunexpired : b'.books.expired[s.turn]? = some none := by
        rw [hpending rfl]
        exact hturn
      exact hstanding.suspend hunexpired (hsuspended ▸ hothers)
    | failed cause => exact hstanding.report s.chain rfl
    | passed q => exact hstanding.proceed s.chain s.rest q

theorem move (h : Accounted [] b) (m : Move) : Accounted [] (b.move m) := by
  cases m with
  | submit connection point p =>
    unfold Broker.move submit
    simp only
    split
    · exact h.of_books rfl rfl
    · exact h.of_books (books_record (e := .misrouted _) rfl _) rfl
  | begin lane =>
    unfold Broker.move
    simp only
    split
    · split
      · rename_i c rest _
        exact begins (h.of_books rfl rfl : Accounted [] { b with waiting := rest }) c
      · exact h
    · exact h
  | wake i =>
    unfold Broker.move
    simp only
    split
    · rename_i s hs
      obtain ⟨before, after, rfl, hsplit, herase⟩ := eraseIdx_split hs
      rw [herase]
      exact h.wake hsplit
    · exact h
  | work i =>
    unfold Broker.move
    simp only
    split
    · exact h.of_books (books_run ..) (runSleeper_idles b _ _).suspended
    · exact h
  | perform site op =>
    have he : Effect none (fun _ => True) b (b.perform site op).2 := .perform trivial b op
    exact h.of_books (books_perform b site op) he.suspended
  | _ => exact h.of_books rfl rfl

theorem play (h : Accounted [] b) (ms : List Move) : Accounted [] (b.play ms) :=
  play_preserves (P := Accounted []) (fun _ m h => h.move m) h ms

end Accounted

theorem accounted_ofConfig (config : Config) : Accounted [] (ofConfig config true) where
  balanced := by constructor <;> simp [ofConfig, books, Tally.count]
  awaited := by simp [ofConfig]
  distinct := by simp [ofConfig]

end BrokerHooks.Broker
