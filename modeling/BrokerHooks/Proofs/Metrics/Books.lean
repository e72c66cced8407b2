import BrokerHooks.Proofs.Run.Cases

namespace BrokerHooks

def Turn.expired? (t : Turn) : Option Fallback :=
  match t.deferral with
  | .timedOut fallback => some fallback
  | .notRequested | .pending _ _ | .resumed => none

def Event.reported? : Event → Option (Chain × Report)
  | .reported c r => some (c, r)
  | .misrouted _ | .began _ | .invoked _ _ _ | .expired _ _ | .denied | .noted _ => none

def labelOf (x : Chain × Report) : Point × String := (x.1.point, x.2.outcome.label)

def failureOf? (x : Chain × Report) : Option (Point × Cause) :=
  x.2.failure.map fun f => (x.1.point, f.cause)

def brokeAt (point : Point) (x : Point × Cause) : Bool := x.1 = point && x.2.isExtensionError

def ranLate (x : Point × Cause) : Bool := x.2 = .timeout

/-- The counters, what the turns have come to, and the reports that were made. -/
structure Books where
  metered : Bool
  chains : Tally (Point × String)
  extensionErrors : Tally Point
  timeouts : Tally Fallback
  expired : List (Option Fallback)
  reports : List (Chain × Report)

/-- The books balance once the failures that are owed have been reported. -/
structure Books.Balanced (owed : List (Point × Cause)) (k : Books) : Prop where
  metered : k.metered = true
  chains : ∀ key, k.chains.count key = (k.reports.map labelOf).count key
  errors : ∀ point, k.extensionErrors.count point = (k.reports.filterMap failureOf? ++ owed).countP (brokeAt point)
  failures : k.timeouts.count .failure = (k.reports.filterMap failureOf? ++ owed).countP ranLate
  expired : ∀ fallback, k.timeouts.count fallback = k.expired.count (some fallback)

namespace Broker

def books (b : Broker) : Books where
  metered := b.metered
  chains := b.metrics.chains
  extensionErrors := b.metrics.extensionErrors
  timeouts := b.metrics.timeouts
  expired := b.turns.map (·.expired?)
  reports := b.journal.filterMap (·.event.reported?)

theorem books_record {e : Event} (he : e.reported? = none) (b : Broker) : (b.record e).books = b.books := by
  simp [books, record, he]

theorem books_denied (b : Broker) : (b.meter Metrics.serviceDenied).books = b.books := by
  unfold meter
  split <;> rfl

theorem books_setTurn {b : Broker} {i : Nat} {t t' : Turn} (ht : b.turn? i = some t)
    (h : t'.expired? = t.expired?) : (b.setTurn i t').books = b.books := by
  have hsame : (b.turns.map (·.expired?))[i]? = some t'.expired? := by
    rw [List.getElem?_map, h]
    exact congrArg (Option.map (·.expired?)) ht
  have hset : (b.turns.set i t').map (·.expired?) = b.turns.map (·.expired?) := by
    obtain ⟨hi, heq⟩ := List.getElem?_eq_some_iff.1 hsame
    rw [List.map_set, ← heq]
    exact List.set_getElem_self hi
  unfold books setTurn
  rw [hset]

theorem books_onTurn {α : Type} {f : Turn → α × Turn} (hf : ∀ t, (f t).2.expired? = t.expired?) (b : Broker)
    (s : Site) (default : α) : (b.onTurn s default f).2.books = b.books := by
  unfold onTurn
  split
  · rfl
  · rename_i t ht
    exact books_setTurn ht (hf t)

theorem books_check (b : Broker) : b.check.2.books = b.books := by
  unfold check
  simp only
  split
  · rw [books_record rfl, books_denied]
    rfl
  · rfl

theorem books_admitted {α : Type} {f : Broker → α × Broker} (hf : ∀ b, (f b).2.books = b.books) (b : Broker) :
    (b.admitted f).2.books = b.books := by
  have h := books_check b
  unfold admitted
  split <;> rename_i heq <;> rw [heq] at h
  · exact h
  · exact (hf _).trans h

end Broker

theorem Turn.expired?_resume (t : Turn) : t.resume.expired? = t.expired? := by
  unfold Turn.resume
  split
  · rename_i h
    simp [Turn.expired?, h]
  · rfl

theorem Turn.expired?_defer (t : Turn) (now timeout : Nat) (fallback : Fallback) :
    (Broker.tryUpdate t (t.defer now timeout fallback)).2.expired? = t.expired? := by
  unfold Turn.defer
  split
  · rfl
  split
  · rfl
  · rename_i h
    have hnot : t.deferral = .notRequested := by simpa using h
    simp [Broker.tryUpdate, Turn.expired?, hnot]

theorem Turn.expired?_prevent (t : Turn) : (Broker.tryUpdate t t.prevent).2.expired? = t.expired? := by
  unfold Turn.prevent
  split <;> rfl

namespace Broker

theorem books_perform (b : Broker) (s : Site) (op : Op) : (b.perform s op).2.books = b.books := by
  cases op with
  | call c => exact books_onTurn (fun _ => rfl) b s _
  | defer timeout fallback => exact books_onTurn (fun t => t.expired?_defer b.now timeout fallback) b s _
  | resume => exact books_onTurn Turn.expired?_resume b s _
  | prevent => exact books_onTurn Turn.expired?_prevent b s _
  | view => exact books_onTurn (fun _ => rfl) b s _
  | close | resolve | register | remove | enable | disable | isEnabled => rfl
  | check => exact books_check b
  | isConnected clientId => exact books_admitted (fun _ => rfl) b
  | disconnectClient clientId reason =>
    unfold perform disconnectClient
    simp only
    split
    · rfl
    · refine books_admitted (fun b => ?_) b
      split <;> rfl
  | note n => exact books_record rfl b

theorem books_run (s : Site) (program : Program) (b : Broker) : (run s program b).2.books = b.books := by
  induction program generalizing b with
  | done | fail | crash => rfl
  | perform op next ih => exact (ih _ _).trans (books_perform b s op)
  | spawn delay task next _ ih => exact ih _

theorem books_callback {b b' : Broker} {c : Chain} {h : Hook} {p : Packet} {cause : Option Cause}
    (hcall : b.callback c h p = (cause, b')) :
    b'.books = { b.books with expired := b.books.expired ++ [none] } := by
  have hinvited : (b.invited c h p).books = { b.books with expired := b.books.expired ++ [none] } := by
    unfold invited
    rw [books_record rfl]
    simp [books, Turn.fresh, Turn.expired?]
  have hrun : (b.callback c h p).2.books = (b.invited c h p).books := books_run ..
  rw [hcall] at hrun
  exact hrun.trans hinvited

end Broker

namespace Books.Balanced

variable {k : Books} {owed : List (Point × Cause)}

theorem extend (h : k.Balanced owed) : ({ k with expired := k.expired ++ [none] } : Books).Balanced owed :=
  { h with expired := fun fallback => by simpa using h.expired fallback }

/-- Prevented packets are not counted. -/
theorem prevented (h : k.Balanced []) (point : Point) : k.Balanced [(point, .prevented)] where
  metered := h.metered
  chains := h.chains
  errors other := by simpa [brokeAt, Cause.isExtensionError] using h.errors other
  failures := by simpa [ranLate] using h.failures
  expired := h.expired

theorem extensionError (h : k.Balanced []) (point : Point) {cause : Cause} (hcause : cause.isExtensionError) :
    ({ k with extensionErrors := k.extensionErrors.bump point } : Books).Balanced [(point, cause)] where
  metered := h.metered
  chains := h.chains
  errors other := by
    have hcount := h.errors other
    rw [List.append_nil] at hcount
    rw [Tally.count_bump, List.countP_append, hcount]
    by_cases heq : point = other
    · simp [brokeAt, hcause, heq]
    · simp [brokeAt, heq, Ne.symm heq]
  failures := by
    have hne : cause ≠ .timeout := by
      rintro rfl
      cases hcause
    simpa [ranLate, hne] using h.failures
  expired := h.expired

/-- A turn runs out of time once, and the chain fails by that if failure is the fallback. -/
theorem expire (h : k.Balanced []) (point : Point) {turn : Nat} (hturn : k.expired[turn]? = some none)
    (fallback : Fallback) :
    ({ k with
      timeouts := k.timeouts.bump fallback
      expired := k.expired.set turn (some fallback) } : Books).Balanced
        (if fallback = .failure then [(point, .timeout)] else []) where
  metered := h.metered
  chains := h.chains
  errors other := by
    have hcount := h.errors other
    split <;> simpa [brokeAt, Cause.isExtensionError] using hcount
  failures := by
    have hcount := h.failures
    rw [List.append_nil] at hcount
    cases fallback <;> simp [Tally.count_bump, List.countP_append, ranLate, hcount]
  expired other := by
    obtain ⟨hi, hnone⟩ := List.getElem?_eq_some_iff.1 hturn
    rw [Tally.count_bump, List.count_set hi, hnone, h.expired]
    by_cases heq : fallback = other
    · simp [heq]
    · simp [heq, Ne.symm heq]

theorem report (h : k.Balanced owed) {x : Chain × Report} (hx : (failureOf? x).toList = owed) :
    ({ k with chains := k.chains.bump (labelOf x), reports := k.reports ++ [x] } : Books).Balanced [] := by
  have hfailures : (k.reports ++ [x]).filterMap failureOf? = k.reports.filterMap failureOf? ++ owed := by
    rw [List.filterMap_append, ← hx]
    cases hfailed : failureOf? x <;> simp [hfailed]
  constructor
  case metered => exact h.metered
  case chains =>
    intro key
    rw [Tally.count_bump, h.chains]
    by_cases heq : labelOf x = key
    · simp [heq]
    · simp [heq, Ne.symm heq]
  case errors =>
    intro point
    rw [hfailures, List.append_nil]
    exact h.errors point
  case failures =>
    rw [hfailures, List.append_nil]
    exact h.failures
  case expired => exact h.expired

end Books.Balanced

end BrokerHooks
