import BrokerHooks.Proofs.Run.Effect

namespace BrokerHooks

/-- What became of a hook when its turn came. -/
inductive Visit where
  | passedOver
  /-- The hook's code failed, whatever it had asked for before. -/
  | broke (cause : Cause)
  | ended (completion : Completion) (turn : Turn)

namespace Visit

def isInvoked : Visit → Bool
  | .passedOver => false
  | .broke _ | .ended _ _ => true

/-- The packet for the next hook, or why there will be none. -/
def result (p : Packet) : Visit → Except Cause Packet
  | .passedOver => .ok p
  | .broke cause => .error cause
  | .ended (.timedOut .failure) _ => .error .timeout
  | .ended _ turn => if turn.prevented then .error .prevented else .ok turn.draft.packet

end Visit

/-- Takes a packet through one visit. -/
def foldVisit (supplied p : Packet) (x : Ranked × Visit) : Except Failure Packet :=
  match x.2.result p with
  | .ok q => .ok q
  | .error cause =>
    .error { extension := x.1.hook.extension, cause, supplied, lastGood := p }

/-- Takes the packet that was handed over through visit after visit, up to the first that fails. -/
def foldVisits (supplied : Packet) (vs : List (Ranked × Visit)) : Except Failure Packet :=
  vs.foldlM (foldVisit supplied) supplied

def Report.ofFold (point : Point) : Except Failure Packet → Report
  | .ok p => { outcome := .proceed p }
  | .error f => f.report point

/-- The hooks that are invoked along the visits, each with the packet it is handed. -/
def handed (p : Packet) : List (Ranked × Visit) → List (Nat × Packet)
  | [] => []
  | (r, v) :: vs =>
    (if v.isInvoked then [(r.hook.number, p)] else []) ++
      match v.result p with
      | .ok q => handed q vs
      | .error _ => []

def told (c : Chain) (es : List Entry) : List Event :=
  (es.map (·.event)).filter (·.chain? = some c)

def Event.invocation? : Event → Option (Nat × Packet)
  | .invoked _ h p => some (h, p)
  | _ => none

def Event.report? : Event → Option Report
  | .reported _ r => some r
  | _ => none

def invocationsOf (c : Chain) (es : List Entry) : List (Nat × Packet) :=
  (told c es).filterMap Event.invocation?

def reportsOf (c : Chain) (es : List Entry) : List Report := (told c es).filterMap Event.report?

theorem Visit.result_ended (completion : Completion) (turn : Turn) (p : Packet) :
    (Visit.ended completion turn).result p =
      if completion = .timedOut .failure then .error .timeout
      else if turn.prevented then .error .prevented else .ok turn.draft.packet := by
  cases completion with
  | immediate | resumed => rfl
  | timedOut fallback => cases fallback <;> rfl

theorem foldVisit_eq_ok {supplied p q : Packet} {x : Ranked × Visit} :
    foldVisit supplied p x = .ok q ↔ x.2.result p = .ok q := by
  unfold foldVisit
  cases x.2.result p <;> simp

theorem foldVisit_eq_error {supplied p : Packet} {x : Ranked × Visit} {f : Failure} :
    foldVisit supplied p x = .error f ↔
      x.2.result p = .error f.cause ∧ f.extension = x.1.hook.extension ∧ f.supplied = supplied ∧ f.lastGood = p := by
  unfold foldVisit
  cases x.2.result p with
  | ok q => simp
  | error cause =>
    obtain ⟨extension, cause', supplied', lastGood⟩ := f
    simp [eq_comm, and_left_comm]

theorem foldVisits_concat (supplied : Packet) (vs : List (Ranked × Visit)) (x : Ranked × Visit) :
    foldVisits supplied (vs ++ [x]) =
      (foldVisits supplied vs >>= fun p => foldVisit supplied p x) := by
  unfold foldVisits
  rw [List.foldlM_append]
  simp

theorem foldVisits_concat_of_ok {supplied p : Packet} {vs : List (Ranked × Visit)}
    (h : foldVisits supplied vs = .ok p) (x : Ranked × Visit) :
    foldVisits supplied (vs ++ [x]) = foldVisit supplied p x := by
  rw [foldVisits_concat, h]
  rfl

/-- The next hook is handed the packet to which the visits before it fold. -/
theorem handed_concat {supplied p q : Packet} {vs : List (Ranked × Visit)}
    (h : vs.foldlM (foldVisit supplied) p = .ok q) (x : Ranked × Visit) :
    handed p (vs ++ [x]) = handed p vs ++ if x.2.isInvoked then [(x.1.hook.number, q)] else [] := by
  induction vs generalizing p with
  | nil =>
    cases h
    cases hr : x.2.result q <;> simp [handed, hr]
  | cons y vs ih =>
    rw [List.foldlM_cons] at h
    cases hr : y.2.result p with
    | error cause => simp [foldVisit, hr, bind, Except.bind] at h
    | ok p' =>
      simp only [foldVisit, hr] at h
      simp [handed, hr, ih h]

theorem told_append (c : Chain) (es new : List Entry) : told c (es ++ new) = told c es ++ told c new := by
  simp [told]

theorem told_eq_nil {c : Chain} {es : List Entry} (h : ∀ e ∈ es, e.event.chain? ≠ some c) :
    told c es = [] := by
  simpa [told] using h

theorem told_singleton {c : Chain} {e : Event} (h : e.chain? = some c) (time : Nat) :
    told c [{ time, event := e }] = [e] := by
  simp [told, h]

@[simp] theorem told_began (c : Chain) (time : Nat) :
    told c [{ time, event := .began c }] = [.began c] := told_singleton rfl time

@[simp] theorem told_invoked (c : Chain) (h : Nat) (p : Packet) (time : Nat) :
    told c [{ time, event := .invoked c h p }] = [.invoked c h p] := told_singleton rfl time

@[simp] theorem told_expired (c : Chain) (f : Fallback) (time : Nat) :
    told c [{ time, event := .expired c f }] = [.expired c f] := told_singleton rfl time

@[simp] theorem told_reported (c : Chain) (r : Report) (time : Nat) :
    told c [{ time, event := .reported c r }] = [.reported c r] := told_singleton rfl time

theorem invocationsOf_append (c : Chain) (es new : List Entry) :
    invocationsOf c (es ++ new) = invocationsOf c es ++ invocationsOf c new := by
  simp [invocationsOf, told_append]

theorem reportsOf_append (c : Chain) (es new : List Entry) :
    reportsOf c (es ++ new) = reportsOf c es ++ reportsOf c new := by
  simp [reportsOf, told_append]

theorem mem_told {c : Chain} {es : List Entry} {e : Entry} (he : e ∈ es) (hc : e.event.chain? = some c) :
    e.event ∈ told c es :=
  List.mem_filter.2 ⟨List.mem_map_of_mem he, by simp [hc]⟩

theorem mem_invocationsOf {c : Chain} {es : List Entry} {e : Entry} (he : e ∈ es) {h : Nat} {p : Packet}
    (hinvoked : e.event = .invoked c h p) : (h, p) ∈ invocationsOf c es :=
  List.mem_filterMap.2 ⟨e.event, mem_told he (by rw [hinvoked]; rfl), by rw [hinvoked]; rfl⟩

theorem mem_reportsOf {c : Chain} {es : List Entry} {e : Entry} (he : e ∈ es) {report : Report}
    (hreport : e.event = .reported c report) : report ∈ reportsOf c es :=
  List.mem_filterMap.2 ⟨e.event, mem_told he (by rw [hreport]; rfl), by rw [hreport]; rfl⟩

end BrokerHooks
