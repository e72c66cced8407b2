import BrokerHooks.Proofs.Chain.Interceptor

namespace BrokerHooks

open Broker

/-- What an operation on a turn answers and makes of the turn; any other operation has no place here. -/
def Op.own? : (op : Op) → Turn → Option (op.Answer × Turn)
  | .call c, t => some ((t.draft.call c).1, { t with draft := (t.draft.call c).2 })
  | .resume, t => some ((), t.resume)
  | .prevent, t => some ((tryUpdate t t.prevent).1, (tryUpdate t t.prevent).2)
  | .view, t => some (t, t)
  | .note _, t => some ((), t)
  | _, _ => none

def Program.own? : Program → Turn → Option (Option Cause × Turn)
  | .done, t => some (none, t)
  | .fail e, t => some (some (.error e), t)
  | .crash message, t => some (some (.panic (message.getD unknownPanic)), t)
  | .perform op next, t =>
    match op.own? t with
    | some (answer, t') => (next answer).own? t'
    | none => none
  | .spawn _ _ _, _ => none

theorem setTurn_turn? {b : Broker} {i : Nat} {t : Turn} (h : b.turn? i = some t) (t' : Turn) :
    (b.setTurn i t').turn? i = some t' := by
  obtain ⟨hi, -⟩ := List.getElem?_eq_some_iff.1 h
  simp [setTurn, turn?, hi]

theorem onTurn_own {α : Type} {b : Broker} {s : Site} {t : Turn} (h : b.turn? s.turn = some t)
    (default : α) (f : Turn → α × Turn) :
    (b.onTurn s default f).1 = (f t).1 ∧ (b.onTurn s default f).2.turn? s.turn = some (f t).2 := by
  unfold onTurn
  rw [h]
  exact ⟨rfl, setTurn_turn? h _⟩

/-- An operation that has a place here does the same in every broker. -/
theorem perform_own {op : Op} {b : Broker} {s : Site} {t t' : Turn} {answer : op.Answer}
    (ht : b.turn? s.turn = some t) (h : op.own? t = some (answer, t')) :
    (b.perform s op).1 = answer ∧ (b.perform s op).2.turn? s.turn = some t' ∧
      (b.perform s op).2.roster = b.roster := by
  cases op with
  | call | prevent | resume | view =>
    cases h
    exact ⟨(onTurn_own ht _ _).1, (onTurn_own ht _ _).2, onTurn_roster ..⟩
  | note n =>
    cases h
    exact ⟨rfl, ht, rfl⟩
  | _ => cases h

theorem run_own {program : Program} {b : Broker} {s : Site} {t t' : Turn} {cause : Option Cause}
    (ht : b.turn? s.turn = some t) (h : program.own? t = some (cause, t')) :
    (run s program b).1 = cause ∧ (run s program b).2.turn? s.turn = some t' ∧
      (run s program b).2.roster = b.roster := by
  induction program generalizing b t with
  | done | fail | crash =>
    cases h
    exact ⟨rfl, ht, rfl⟩
  | perform op next ih =>
    unfold Program.own? at h
    cases hop : op.own? t with
    | none =>
      rw [hop] at h
      cases h
    | some result =>
      obtain ⟨answer, t₁⟩ := result
      rw [hop] at h
      obtain ⟨hanswer, ht₁, hroster⟩ := perform_own ht hop
      obtain ⟨hcause, ht', hroster'⟩ := ih answer ht₁ h
      unfold run
      rw [← hanswer] at hcause ht' hroster'
      exact ⟨hcause, ht', hroster'.trans hroster⟩
  | spawn => cases h

/-- Nothing here asks for time. -/
theorem own_deferral {program : Program} {t t' : Turn} {cause : Option Cause}
    (h : program.own? t = some (cause, t')) (ht : t.deferral = .notRequested) :
    t'.deferral = .notRequested := by
  induction program generalizing t with
  | done | fail | crash =>
    cases h
    exact ht
  | perform op next ih =>
    unfold Program.own? at h
    cases hop : op.own? t with
    | none =>
      rw [hop] at h
      cases h
    | some result =>
      obtain ⟨answer, t₁⟩ := result
      rw [hop] at h
      apply ih answer h
      -- Of the operations that have a place here only a resumption looks at the deferral.
      cases op with
      | call | view | note =>
        cases hop
        exact ht
      | resume =>
        cases hop
        simp [Turn.resume, ht]
      | prevent =>
        cases hop
        unfold Turn.prevent
        split <;> exact ht
      | _ => cases hop
  | spawn => cases h

def Visit.atOnce : Option Cause → Turn → Visit
  | some cause, _ => .broke cause
  | none, t => .ended .immediate t

/-- The hook works on its own turn alone and ends at once with what the interceptor makes of its input,
however often it was invoked before. -/
structure Hook.Implements (h : Hook) (x : Interceptor) (point : Point) (limits : PacketLimits)
    (maxTimeout : Nat) : Prop where
  extension : h.extension = x.extension
  responds : ∀ n input, ∃ cause t,
    (h.respond n input).own? (Turn.fresh point limits maxTimeout input.packet) = some (cause, t) ∧
      (Visit.atOnce cause t).result input.packet = x.respond input

def Interceptor.editing (extension : String) (limits : PacketLimits) (e : Edit) : Interceptor where
  extension
  respond input := .ok ((Draft.ofPacket limits input.packet).call (.edit e)).2.packet

def Interceptor.refusing (extension : String) (e : ExtensionError) : Interceptor where
  extension
  respond _ := .error (.error e)

section

variable {h : Hook} {point : Point} {limits : PacketLimits} {maxTimeout : Nat}

theorem Hook.implements_editing {e : Edit}
    (hr : ∀ n input, h.respond n input = .perform (.call (.edit e)) fun _ => .done) :
    h.Implements (.editing h.extension limits e) point limits maxTimeout where
  extension := rfl
  responds n input := ⟨none, _, by rw [hr]; rfl, rfl⟩

theorem Hook.implements_refusing {e : ExtensionError} (hr : ∀ n input, h.respond n input = .fail e) :
    h.Implements (.refusing h.extension e) point limits maxTimeout where
  extension := rfl
  responds n input := ⟨some (.error e), _, by rw [hr]; rfl, rfl⟩

end

namespace Broker

structure Unmoved (b b' : Broker) : Prop where
  roster : b'.roster = b.roster
  limits : b'.limits = b.limits
  maxTimeout : b'.maxTimeout = b.maxTimeout

theorem Unmoved.trans {b b' b'' : Broker} (h : Unmoved b b') (h' : Unmoved b' b'') : Unmoved b b'' :=
  ⟨h'.roster.trans h.roster, h'.limits.trans h.limits, h'.maxTimeout.trans h.maxTimeout⟩

theorem standing_unmoved (b : Broker) (c : Chain) (turn : Nat) : Unmoved b (b.standing c turn).2 := by
  have heffect : Effect (some c) (· = turn) b (b.standing c turn).2 := Effect.standing (by rfl) b
  exact ⟨standing_roster .., heffect.limits, heffect.maxTimeout⟩

variable {c : Chain} {b b' : Broker}

/-- A hook that works on its own turn leaves the turn undeferred behind. -/
theorem callback_own {h : Hook} {p : Packet} {cause : Option Cause} {t : Turn}
    (hown : (h.respond (b.invocations h.number) (b.input c p)).own?
      (Turn.fresh c.point b.limits b.maxTimeout p) = some (cause, t)) :
    (b.callback c h p).1 = cause ∧ (b.callback c h p).2.turn? b.turns.length = some t ∧
      t.deferral = .notRequested ∧ Unmoved b (b.callback c h p).2 := by
  have hrun := run_own (s := { connection := c.connection, turn := b.turns.length })
    (invited_turn? b c h p) hown
  have heffect : Effect (some c) (fun _ => False) b (b.callback c h p).2 := (Effect.callback b h p).1
  exact ⟨hrun.1, hrun.2.1, own_deferral hown rfl, hrun.2.2, heffect.limits, heffect.maxTimeout⟩

theorem Ended.immediate {i : Nat} {completion : Completion} {turn t : Turn}
    (h : b.Ended i completion turn) (ht : b.turn? i = some t) (hdeferral : t.deferral = .notRequested) :
    completion = .immediate ∧ turn = t := by
  obtain ⟨t₀, ht₀, hpoll⟩ := h
  obtain rfl : t₀ = t := Option.some.inj (ht₀.symm.trans ht)
  unfold Turn.poll at hpoll
  rw [hdeferral] at hpoll
  cases hpoll
  exact ⟨rfl, rfl⟩

theorem not_suspends {r : Ranked} {rest : List Ranked} {p : Packet} {t : Turn}
    (h : Suspends c r rest p b b')
    (ht : (b.callback c r.hook p).2.turn? b.turns.length = some t)
    (hdeferral : t.deferral = .notRequested) : False := by
  obtain ⟨b₁, b₂, hcall, hstanding, -⟩ := h.suspends
  rw [hcall] at ht
  simp [standing, ht, Turn.poll, hdeferral, standingOf] at hstanding
  split at hstanding <;> simp at hstanding

theorem Visited.own {r : Ranked} {rest : List Ranked} {p : Packet} {ns : List Move} {v : Visit}
    {cause : Option Cause} {t : Turn} (h : Visited c r rest p b ns v b')
    (hon : b.roster.isEnabled r.hook.extension)
    (hown : (r.hook.respond (b.invocations r.hook.number) (b.input c p)).own?
      (Turn.fresh c.point b.limits b.maxTimeout p) = some (cause, t)) :
    v = Visit.atOnce cause t ∧ Unmoved b b' := by
  obtain ⟨hcause, ht, hdeferral, hunmoved⟩ := callback_own hown
  cases h with
  | passedOver hoff => simp [hon] at hoff
  | @broke cause' b₁ _ hcall _ =>
    rw [hcall] at hcause hunmoved
    obtain rfl := hcause
    exact ⟨rfl, by simpa using hunmoved.roster, by simpa using hunmoved.limits,
      by simpa using hunmoved.maxTimeout⟩
  | atOnce _ hcall hends =>
    rw [hcall] at hcause ht hunmoved
    obtain rfl := hcause
    obtain ⟨rfl, rfl⟩ := hends.immediate ht hdeferral
    exact ⟨rfl, hunmoved.trans (standing_unmoved ..)⟩
  | awaited hsus _ _ _ _ => exact (not_suspends hsus ht hdeferral).elim

end Broker

namespace Execution

variable {point : Point} {p : Packet} (e : Execution point p)

/-- The chain's hooks are enabled and implement the interceptors one for one. -/
structure Runs (xs : List Interceptor) : Prop where
  length : e.hooks.length = xs.length
  implements : ∀ rx ∈ e.hooks.zip xs, e.taken.roster.isEnabled rx.1.hook.extension ∧
    rx.1.hook.Implements rx.2 point e.taken.limits e.taken.maxTimeout

theorem Runs.implementing {xs : List Interceptor} (h : e.Runs xs) {i : Nat} {r : Ranked}
    (hr : e.hooks[i]? = some r) :
    ∃ x, xs[i]? = some x ∧ e.taken.roster.isEnabled r.hook.extension ∧
      r.hook.Implements x point e.taken.limits e.taken.maxTimeout := by
  obtain ⟨hi, -⟩ := List.getElem?_eq_some_iff.1 hr
  rw [h.length] at hi
  have hx : xs[i]? = some xs[i] := List.getElem?_eq_getElem hi
  have hmem : (r, xs[i]) ∈ e.hooks.zip xs :=
    List.mem_of_getElem? (List.getElem?_zip_eq_some.2 ⟨hr, hx⟩)
  exact ⟨xs[i], hx, h.implements _ hmem⟩

/-- A hook of such a chain ends at once, and what becomes of it is what its interceptor makes of the
packet. -/
theorem Runs.visited {xs : List Interceptor} (h : e.Runs xs) {ms ns : List Move}
    {vs : List (Ranked × Visit)} {r : Ranked} {rest : List Ranked} {q : Packet} {v : Visit}
    {b b' : Broker} (hcourse : Course e.chain e.taken ms vs (r :: rest) b)
    (hunmoved : Unmoved e.taken b) (hv : Visited e.chain r rest q b ns v b') :
    Unmoved b b' ∧ ∃ x, xs[vs.length]? = some x ∧
      v.result q = x.respond (b.input e.chain q) := by
  obtain ⟨x, hx, hon, himplements⟩ := h.implementing e (e.hooks_getElem? hcourse)
  obtain ⟨cause, t, hown, hresult⟩ :=
    himplements.responds (b.invocations r.hook.number) (b.input e.chain q)
  have hpoint : e.chain.point = point := congrArg Chain.point e.chain_eq
  have hfresh : Turn.fresh e.chain.point b.limits b.maxTimeout q =
      Turn.fresh point e.taken.limits e.taken.maxTimeout q := by
    rw [hpoint, hunmoved.limits, hunmoved.maxTimeout]
  rw [input_packet, ← hfresh] at hown
  rw [← hunmoved.roster] at hon
  rw [input_packet] at hresult
  obtain ⟨rfl, hmoved⟩ := hv.own hon hown
  exact ⟨hmoved, x, hx, hresult⟩

theorem Runs.unmoved {xs : List Interceptor} (h : e.Runs xs) {ms : List Move}
    {vs : List (Ranked × Visit)} {rest : List Ranked} {b : Broker}
    (hcourse : Course e.chain e.taken ms vs rest b) : Unmoved e.taken b := by
  induction hcourse with
  | began => exact ⟨rfl, rfl, rfl⟩
  | next hcourse _ hv ih => exact ih.trans (h.visited e hcourse ih hv).1

/-- A chain of such hooks runs over the interceptors that they implement. -/
theorem Runs.over {xs : List Interceptor} (h : e.Runs xs) : e.Over xs where
  extensions := by
    refine List.ext_getElem? fun i => ?_
    rw [List.getElem?_map, List.getElem?_map]
    cases hr : e.hooks[i]? with
    | none =>
      have hlength : xs[i]? = none := by
        rw [List.getElem?_eq_none_iff] at hr ⊢
        exact h.length ▸ hr
      rw [hlength]
      rfl
    | some r =>
      obtain ⟨x, hx, -, himplements⟩ := h.implementing e hr
      rw [hx, Option.map_some, Option.map_some, himplements.extension]
  responds := by
    intro i input v hvisits x hx
    obtain ⟨ms, ns, ms', vs, r, rest, q, b, b', -, hcourse, rfl, -, hv, rfl⟩ := hvisits
    obtain ⟨-, x', hx', hresult⟩ := h.visited e hcourse (h.unmoved e hcourse) hv
    obtain rfl : x' = x := Option.some.inj (hx'.symm.trans hx)
    rw [input_packet]
    exact hresult

theorem over_of_hooks {rs : List Ranked} {xs : List Interceptor} (hhooks : e.hooks = rs)
    (hlength : rs.length = xs.length)
    (h : ∀ rx ∈ rs.zip xs, e.taken.roster.isEnabled rx.1.hook.extension ∧
      rx.1.hook.Implements rx.2 point e.taken.limits e.taken.maxTimeout) : e.Over xs := by
  subst hhooks
  exact Runs.over e ⟨hlength, h⟩

end Execution

theorem Roster.ordered_of_sorted {r : Roster} {c : Nat} {point : Point} {hooks : List Ranked}
    (h : (r.hooksAt c point).filterMap r.rank? = hooks) (hsorted : hooks.Pairwise fun a b => a.precedes b) :
    r.ordered c point = hooks := by
  subst h
  exact List.mergeSort_of_pairwise hsorted

def filtering (programs : List Program) : Broker :=
  (ofConfig {} true).play ([.openConnection "client" .v5 none,
    .perform { connection := 0, turn := 0 } (.register "filter" 0)] ++
      programs.map fun program => .add .shared "filter" .pubrecInbound .ack fun _ _ => program)

namespace filtering

theorem reachable (programs : List Program) : (filtering programs).Reachable := ⟨_, _, _, rfl⟩

def hook (number : Nat) (program : Program) : Ranked where
  priority := 0
  hook := { extension := "filter", point := .pubrecInbound, number, respond := fun _ _ => program }

def untraced : Packet := .ack { kind := .pubrec, packetId := 7 }

def traced : Packet := untraced.withUserProperties [{ name := "trace", value := "1" }]

def untrace : Edit := .property (.removeName "trace")

def removal : Program := .perform (.call (.edit untrace)) fun _ => .done

def refusal : Program := .fail (.other "refused")

def remove : Interceptor := .editing "filter" (filtering []).limits untrace

def refuse : Interceptor := .refusing "filter" (.other "refused")

def refused (supplied lastGood : Packet) : Report where
  outcome := .proceed supplied
  failure := some { extension := "filter", cause := .error (.other "refused"), supplied, lastGood }

theorem ordered {programs : List Program} (hooks : List Ranked)
    (h : ((filtering programs).roster.hooksAt 0 .pubrecInbound).filterMap
      (filtering programs).roster.rank? = hooks)
    (hsorted : hooks.Pairwise fun a b => a.precedes b) :
    (filtering programs).roster.ordered 0 .pubrecInbound = hooks := Roster.ordered_of_sorted h hsorted

def removing : Execution .pubrecInbound traced :=
  .alone (reachable [removal]) ⟨rfl, rfl⟩ (by decide) 0 rfl
    (ordered [hook 0 removal] rfl (by simp))
    { outcome := .proceed untraced } ⟨by decide, rfl⟩

def refusing : Execution .pubrecInbound untraced :=
  .alone (reachable [refusal]) ⟨rfl, rfl⟩ (by decide) 0 rfl
    (ordered [hook 0 refusal] rfl (by simp))
    (refused untraced untraced) ⟨by decide, rfl⟩

def removingThenRefusing : Execution .pubrecInbound traced :=
  .alone (reachable [removal, refusal]) ⟨rfl, rfl⟩ (by decide) 0 rfl
    (ordered [hook 0 removal, hook 1 refusal] rfl (by simp [hook, Ranked.precedes]))
    (refused traced untraced) ⟨by decide, rfl⟩

theorem removing_over : removing.Over [remove] := by
  have hhooks : removing.hooks = [hook 0 removal] := ordered _ rfl (by simp)
  refine Execution.over_of_hooks _ hhooks rfl (List.forall_mem_singleton.2 ?_)
  exact ⟨by decide, Hook.implements_editing fun _ _ => rfl⟩

theorem refusing_over : refusing.Over [refuse] := by
  have hhooks : refusing.hooks = [hook 0 refusal] := ordered _ rfl (by simp)
  refine Execution.over_of_hooks _ hhooks rfl (List.forall_mem_singleton.2 ?_)
  exact ⟨by decide, Hook.implements_refusing fun _ _ => rfl⟩

theorem removingThenRefusing_over : removingThenRefusing.Over [remove, refuse] := by
  have hhooks : removingThenRefusing.hooks = [hook 0 removal, hook 1 refusal] :=
    ordered _ rfl (by simp [hook, Ranked.precedes])
  refine Execution.over_of_hooks _ hhooks rfl
    (List.forall_mem_cons.2 ⟨?_, List.forall_mem_singleton.2 ?_⟩)
  · exact ⟨by decide, Hook.implements_editing fun _ _ => rfl⟩
  · exact ⟨by decide, Hook.implements_refusing fun _ _ => rfl⟩

end filtering

end BrokerHooks
