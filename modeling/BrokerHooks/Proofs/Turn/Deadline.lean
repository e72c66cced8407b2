import BrokerHooks.Proofs.Turn.History

namespace BrokerHooks

/-- Where a request stands by `now`, if it is never left past its deadline and nothing is left to wait once
it is met. The last argument tells when resumptions took effect. -/
inductive Deferral.Timely (deadline : Nat) (fallback : Fallback) (now : Nat) : Deferral → List Nat → Prop where
  | pending (h : now ≤ deadline) : Timely deadline fallback now (.pending deadline fallback) []
  | resumed (h : now ≤ deadline) : Timely deadline fallback now .resumed [now]
  | timedOut (h : now = deadline) : Timely deadline fallback now (.timedOut fallback) []

theorem Deferral.Timely.now_le {deadline now : Nat} {fallback : Fallback} {d : Deferral} {rs : List Nat}
    (h : Timely deadline fallback now d rs) : now ≤ deadline := by
  cases h <;> omega

namespace Turn

/-- The first request for more than no time: when it is made, and what it asks for. -/
def request? : List (Nat × Act) → Option (Nat × Nat × Fallback)
  | [] => none
  | (now, .defer timeout fallback) :: later =>
    if timeout = 0 then request? later else some (now, timeout, fallback)
  | (_, .call _) :: later | (_, .resume) :: later | (_, .prevent) :: later | (_, .poll) :: later =>
    request? later

def resumption (t : Turn) (now : Nat) : Act → List Nat
  | .resume => if t.deadline?.isSome then [now] else []
  | .call _ | .defer _ _ | .prevent | .poll => []

def resumptions (t : Turn) : List (Nat × Act) → List Nat
  | [] => []
  | (now, a) :: later => t.resumption now a ++ (t.act now a).resumptions later

theorem resumptions_append (t : Turn) (history later : List (Nat × Act)) :
    t.resumptions (history ++ later) = t.resumptions history ++ (t.after history).resumptions later := by
  induction history generalizing t with
  | nil => rfl
  | cons x history ih =>
    rw [List.cons_append, resumptions, resumptions, ih, after_cons, List.append_assoc]

variable {t : Turn} {now deadline : Nat} {fallback : Fallback} {rs : List Nat}

theorem resumption_of_isOver (hd : t.deferral.isOver) (a : Act) : t.resumption now a = [] := by
  cases a with
  | resume =>
    unfold resumption deadline?
    cases hdeferral : t.deferral <;> simp_all [Deferral.isOver]
  | _ => rfl

theorem resumption_of_notRequested (hd : t.deferral = .notRequested) (a : Act) :
    t.resumption now a = [] := by
  cases a with
  | resume => simp [resumption, deadline?, hd]
  | _ => rfl

theorem timely_act (h : t.deferral.Timely deadline fallback now rs) (a : Act) :
    (t.act now a).deferral.Timely deadline fallback now (rs ++ t.resumption now a) := by
  have hover (ho : t.deferral.isOver) :
      (t.act now a).deferral.Timely deadline fallback now (rs ++ t.resumption now a) := by
    rw [resumption_of_isOver ho, List.append_nil]
    have hstays : (t.act now a).deferral = t.deferral := after_deferral_of_isOver ho [(now, a)]
    rwa [hstays]
  generalize hd : t.deferral = d at h
  cases h with
  | resumed h => exact hover (by rw [hd]; rfl)
  | timedOut h => exact hover (by rw [hd]; rfl)
  | pending h =>
    have hdecided : (t.act now a).deferral = .decided deadline fallback [(now, a)] :=
      after_deferral_of_pending hd [(now, a)]
    rw [hdecided, List.nil_append]
    cases a with
    | call | defer | prevent => exact .pending h
    | resume =>
      have hresumption : t.resumption now .resume = [now] := by simp [resumption, deadline?, hd]
      rw [hresumption]
      exact .resumed h
    | poll =>
      rw [Deferral.decided]
      split
      · exact .timedOut (by omega)
      · exact .pending h

theorem timely_after (h : t.deferral.Timely deadline fallback now rs) {history : List (Nat × Act)}
    (hnow : ∀ a ∈ history, a.1 = now) :
    (t.after history).deferral.Timely deadline fallback now (rs ++ t.resumptions history) := by
  induction history generalizing t rs with
  | nil => simpa [resumptions] using h
  | cons x history ih =>
    obtain ⟨time, a⟩ := x
    obtain rfl : time = now := hnow _ (List.mem_cons_self ..)
    rw [after_cons, resumptions, ← List.append_assoc]
    exact ih (timely_act h a) fun a ha => hnow a (List.mem_cons_of_mem _ ha)

theorem poll_of_notRequested (hd : t.deferral = .notRequested) (now : Nat) :
    t.poll now = (some .immediate, t) := by
  unfold poll
  rw [hd]

/-- A request that is seen to be met is met by a resumption, or at its deadline. -/
theorem timely_poll (h : t.deferral.Timely deadline fallback now rs) {completion : Completion} {t' : Turn}
    (hpoll : t.poll now = (some completion, t')) :
    (rs = [now] ∧ now ≤ deadline ∧ completion = .resumed) ∨
      (rs = [] ∧ now = deadline ∧ completion = .timedOut fallback) := by
  unfold poll at hpoll
  generalize t.deferral = d at h hpoll
  cases h with
  | pending h =>
    simp only at hpoll
    split at hpoll <;> cases hpoll
    exact .inr ⟨rfl, by omega, rfl⟩
  | resumed h =>
    cases hpoll
    exact .inl ⟨rfl, h, rfl⟩
  | timedOut h =>
    cases hpoll
    exact .inr ⟨rfl, h, rfl⟩

/-- What comes of a turn by acts that all happen at one time. -/
theorem request_cases (hd : t.deferral = .notRequested) {history : List (Nat × Act)}
    (hnow : ∀ a ∈ history, a.1 = now) :
    (request? history = none ∧ (t.after history).deferral = .notRequested ∧
        t.resumptions history = []) ∨
      ∃ timeout fallback, request? history = some (now, timeout, fallback) ∧
        (t.after history).deferral.Timely (now + min timeout t.maxTimeout) fallback now
          (t.resumptions history) := by
  -- Until the first request that is granted the turn stays undeferred; from there on `timely_after` applies.
  induction history generalizing t with
  | nil => exact .inl ⟨rfl, hd, rfl⟩
  | cons x history ih =>
    obtain ⟨time, a⟩ := x
    obtain rfl : time = now := hnow _ (List.mem_cons_self ..)
    have hrest : ∀ a ∈ history, a.1 = time := fun a ha => hnow a (List.mem_cons_of_mem _ ha)
    have hwaits (ha : a.isRequest = false) := ih (t.act_of_notRequested time ha hd) hrest
    simp only [act_maxTimeout] at hwaits
    rw [after_cons, resumptions, resumption_of_notRequested hd, List.nil_append, request?.eq_def]
    cases a with
    | call | resume | prevent | poll => exact hwaits rfl
    | defer timeout fallback =>
      simp only
      rcases t.defer_cases time timeout fallback with ⟨hzero, -⟩ | ⟨-, hlater, -⟩ | ⟨hzero, -, h⟩
      · rw [if_pos hzero]
        exact hwaits (by simp [Act.isRequest, hzero])
      · exact absurd hd hlater
      · rw [if_neg hzero]
        have hpending : (t.act time (.defer timeout fallback)).deferral =
            .pending (time + min timeout t.maxTimeout) fallback := by
          simp only [act, h]
          rfl
        have htimely : (t.act time (.defer timeout fallback)).deferral.Timely
            (time + min timeout t.maxTimeout) fallback time [] := by
          rw [hpending]
          exact .pending (Nat.le_add_right ..)
        exact .inr ⟨timeout, fallback, rfl, timely_after htimely hrest⟩

end Turn
end BrokerHooks
