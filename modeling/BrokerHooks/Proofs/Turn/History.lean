import BrokerHooks.Broker.Perform

namespace BrokerHooks

open Broker (tryUpdate)

/-- Something that is done to a turn through one of its handles, or the executor's look at it. -/
inductive Turn.Act where
  | call (c : Call)
  | defer (timeout : Nat) (fallback : Fallback)
  | resume
  | prevent
  | poll

def Turn.Act.isRequest : Turn.Act → Bool
  | .defer timeout _ => timeout ≠ 0
  | _ => false

namespace Deferral

def decided (deadline : Nat) (fallback : Fallback) : List (Nat × Turn.Act) → Deferral
  | [] => .pending deadline fallback
  | (_, .resume) :: _ => .resumed
  | (now, .poll) :: later =>
    if deadline ≤ now then .timedOut fallback else decided deadline fallback later
  | (_, .call _) :: later | (_, .defer _ _) :: later | (_, .prevent) :: later =>
    decided deadline fallback later

/-- The deferral that the history of a turn dictates. -/
def dictated (maxTimeout : Nat) : List (Nat × Turn.Act) → Deferral
  | [] => .notRequested
  | (now, .defer timeout fallback) :: later =>
    if timeout = 0 then dictated maxTimeout later
    else decided (now + min timeout maxTimeout) fallback later
  | (_, .call _) :: later | (_, .resume) :: later | (_, .prevent) :: later | (_, .poll) :: later =>
    dictated maxTimeout later

/-- The ways in which a deferral goes on. -/
inductive Step (maxTimeout now : Nat) : Turn.Act → Deferral → Deferral → Prop where
  | requested {timeout : Nat} {fallback : Fallback} (htimeout : timeout ≠ 0) :
      Step maxTimeout now (.defer timeout fallback) .notRequested
        (.pending (now + min timeout maxTimeout) fallback)
  | resumed {deadline : Nat} {fallback : Fallback} :
      Step maxTimeout now .resume (.pending deadline fallback) .resumed
  | timedOut {deadline : Nat} {fallback : Fallback} (hdeadline : deadline ≤ now) :
      Step maxTimeout now .poll (.pending deadline fallback) (.timedOut fallback)

def isOver : Deferral → Bool
  | .resumed | .timedOut _ => true
  | .notRequested | .pending _ _ => false

theorem decided_ne_notRequested (deadline : Nat) (fallback : Fallback) (history : List (Nat × Turn.Act)) :
    decided deadline fallback history ≠ .notRequested := by
  induction history with
  | nil => nofun
  | cons x history ih =>
    obtain ⟨now, a⟩ := x
    cases a with
    | resume => nofun
    | poll =>
      rw [decided]
      split
      · nofun
      · exact ih
    | call | defer | prevent => exact ih

theorem dictated_eq_notRequested (maxTimeout : Nat) (history : List (Nat × Turn.Act)) :
    dictated maxTimeout history = .notRequested ↔ history.any (·.2.isRequest) = false := by
  induction history with
  | nil => simp [dictated]
  | cons x history ih =>
    obtain ⟨now, a⟩ := x
    rw [dictated.eq_def, List.any_cons]
    cases a with
    | call | resume | prevent | poll => exact ih
    | defer timeout fallback =>
      simp only
      by_cases hzero : timeout = 0
      · rw [if_pos hzero, ih]
        simp [Turn.Act.isRequest, hzero]
      · rw [if_neg hzero]
        simp [Turn.Act.isRequest, hzero, decided_ne_notRequested]

theorem Step.isOver {maxTimeout now : Nat} {a : Turn.Act} {d d' : Deferral}
    (h : Step maxTimeout now a d d') : d.isOver = false := by
  cases h <;> rfl

theorem Step.ne_notRequested {maxTimeout now : Nat} {a : Turn.Act} {d d' : Deferral}
    (h : Step maxTimeout now a d d') : d' ≠ .notRequested := by
  cases h <;> nofun

theorem Step.isRequest {maxTimeout now : Nat} {a : Turn.Act} {d : Deferral}
    (h : Step maxTimeout now a .notRequested d) : a.isRequest := by
  cases h with
  | requested htimeout => simpa [Turn.Act.isRequest] using htimeout

end Deferral

namespace Turn

def act (t : Turn) (now : Nat) : Act → Turn
  | .call c => { t with draft := (t.draft.call c).2 }
  | .defer timeout fallback => (tryUpdate t (t.defer now timeout fallback)).2
  | .resume => t.resume
  | .prevent => (tryUpdate t t.prevent).2
  | .poll => (t.poll now).2

def after (t : Turn) (history : List (Nat × Act)) : Turn := history.foldl (fun t a => t.act a.1 a.2) t

def answers (t : Turn) : List (Nat × Act) → List (Except IllegalUse Unit)
  | [] => []
  | (now, .defer timeout fallback) :: later =>
    (tryUpdate t (t.defer now timeout fallback)).1 :: (t.act now (.defer timeout fallback)).answers later
  | (now, a) :: later => (t.act now a).answers later

variable (t : Turn) (now : Nat)

@[simp] theorem after_nil : t.after [] = t := rfl

@[simp] theorem after_cons (a : Act) (later : List (Nat × Act)) :
    t.after ((now, a) :: later) = (t.act now a).after later := rfl

theorem after_append (history later : List (Nat × Act)) :
    t.after (history ++ later) = (t.after history).after later := List.foldl_append

theorem defer_cases (timeout : Nat) (fallback : Fallback) :
    (timeout = 0 ∧ t.defer now timeout fallback = .error .zeroTimeout) ∨
      (timeout ≠ 0 ∧ t.deferral ≠ .notRequested ∧
        t.defer now timeout fallback = .error (.deferredTwice t.point)) ∨
      (timeout ≠ 0 ∧ t.deferral = .notRequested ∧ t.defer now timeout fallback =
        .ok { t with deferral := .pending (now + min timeout t.maxTimeout) fallback }) := by
  by_cases hzero : timeout = 0
  · exact .inl ⟨hzero, by simp [defer, hzero]⟩
  by_cases hfirst : t.deferral = .notRequested
  · exact .inr (.inr ⟨hzero, hfirst, by simp [defer, hzero, hfirst]⟩)
  · exact .inr (.inl ⟨hzero, hfirst, by simp [defer, hzero, hfirst]⟩)

/-- An act leaves the deferral as it is or takes it one step further. Only a call changes the draft, and the
packet is prevented only at a point that has a reaction to that. Nothing else of a turn ever changes. -/
theorem act_cases (a : Act) : ∃ draft prevented deferral,
    t.act now a = { t with draft, prevented, deferral } ∧
      (deferral = t.deferral ∨ t.deferral.Step t.maxTimeout now a deferral) ∧
      (draft = t.draft ∨ ∃ c, draft = (t.draft.call c).2) ∧
      (prevented = t.prevented ∨ t.point.preventReaction?.isSome) := by
  cases a with
  | call c => exact ⟨_, _, _, rfl, .inl rfl, .inr ⟨c, rfl⟩, .inl rfl⟩
  | defer timeout fallback =>
    simp only [act]
    rcases t.defer_cases now timeout fallback with ⟨-, h⟩ | ⟨-, -, h⟩ | ⟨hzero, hfirst, h⟩ <;> rw [h]
    · exact ⟨_, _, _, rfl, .inl rfl, .inl rfl, .inl rfl⟩
    · exact ⟨_, _, _, rfl, .inl rfl, .inl rfl, .inl rfl⟩
    · exact ⟨_, _, _, rfl, .inr (hfirst ▸ .requested hzero), .inl rfl, .inl rfl⟩
  | resume =>
    simp only [act, Turn.resume]
    split
    · rename_i deadline fallback hd
      exact ⟨_, _, _, rfl, .inr (hd ▸ .resumed), .inl rfl, .inl rfl⟩
    · exact ⟨_, _, _, rfl, .inl rfl, .inl rfl, .inl rfl⟩
  | prevent =>
    simp only [act, Turn.prevent]
    split
    · exact ⟨_, _, _, rfl, .inl rfl, .inl rfl, .inl rfl⟩
    · rename_i hreaction
      rw [Bool.not_eq_true, Option.isNone_eq_false_iff] at hreaction
      exact ⟨_, _, _, rfl, .inl rfl, .inl rfl, .inr hreaction⟩
  | poll =>
    simp only [act, Turn.poll]
    split
    case h_4 deadline fallback hd =>
      -- Only a pending turn is changed by a look at it, and only once its time is up.
      split
      · rename_i hdue
        exact ⟨_, _, _, rfl, .inr (hd ▸ .timedOut hdue), .inl rfl, .inl rfl⟩
      · exact ⟨_, _, _, rfl, .inl rfl, .inl rfl, .inl rfl⟩
    all_goals exact ⟨_, _, _, rfl, .inl rfl, .inl rfl, .inl rfl⟩

theorem act_step (a : Act) : (t.act now a).deferral = t.deferral ∨
    t.deferral.Step t.maxTimeout now a (t.act now a).deferral := by
  obtain ⟨draft, prevented, deferral, heq, hstep, -⟩ := t.act_cases now a
  rw [heq]
  exact hstep

@[simp] theorem act_point (a : Act) : (t.act now a).point = t.point := by
  obtain ⟨draft, prevented, deferral, heq, -⟩ := t.act_cases now a
  rw [heq]

@[simp] theorem act_maxTimeout (a : Act) : (t.act now a).maxTimeout = t.maxTimeout := by
  obtain ⟨draft, prevented, deferral, heq, -⟩ := t.act_cases now a
  rw [heq]

@[simp] theorem act_prevent_deferral : (t.act now .prevent).deferral = t.deferral :=
  (t.act_step now .prevent).resolve_right nofun

theorem act_of_notRequested {a : Act} (ha : a.isRequest = false) (hd : t.deferral = .notRequested) :
    (t.act now a).deferral = .notRequested := by
  rw [← hd]
  apply (t.act_step now a).resolve_right
  intro hstep
  rw [hd] at hstep
  rw [hstep.isRequest] at ha
  cases ha

theorem act_ne_notRequested (a : Act) (hd : t.deferral ≠ .notRequested) :
    (t.act now a).deferral ≠ .notRequested := by
  rcases t.act_step now a with h | h
  · rwa [h]
  · exact h.ne_notRequested

theorem act_refused {timeout : Nat} {fallback : Fallback} {e : IllegalUse}
    (h : t.defer now timeout fallback = .error e) : t.act now (.defer timeout fallback) = t := by
  simp only [act, h]
  rfl

/-- A request is granted if it asks for more than no time and none was granted before. -/
theorem defer_answer (timeout : Nat) (fallback : Fallback) :
    (tryUpdate t (t.defer now timeout fallback)).1 =
      if timeout = 0 then .error .zeroTimeout
      else if t.deferral ≠ .notRequested then .error (.deferredTwice t.point) else .ok () := by
  rcases t.defer_cases now timeout fallback with ⟨hzero, h⟩ | ⟨hzero, hlater, h⟩ | ⟨hzero, hfirst, h⟩ <;>
    rw [h]
  · rw [if_pos hzero]
    rfl
  · rw [if_neg hzero, if_pos hlater]
    rfl
  · rw [if_neg hzero, if_neg (not_not_intro hfirst)]
    rfl

/-- A request after the first one does nothing. -/
theorem act_defer_of_requested (hd : t.deferral ≠ .notRequested) (timeout : Nat) (fallback : Fallback) :
    t.act now (.defer timeout fallback) = t := by
  rcases t.defer_cases now timeout fallback with ⟨-, h⟩ | ⟨-, -, h⟩ | ⟨-, hfirst, -⟩
  · exact t.act_refused now h
  · exact t.act_refused now h
  · exact absurd hfirst hd

variable {t now}

@[simp] theorem after_point (history : List (Nat × Act)) : (t.after history).point = t.point := by
  induction history generalizing t with
  | nil => rfl
  | cons x history ih => rw [after_cons, ih, act_point]

@[simp] theorem after_maxTimeout (history : List (Nat × Act)) :
    (t.after history).maxTimeout = t.maxTimeout := by
  induction history generalizing t with
  | nil => rfl
  | cons x history ih => rw [after_cons, ih, act_maxTimeout]

theorem after_deferral_of_isOver (hd : t.deferral.isOver) (history : List (Nat × Act)) :
    (t.after history).deferral = t.deferral := by
  induction history generalizing t with
  | nil => rfl
  | cons x history ih =>
    obtain ⟨now, a⟩ := x
    have hstays : (t.act now a).deferral = t.deferral := by
      apply (t.act_step now a).resolve_right
      intro hstep
      rw [hstep.isOver] at hd
      cases hd
    rw [after_cons, ih (hstays ▸ hd), hstays]

theorem after_deferral_of_pending {deadline : Nat} {fallback : Fallback}
    (hd : t.deferral = .pending deadline fallback) (history : List (Nat × Act)) :
    (t.after history).deferral = .decided deadline fallback history := by
  -- By induction on the history. As long as nothing decides the deferral the turn stays pending for the same deadline.
  induction history generalizing t with
  | nil => exact hd
  | cons x history ih =>
    obtain ⟨now, a⟩ := x
    rw [after_cons]
    cases a with
    | call c => exact ih hd
    | prevent => exact ih (by rw [act_prevent_deferral, hd])
    | defer timeout fallback' =>
      rw [t.act_defer_of_requested now (by rw [hd]; nofun)]
      exact ih hd
    | resume =>
      have hresumed : (t.act now .resume).deferral = .resumed := by simp [act, Turn.resume, hd]
      rw [after_deferral_of_isOver (by rw [hresumed]; rfl), hresumed, Deferral.decided]
    | poll =>
      rw [Deferral.decided]
      by_cases hdue : deadline ≤ now
      · have htimedOut : (t.act now .poll).deferral = .timedOut fallback := by
          simp [act, Turn.poll, hd, hdue]
        rw [if_pos hdue, after_deferral_of_isOver (by rw [htimedOut]; rfl), htimedOut]
      · have hwaits : t.act now .poll = t := by simp [act, Turn.poll, hd, hdue]
        rw [if_neg hdue, hwaits]
        exact ih hd

theorem after_deferral_of_notRequested (hd : t.deferral = .notRequested) (history : List (Nat × Act)) :
    (t.after history).deferral = .dictated t.maxTimeout history := by
  induction history generalizing t with
  | nil => exact hd
  | cons x history ih =>
    obtain ⟨now, a⟩ := x
    have hwaits (ha : a.isRequest = false) :
        ((t.act now a).after history).deferral = .dictated t.maxTimeout history := by
      rw [ih (t.act_of_notRequested now ha hd), act_maxTimeout]
    rw [after_cons, Deferral.dictated.eq_def]
    cases a with
    | call | resume | prevent | poll => exact hwaits rfl
    | defer timeout fallback =>
      simp only
      rcases t.defer_cases now timeout fallback with ⟨hzero, -⟩ | ⟨-, hlater, -⟩ | ⟨hzero, -, h⟩
      · rw [if_pos hzero]
        exact hwaits (by simp [Act.isRequest, hzero])
      · exact absurd hd hlater
      · rw [if_neg hzero]
        apply after_deferral_of_pending
        simp only [act, h]
        rfl

theorem granted_answers_le (history : List (Nat × Act)) : (t.answers history).countP (·.isOk) ≤
    if t.deferral = .notRequested then 1 else 0 := by
  -- The bound drops to zero with the first request that is granted, and never rises again.
  induction history generalizing t with
  | nil => exact Nat.zero_le _
  | cons x history ih =>
    obtain ⟨now, a⟩ := x
    have hle : ((t.act now a).answers history).countP (·.isOk) ≤
        if t.deferral = .notRequested then 1 else 0 := by
      apply Nat.le_trans ih
      by_cases hd : t.deferral = .notRequested
      · rw [if_pos hd]
        split <;> omega
      · have hlater := t.act_ne_notRequested now a hd
        simp [hd, hlater]
    cases a with
    | call | resume | prevent | poll => exact hle
    | defer timeout fallback =>
      rw [answers, List.countP_cons]
      rcases t.defer_cases now timeout fallback with ⟨-, h⟩ | ⟨-, -, h⟩ | ⟨-, hfirst, h⟩
      · rw [h]
        exact hle
      · rw [h]
        exact hle
      · have hpending : (t.act now (.defer timeout fallback)).deferral ≠ .notRequested := by
          simp [act, h, tryUpdate]
        have hnone := ih (t := t.act now (.defer timeout fallback))
        rw [if_neg hpending] at hnone
        rw [if_pos hfirst, h]
        exact Nat.succ_le_succ hnone

/-- However a turn's handles and the executor act on it, its deferral is the one that the history dictates.
At most one request is granted, and one that is not granted changes nothing. Every act leaves the deferral as
it is or takes one of its steps, and a deferral that is over stays as it is. -/
theorem deferral_follows_history (point : Point) (limits : PacketLimits) (maxTimeout : Nat) (p : Packet)
    (history : List (Nat × Act)) :
    let t := (fresh point limits maxTimeout p).after history
    t.deferral = .dictated maxTimeout history ∧
      ((fresh point limits maxTimeout p).answers history).countP (·.isOk) ≤ 1 ∧
      (∀ now timeout fallback, (tryUpdate t (t.defer now timeout fallback)).1 =
        if timeout = 0 then .error .zeroTimeout
        else if history.any (·.2.isRequest) then .error (.deferredTwice point) else .ok ()) ∧
      (∀ now timeout fallback e, t.defer now timeout fallback = .error e →
        t.act now (.defer timeout fallback) = t) ∧
      (∀ now a, (t.act now a).deferral = t.deferral ∨
        t.deferral.Step maxTimeout now a (t.act now a).deferral) ∧
      (t.deferral.isOver → ∀ later, (t.after later).deferral = t.deferral) := by
  intro t
  have hpoint : t.point = point := after_point history
  have hmaxTimeout : t.maxTimeout = maxTimeout := after_maxTimeout history
  have hdeferral : t.deferral = .dictated maxTimeout history :=
    after_deferral_of_notRequested rfl history
  refine ⟨hdeferral, granted_answers_le history, ?_, fun now timeout fallback e => t.act_refused now, ?_,
    after_deferral_of_isOver⟩
  · intro now timeout fallback
    rw [defer_answer, hpoint, hdeferral]
    -- A request is refused exactly if the history has one that was granted, and the first was.
    cases hany : history.any (·.2.isRequest) with
    | false => simp [(Deferral.dictated_eq_notRequested maxTimeout history).2 hany]
    | true =>
      have hrequested : Deferral.dictated maxTimeout history ≠ .notRequested := by
        intro hnone
        rw [(Deferral.dictated_eq_notRequested maxTimeout history).1 hnone] at hany
        cases hany
      simp [hrequested]
  · intro now a
    rw [← hmaxTimeout]
    exact t.act_step now a

end Turn
end BrokerHooks
