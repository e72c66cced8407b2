import BrokerHooks.Proofs.Turn.History

namespace BrokerHooks

/-- The loop that waits for a turn. -/
structure Waiter where
  turn : Turn
  /-- Whether a resumption has left a permit that the loop has not taken. -/
  permit : Bool
  /-- The deadline up to which the loop sleeps; `none` if it is about to look at the turn, or has returned. -/
  sleepsUntil : Option Nat

namespace Waiter

/-- The loop for a turn whose code has returned. If the code itself has resumed the turn, the permit for it
lies there already. -/
def start (t : Turn) : Waiter where
  turn := t
  permit := t.deferral = .resumed
  sleepsUntil := none

def canRun (w : Waiter) (now : Nat) : Bool :=
  match w.sleepsUntil with
  | none => true
  | some deadline => w.permit || deadline ≤ now

/-- The loop wakes up, which takes the permit, and looks at the turn. -/
def look (w : Waiter) (now : Nat) : Waiter :=
  let t := (w.turn.poll now).2
  { turn := t, permit := w.permit && w.sleepsUntil.isNone, sleepsUntil := t.deadline? }

/-- What an act means to the loop. It looks at the turn only if it can run. -/
def act (w : Waiter) (now : Nat) : Turn.Act → Waiter
  | .resume =>
    { w with turn := w.turn.act now .resume, permit := w.permit || w.turn.deadline?.isSome }
  | .poll => if w.canRun now then w.look now else w
  | a => { w with turn := w.turn.act now a }

def after (w : Waiter) (history : List (Nat × Turn.Act)) : Waiter :=
  history.foldl (fun w a => w.act a.1 a.2) w

/-- The loop sleeps while the turn is pending, it is woken once the turn has been resumed, and it returns
only from a turn that is over. -/
inductive Alert : Waiter → Prop where
  | sleeps {t : Turn} {deadline : Nat} {fallback : Fallback} (hd : t.deferral = .pending deadline fallback) :
      Alert { turn := t, permit := false, sleepsUntil := some deadline }
  | woken {t : Turn} {deadline : Nat} (hd : t.deferral = .resumed) :
      Alert { turn := t, permit := true, sleepsUntil := some deadline }
  | returned {t : Turn} {permit : Bool} (hd : t.deferral.isOver) :
      Alert { turn := t, permit, sleepsUntil := none }

theorem deadline?_of_isOver {t : Turn} (hd : t.deferral.isOver) : t.deadline? = none := by
  unfold Turn.deadline?
  cases hdeferral : t.deferral <;> simp_all [Deferral.isOver]

theorem not_isPending_of_isOver {t : Turn} (hd : t.deferral.isOver) (now : Nat) :
    t.isPending now = false := by
  unfold Turn.isPending Turn.poll
  cases hdeferral : t.deferral <;> simp_all [Deferral.isOver]

namespace Alert

variable {w : Waiter}

theorem canRun_eq (h : Alert w) (now : Nat) : w.canRun now = !w.turn.isPending now := by
  cases h with
  | @sleeps t deadline fallback hd =>
    by_cases hdue : deadline ≤ now <;> simp [canRun, Turn.isPending, Turn.poll, hd, hdue]
  | @woken t deadline hd =>
    have hover : t.deferral.isOver := by rw [hd]; rfl
    simp [canRun, not_isPending_of_isOver hover]
  | returned hd => simp [canRun, not_isPending_of_isOver hd]

/-- After a look at a turn that was asked time for the loop sleeps or has returned. -/
theorem of_look (hd : w.turn.deferral ≠ .notRequested) (now : Nat)
    (hpermit : w.turn.deferral.isOver = false → (w.permit && w.sleepsUntil.isNone) = false) :
    Alert (w.look now) := by
  have hreturns (hover : (w.turn.poll now).2.deferral.isOver) : Alert (w.look now) := by
    simp only [look, deadline?_of_isOver hover]
    exact .returned hover
  cases hdeferral : w.turn.deferral with
  | notRequested => exact absurd hdeferral hd
  | pending deadline fallback =>
    by_cases hdue : deadline ≤ now
    · exact hreturns (by simp [Turn.poll, hdeferral, hdue, Deferral.isOver])
    · have hpoll : (w.turn.poll now).2 = w.turn := by simp [Turn.poll, hdeferral, hdue]
      have hdeadline : w.turn.deadline? = some deadline := Turn.deadline?_eq_some.2 ⟨fallback, hdeferral⟩
      simp only [look, hpoll, hdeadline, hpermit (by rw [hdeferral]; rfl)]
      exact .sleeps hdeferral
  | resumed | timedOut => exact hreturns (by simp [Turn.poll, hdeferral, Deferral.isOver])

theorem act (h : Alert w) (now : Nat) (a : Turn.Act) :
    Alert (w.act now a) ∧ (w.act now a).turn = w.turn.act now a := by
  have hstays {t : Turn} (hd : t.deferral.isOver) : (t.act now a).deferral = t.deferral :=
    Turn.after_deferral_of_isOver hd [(now, a)]
  cases h with
  | @sleeps t deadline fallback hd =>
    have hrequested : t.deferral ≠ .notRequested := by simp [hd]
    cases a with
    | call => exact ⟨.sleeps hd, rfl⟩
    | prevent => exact ⟨.sleeps (by rwa [t.act_prevent_deferral now]), rfl⟩
    | defer timeout fallback' =>
      have hrefused := t.act_defer_of_requested now hrequested timeout fallback'
      exact ⟨.sleeps (by rw [hrefused, hd]), rfl⟩
    -- The permit is there from now on, however late the loop comes to look.
    | resume =>
      have hdeadline : t.deadline? = some deadline := Turn.deadline?_eq_some.2 ⟨fallback, hd⟩
      have hresumed : (t.act now .resume).deferral = .resumed := by simp [Turn.act, Turn.resume, hd]
      simp only [Waiter.act, hdeadline]
      exact ⟨.woken hresumed, trivial⟩
    | poll =>
      unfold Waiter.act
      by_cases hdue : deadline ≤ now
      · rw [if_pos (by simpa [canRun] using hdue)]
        exact ⟨of_look hrequested now fun _ => rfl, rfl⟩
      · have hpoll : t.act now .poll = t := by simp [Turn.act, Turn.poll, hd, hdue]
        rw [if_neg (by simpa [canRun] using hdue), hpoll]
        exact ⟨.sleeps hd, rfl⟩
  | @woken t deadline hd =>
    have hover : t.deferral.isOver := by rw [hd]; rfl
    have hresumed := (hstays hover).trans hd
    cases a with
    | poll => exact ⟨of_look (by simp [hd]) now fun _ => rfl, rfl⟩
    | _ => exact ⟨.woken hresumed, rfl⟩
  | @returned t permit hover =>
    cases a with
    | poll =>
      have hrequested : t.deferral ≠ .notRequested := by
        intro hnot
        rw [hnot] at hover
        cases hover
      exact ⟨of_look hrequested now fun hnot => absurd (hnot.symm.trans hover) (by simp), rfl⟩
    | _ => exact ⟨.returned (hstays hover ▸ hover), rfl⟩

theorem after (h : Alert w) (history : List (Nat × Turn.Act)) :
    Alert (w.after history) ∧ (w.after history).turn = w.turn.after history := by
  induction history generalizing w with
  | nil => exact ⟨h, rfl⟩
  | cons x history ih =>
    obtain ⟨hact, hturn⟩ := h.act x.1 x.2
    obtain ⟨hafter, hturn'⟩ := ih hact
    refine ⟨hafter, hturn'.trans ?_⟩
    rw [hturn]
    rfl

end Alert

/-- Once the loop has looked at a turn that was asked time for, it can run exactly when the turn is not
pending, whatever is done to the turn and whenever the loop is looked after. -/
theorem canRun_after {t : Turn} (hd : t.deferral ≠ .notRequested) (time : Nat)
    (later : List (Nat × Turn.Act)) (now : Nat) :
    (((start t).look time).after later).canRun now = !((t.act time .poll).after later).isPending now := by
  have hlooked : Alert ((start t).look time) := by
    apply Alert.of_look hd
    intro hnot
    cases hdeferral : t.deferral <;> simp_all [start, Deferral.isOver]
  obtain ⟨halert, hturn⟩ := hlooked.after later
  rw [halert.canRun_eq, hturn]
  rfl

end Waiter
end BrokerHooks
