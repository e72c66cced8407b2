import BrokerHooks.Proofs.Chain.Outcome

namespace BrokerHooks

/-- The chain that an entry ends, the answer and when it was given. A packet that does not belong to the point is
answered at once. -/
def Entry.answer? (e : Entry) : Option (Chain × Report × Nat) :=
  match e.event with
  | .reported c r => some (c, r, e.time)
  | .misrouted c => some (c, { outcome := .proceed c.supplied }, e.time)
  | .began _ | .invoked _ _ _ | .expired _ _ | .denied | .noted _ => none

namespace Broker

def submits (b : Broker) : Move → List Chain
  | .submit connection point p => [(b.submit connection point p).1]
  | _ => []

def handedOver (b : Broker) : List Move → List Chain
  | [] => []
  | m :: ms => b.submits m ++ (b.move m).handedOver ms

def answers (b : Broker) : List (Chain × Report × Nat) := b.journal.filterMap (·.answer?)

/-- The chains that wait, are suspended or have been answered. -/
def known (b : Broker) : List Chain :=
  b.waiting ++ b.suspended.map (·.chain) ++ b.answers.map (·.1)

theorem EndsNone.answers {b b' : Broker} (h : EndsNone b b') : b'.answers = b.answers := by
  obtain ⟨new, hj, hnew⟩ := h
  have hnone : new.filterMap (·.answer?) = [] := by
    apply List.filterMap_eq_nil_iff.2
    intro e he
    have hout := hnew e he
    unfold Entry.answer?
    split <;> simp_all [Event.outcome?]
  unfold Broker.answers
  rw [hj, List.filterMap_append, hnone, List.append_nil]

theorem known_eq {who : Option Chain} {touched : Nat → Prop} {b b' : Broker} (he : Effect who touched b b')
    (hnone : EndsNone b b') : b'.known = b.known := by
  unfold known
  rw [he.waiting, he.suspended, hnone.answers]

theorem known_report (b : Broker) (c : Chain) (r : Report) : (b.report c r).known.Perm (c :: b.known) := by
  have hanswers : (b.report c r).answers.map (·.1) = b.answers.map (·.1) ++ [c] := by
    simp [answers, Entry.answer?]
  unfold known
  rw [report_waiting, report_suspended, hanswers, ← List.append_assoc]
  exact List.perm_append_singleton ..

theorem known_suspend (b : Broker) (s : Suspended) :
    { b with suspended := b.suspended ++ [s] }.known.Perm (s.chain :: b.known) := by
  have hknown : { b with suspended := b.suspended ++ [s] }.known =
      b.waiting ++ b.suspended.map (·.chain) ++ s.chain :: b.answers.map (·.1) := by
    simp [known, answers]
  rw [hknown]
  exact List.perm_middle

/-- A chain that runs on is suspended in the end, or answered. -/
theorem known_proceed (c : Chain) (hooks : List Ranked) (p : Packet) (b : Broker) :
    (proceed c hooks p b).known.Perm (c :: b.known) := by
  have hserve {b' b'' : Broker} {r : Ranked} {q : Packet} {st : Standing} (h : b'.known = b.known)
      (hs : b'.serve c r q = (st, b'')) : b''.known = b.known := by
    have he : Effect (some c) (fun _ => False) _ _ := (Effect.of_serve hs).1
    have hnone := EndsNone.serve b' c r q
    rw [hs] at hnone
    exact (known_eq he hnone).trans h
  refine proceed_induction (motive := fun _ _ b' => b'.known = b.known)
    (Q := fun b' => b'.known.Perm (c :: b.known)) ?finished ?pending ?failed ?passed rfl
  case finished => exact fun p b' h => h ▸ known_report b' c _
  case pending => exact fun r rest p b' b'' h hs => hserve h hs ▸ known_suspend b'' _
  case failed => exact fun r rest p b' cause b'' h hs => hserve h hs ▸ known_report b'' c _
  case passed => exact fun r rest p b' q b'' h hs => hserve h hs

theorem known_begin (b : Broker) (c : Chain) : (b.begin c).known.Perm (c :: b.known) := by
  have he : Effect (some c) (fun _ => False) b (b.record (.began c)) := .record (e := .began c) rfl (.inr rfl) b
  have hbegan : (b.record (.began c)).known = b.known := known_eq he (.record (e := .began c) rfl b)
  exact hbegan ▸ known_proceed c _ _ _

theorem known_wake (b : Broker) (s : Suspended) : (b.wake s).known.Perm (s.chain :: b.known) := by
  have he : Effect (some s.chain) (· = s.turn) b (b.standing s.chain s.turn).2 := .standing (by rfl) b
  have hknown := known_eq he (.standing b s.chain s.turn)
  rw [wake_eq_conclude]
  cases hs : b.standing s.chain s.turn with
  | mk st b' =>
    rw [hs] at hknown
    cases st with
    | pending => exact hknown ▸ known_suspend b' s
    | failed cause => exact hknown ▸ known_report b' s.chain _
    | passed q => exact hknown ▸ known_proceed s.chain s.rest q b'

theorem known_submit (b : Broker) (connection : Nat) (point : Point) (p : Packet) :
    (b.submit connection point p).2.known.Perm (b.known ++ [(b.submit connection point p).1]) := by
  unfold submit
  simp only
  split
  · refine List.perm_iff_count.2 fun d => ?_
    simp [known, answers, List.count_cons]
    omega
  · simp [known, answers, Entry.answer?]

theorem known_move (b : Broker) (m : Move) : (b.move m).known.Perm (b.known ++ b.submits m) := by
  have hstill {b' : Broker} (h : b'.known = b.known) : b'.known.Perm (b.known ++ []) := by
    rw [h, List.append_nil]
  cases m with
  | submit connection point p => exact known_submit b connection point p
  | begin lane =>
    simp only [Broker.move, submits]
    split
    · split
      · rename_i c rest htake
        obtain ⟨before, after, hw, rfl, -, -⟩ := takeFirst?_eq_some.1 htake
        -- The chain has left the row, and is known by where it halts.
        refine (known_begin { b with waiting := before ++ after } c).trans ?_
        refine List.perm_iff_count.2 fun d => ?_
        simp [known, answers, hw, List.count_cons]
        omega
      · exact hstill rfl
    · exact hstill rfl
  | wake i =>
    simp only [Broker.move, submits]
    split
    · rename_i s hs
      obtain ⟨before, after, rfl, hsplit, herase⟩ := eraseIdx_split hs
      rw [herase]
      refine (known_wake { b with suspended := before ++ after } s).trans ?_
      refine List.perm_iff_count.2 fun d => ?_
      simp [known, answers, hsplit, List.count_cons]
      omega
    · exact hstill rfl
  | work i =>
    simp only [Broker.move, submits]
    split
    · rename_i s hs
      have he := runSleeper_effect b s (b.sleepers.eraseIdx i)
      have hknown := known_eq he (.run s.site s.program _)
      exact hstill hknown
    · exact hstill rfl
  | perform site op =>
    have he : Effect none (fun _ => True) b (b.perform site op).2 := .perform trivial b op
    exact hstill (known_eq he (.perform b site op))
  | _ => exact hstill rfl

/-- What has been handed over waits, is suspended or has been answered, each once. -/
theorem known_play (b : Broker) (ms : List Move) : (b.play ms).known.Perm (b.known ++ b.handedOver ms) := by
  induction ms generalizing b with
  | nil => simp [handedOver]
  | cons m ms ih =>
    rw [play_cons, handedOver, ← List.append_assoc]
    exact (ih (b.move m)).trans ((known_move b m).append_right _)

theorem move_chains (b : Broker) (m : Move) : b.chains ≤ (b.move m).chains := by
  obtain ⟨b', heq, hi | hm⟩ := Broker.move_cases b m <;> rw [heq]
  · exact hi.chains
  · cases hm with
    | submitted c hn => exact Nat.le_succ _
    | @began before after c =>
      have hchains := (begin_halts { b with waiting := before ++ after } c fun _ => False).told.1
      exact Nat.le_of_eq hchains.symm
    | @woke before after s =>
      have hchains := (wake_halts { b with suspended := before ++ after } s).told.1
      exact Nat.le_of_eq hchains.symm

theorem submits_number (b : Broker) (m : Move) :
    ∀ c ∈ b.submits m, b.chains ≤ c.number ∧ c.number < (b.move m).chains := by
  cases m with
  | submit connection point p =>
    have hchains : (b.submit connection point p).2.chains = b.chains + 1 := by
      unfold submit
      simp only
      split <;> rfl
    simp [submits, Broker.move, submit_fst, hchains]
  | _ => simp [submits]

theorem handedOver_number (b : Broker) (ms : List Move) : ∀ c ∈ b.handedOver ms, b.chains ≤ c.number := by
  induction ms generalizing b with
  | nil => simp [handedOver]
  | cons m ms ih =>
    intro c hc
    rcases List.mem_append.1 hc with hc | hc
    · exact (submits_number b m c hc).1
    · exact Nat.le_trans (move_chains b m) (ih _ c hc)

theorem handedOver_sorted (b : Broker) (ms : List Move) : (b.handedOver ms).Pairwise (·.number < ·.number) := by
  induction ms generalizing b with
  | nil => exact .nil
  | cons m ms ih =>
    refine List.pairwise_append.2 ⟨?_, ih _, fun c hc d hd => ?_⟩
    · cases m <;> simp [submits]
    · exact Nat.lt_of_lt_of_le (submits_number b m c hc).2 (handedOver_number _ ms d hd)

/-- In a run from a broker that knows of no chain, no two chains have one number. -/
theorem known_distinct {start : Broker} (hstart : start.known = []) (ms : List Move) :
    (start.play ms).known.Pairwise (·.number ≠ ·.number) := by
  have hperm := known_play start ms
  rw [hstart, List.nil_append] at hperm
  have hsorted := (handedOver_sorted start ms).imp fun hlt => Nat.ne_of_lt hlt
  exact (hperm.pairwise_iff fun hne => hne.symm).2 hsorted

theorem report?_eq (b : Broker) (c : Chain) :
    Session.report? b c = b.answers.findSome? fun x => if x.1.number = c.number then some x.2 else none := by
  unfold Session.report? answers
  induction b.journal with
  | nil => rfl
  | cons e es ih =>
    rw [List.findSome?_cons, List.filterMap_cons, ih]
    cases hevent : e.event with
    | reported d r =>
      by_cases hd : d.number = c.number <;> simp [Entry.answer?, hevent, hd]
    | misrouted d =>
      by_cases hd : d.number = c.number <;> simp [Entry.answer?, hevent, hd]
    | _ => simp [Entry.answer?, hevent]

theorem findSome?_of_distinct {α β : Type} (key : α → Nat) (val : α → β) {xs : List α}
    (h : xs.Pairwise (key · ≠ key ·)) {x : α} (hx : x ∈ xs) :
    xs.findSome? (fun y => if key y = key x then some (val y) else none) = some (val x) := by
  induction xs with
  | nil => cases hx
  | cons y ys ih =>
    rw [List.findSome?_cons]
    obtain ⟨hy, hys⟩ := List.pairwise_cons.1 h
    rcases List.mem_cons.1 hx with rfl | hx
    · simp
    · simp [hy x hx, ih hys hx]

/-- How many of the packets that are handed over in a run have got such an answer by its end. -/
def answered (start : Broker) (ms : List Move) (P : Chain → Report → Bool) : Nat :=
  (start.handedOver ms).countP fun c => (Session.report? (start.play ms) c).any fun x => P c x.1

theorem answered_eq {start : Broker} (hstart : start.known = []) (ms : List Move) (P : Chain → Report → Bool) :
    start.answered ms P = (start.play ms).answers.countP fun x => P x.1 x.2.1 := by
  obtain ⟨b, hb⟩ : ∃ b, b = start.play ms := ⟨_, rfl⟩
  have hperm := known_play start ms
  rw [hstart, List.nil_append] at hperm
  have hdistinct := known_distinct hstart ms
  unfold answered
  rw [← hb] at hperm hdistinct ⊢
  obtain ⟨-, hanswers, hlive⟩ := List.pairwise_append.1 hdistinct
  -- Of those that wait or are suspended no answer tells.
  have hopen : ∀ c ∈ b.waiting ++ b.suspended.map (·.chain), Session.report? b c = none := by
    intro c hc
    rw [report?_eq, List.findSome?_eq_none_iff]
    intro x hx
    have hne : c.number ≠ x.1.number := hlive c hc x.1 (List.mem_map_of_mem hx)
    simp [hne.symm]
  rw [List.pairwise_map] at hanswers
  have hanswered : ∀ x ∈ b.answers, Session.report? b x.1 = some x.2 := by
    intro x hx
    rw [report?_eq]
    exact findSome?_of_distinct (fun x => x.1.number) (·.2) hanswers hx
  calc
    _ = b.known.countP fun c => (Session.report? b c).any fun x => P c x.1 := (hperm.countP_eq _).symm
    _ = (b.answers.map (·.1)).countP fun c => (Session.report? b c).any fun x => P c x.1 := by
      unfold known
      rw [List.countP_append, List.countP_eq_zero.2 fun c hc => by simp [hopen c hc], Nat.zero_add]
    _ = _ := by
      rw [List.countP_map]
      refine List.countP_congr fun x hx => ?_
      simp [hanswered x hx]

end Broker
end BrokerHooks
