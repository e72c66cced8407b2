import BrokerHooks.Proofs.Chain.Execution
import BrokerHooks.Proofs.Chain.Settling
import BrokerHooks.Proofs.Lane.Private
import BrokerHooks.Proofs.Lane.Regular

namespace BrokerHooks.Broker

/-- What holds all along of a run of such hooks. -/
structure Sound (b : Broker) : Prop where
  orderly : Orderly b
  grounded : Grounded b
  distinct : b.suspended.Pairwise (·.turn ≠ ·.turn)
  sleepers_lt : ∀ w ∈ b.sleepers, w.site.turn < b.turns.length
  tasks : ∀ w ∈ b.sleepers, w.program.IsPrivate
  hooks : ∀ place, ∀ h ∈ b.roster.hooksOn place, ActsOnOwnOutput h.respond
  rest : ∀ s ∈ b.suspended, OwnHooks s.rest
  kept : ∀ c, c ∈ b.waiting ∨ (∃ s ∈ b.suspended, s.chain = c) → b.roster.isReleased c.connection = false

theorem sound_ofConfig (config : Config) (metered : Bool) : Sound (ofConfig config metered) where
  orderly := orderly_ofConfig config metered
  grounded := grounded_ofConfig config metered
  distinct := .nil
  sleepers_lt := List.forall_mem_nil _
  tasks := List.forall_mem_nil _
  hooks := by
    intro place
    cases place <;> exact List.forall_mem_nil _
  rest := List.forall_mem_nil _
  kept := by
    rintro c (hc | ⟨s, hs, -⟩)
    · cases hc
    · cases hs

/-- Of the roster code asks neither that a hook is added nor that a connection is given up. -/
theorem perform_answer (b : Broker) (s : Site) (op : Op) : (b.perform s op).2.roster = b.roster ∨
    ∃ q : Roster.Request, (b.perform s op).2.roster = (b.roster.answer q).2 ∧
      (∀ place id point family respond, q ≠ .add place id point family respond) ∧ ∀ c, q ≠ .release c := by
  have hadmitted {α : Type} {P : Roster → Prop} {f : Broker → α × Broker} (hb : P b.roster)
      (hf : ∀ b₁ : Broker, b₁.roster = b.roster → P (f b₁).2.roster) : P (b.admitted f).2.roster := by
    have hcheck := check_roster b
    unfold admitted
    split <;> rename_i heq <;> rw [heq] at hcheck
    · exact hcheck ▸ hb
    · exact hf _ hcheck
  cases op with
  | call | defer | resume | prevent | view => exact .inl (onTurn_roster ..)
  | isEnabled | note => exact .inl rfl
  | close reason => exact .inr ⟨.close s.connection reason, rfl, nofun, nofun⟩
  | resolve topic number => exact .inr ⟨.resolve s.connection topic number, rfl, nofun, nofun⟩
  | register id priority => exact .inr ⟨.register id priority, rfl, nofun, nofun⟩
  | remove id => exact .inr ⟨.remove id, rfl, nofun, nofun⟩
  | enable id => exact .inr ⟨.enable id, rfl, nofun, nofun⟩
  | disable id => exact .inr ⟨.disable id, rfl, nofun, nofun⟩
  | check => exact .inl (check_roster b)
  | isConnected clientId =>
    exact .inl (hadmitted (P := (· = b.roster)) rfl fun b₁ h₁ => h₁)
  | disconnectClient clientId reason =>
    unfold perform disconnectClient
    simp only
    split
    · exact .inl rfl
    · refine hadmitted (P := fun r => r = b.roster ∨ ∃ q : Roster.Request, r = (b.roster.answer q).2 ∧
        (∀ place id point family respond, q ≠ .add place id point family respond) ∧ ∀ c, q ≠ .release c)
        (.inl rfl) fun b₁ h₁ => ?_
      split
      · exact .inl h₁
      · rename_i c _
        exact .inr ⟨.close c reason, by rw [← h₁]; rfl, nofun, nofun⟩

/-- Nothing that a chain refers to is swept away, and no hook comes with it. -/
theorem sweep_keeps (b : Broker) {P : (Nat → Input → Program) → Prop}
    (hhooks : ∀ place, ∀ x ∈ b.roster.hooksOn place, P x.respond) :
    (∀ place, ∀ x ∈ b.sweep.roster.hooksOn place, P x.respond) ∧
      ∀ c, b.refersTo c → b.roster.isReleased c = false → b.sweep.roster.isReleased c = false := by
  have hreleases (abandoned : List Nat) (r : Roster) (hr : ∀ place, ∀ x ∈ r.hooksOn place, P x.respond) :
      (∀ place, ∀ x ∈ (abandoned.foldl Roster.release r).hooksOn place, P x.respond) ∧
        ∀ c ∉ abandoned, r.isReleased c = false → (abandoned.foldl Roster.release r).isReleased c = false := by
    induction abandoned generalizing r with
    | nil => exact ⟨hr, fun _ _ h => h⟩
    | cons i abandoned ih =>
      obtain ⟨hown, hkept⟩ := ih (r.release i) (Roster.hooksOn_answer_all (q := .release i) hr nofun)
      refine ⟨hown, fun c hc h => hkept c (fun hmem => hc (List.mem_cons_of_mem _ hmem)) ?_⟩
      refine Roster.isReleased_answer (q := .release i) h fun heq => hc ?_
      cases heq
      exact List.mem_cons_self ..
  obtain ⟨hown, hkept⟩ := hreleases _ b.roster hhooks
  refine ⟨hown, fun c hrefers => hkept c fun hmem => ?_⟩
  have habandoned := (List.mem_filter.1 hmem).2
  simp [hrefers] at habandoned

theorem refersTo_chain {b : Broker} {c : Chain} (h : c ∈ b.waiting ∨ ∃ s ∈ b.suspended, s.chain = c) :
    b.refersTo c.connection := by
  unfold refersTo
  rcases h with h | ⟨s, hs, rfl⟩
  · have hany : b.waiting.any (·.connection = c.connection) := List.any_eq_true.2 ⟨c, h, by simp⟩
    simp [hany]
  · have hany : b.suspended.any (·.chain.connection = s.chain.connection) := List.any_eq_true.2 ⟨s, hs, by simp⟩
    simp [hany]

theorem wake_rest {b : Broker} {s s' : Suspended} (h : s' ∈ (b.wake s).suspended) :
    s' ∈ b.suspended ∨ s'.rest <:+ s.rest := by
  have he : Effect (some s.chain) (· = s.turn) b (b.standing s.chain s.turn).2 := Effect.standing (by rfl) b
  rw [wake_eq_conclude] at h
  cases hst : b.standing s.chain s.turn with
  | mk st b' =>
    rw [hst] at h he
    cases st with
    | pending =>
      rcases List.mem_append.1 h with h | h
      · exact .inl (he.suspended ▸ h)
      · obtain rfl := List.mem_singleton.1 h
        exact .inr List.suffix_rfl
    | failed cause =>
      have hsuspended : (b'.reportFailure s.chain s.current s.extension cause).suspended = b'.suspended :=
        report_suspended ..
      exact .inl (he.suspended ▸ hsuspended ▸ h)
    | passed q =>
      rcases proceed_rest s.chain s.rest q b' s' h with h | ⟨-, r, hrest⟩
      · exact .inl (he.suspended ▸ h)
      · exact .inr ((List.suffix_cons r s'.rest).trans hrest)

variable {b b' : Broker}

theorem Effect.sleepers_lt {who : Option Chain} {touched : Nat → Prop} (he : Effect who touched b b')
    (hlt : ∀ w ∈ b.sleepers, w.site.turn < b.turns.length) (htouched : ∀ t, touched t → t < b.turns.length) :
    ∀ w ∈ b'.sleepers, w.site.turn < b'.turns.length := by
  obtain ⟨new, hs, hnew⟩ := he.sleepers
  intro w hw
  rw [hs] at hw
  rcases List.mem_append.1 hw with hw | hw
  · exact Nat.lt_of_lt_of_le (hlt w hw) he.turns_length
  · rcases (hnew w hw).2 with ht | hlt
    · exact Nat.lt_of_lt_of_le (htouched _ ht) he.turns_length
    · exact hlt

namespace Sound

theorem ordered (h : Sound b) (c : Nat) (point : Point) : OwnHooks (b.roster.ordered c point) := by
  intro r hr
  rcases Roster.mem_ordered hr with hmem | hmem
  · exact h.hooks _ _ hmem
  · exact h.hooks _ _ hmem

theorem of_private (h : Sound b) {lane : Option (Nat × Point)} (hp : Private lane b b') :
    ∀ w ∈ b'.sleepers, w.program.IsPrivate := by
  obtain ⟨new, hs, hnew⟩ := hp.tasks
  intro w hw
  rw [hs] at hw
  rcases List.mem_append.1 hw with hw | hw
  · exact h.tasks w hw
  · exact hnew w hw

/-- What happens to no chain keeps all this, if the roster keeps its part. -/
theorem aside (h : Sound b) (ho : Orderly b') (ha : Aside b b')
    (hhooks : ∀ place, ∀ x ∈ b'.roster.hooksOn place, ActsOnOwnOutput x.respond)
    (hkept : ∀ c, c ∈ b.waiting ∨ (∃ s ∈ b.suspended, s.chain = c) → b'.roster.isReleased c.connection = false) :
    Sound b' where
  orderly := ho
  grounded := by
    unfold Grounded
    rw [ha.suspended, ha.turns]
    exact h.grounded
  distinct := ha.suspended ▸ h.distinct
  sleepers_lt := by
    rw [ha.sleepers, ha.turns]
    exact h.sleepers_lt
  tasks := ha.sleepers ▸ h.tasks
  hooks := hhooks
  rest := ha.suspended ▸ h.rest
  kept := by
    rw [ha.waiting, ha.suspended]
    exact hkept

theorem request (h : Sound b) {q : Roster.Request} (ho : Orderly { b with roster := (b.roster.answer q).2 })
    (hown : ∀ place id point family respond, q = .add place id point family respond → ActsOnOwnOutput respond)
    (hq : ∀ c, q ≠ .release c) : Sound { b with roster := (b.roster.answer q).2 } :=
  h.aside ho { Aside.refl b with } (Roster.hooksOn_answer_all h.hooks hown) fun c hc =>
    Roster.isReleased_answer (h.kept c hc) (hq _)

theorem code {touched : Nat → Prop} (h : Sound b) (ho : Orderly b') (he : Effect none touched b b')
    (hp : Private none b b') (hlt : ∀ w ∈ b'.sleepers, w.site.turn < b'.turns.length) : Sound b' where
  orderly := ho
  grounded := by
    intro s hs
    rw [he.suspended] at hs
    exact Nat.lt_of_lt_of_le (h.grounded s hs) he.turns_length
  distinct := he.suspended ▸ h.distinct
  sleepers_lt := hlt
  tasks := h.of_private hp
  hooks := hp.roster ▸ h.hooks
  rest := he.suspended ▸ h.rest
  kept := by
    rw [he.waiting, he.suspended, hp.roster]
    exact h.kept

theorem halts {c : Chain} {touched : Nat → Prop} {lane : Option (Nat × Point)} (h : Sound b) (ho : Orderly b')
    (hh : Halts c touched b b') (hp : Private lane b b') (hc : b.roster.isReleased c.connection = false)
    (htouched : ∀ t, touched t → t < b.turns.length ∧ ∀ s ∈ b.suspended, s.turn ≠ t)
    (hrest : ∀ s ∈ b'.suspended, s ∈ b.suspended ∨ OwnHooks s.rest) : Sound b' := by
  have hgrounded := hh.grounded h.grounded fun t ht => (htouched t ht).1
  have hrests : ∀ s ∈ b'.suspended, OwnHooks s.rest := fun s hs => (hrest s hs).elim (h.rest s) id
  obtain ⟨-, hwaiting, -⟩ := hh.told
  -- However the chain halts, only the suspended chains and the work left behind are to be looked at.
  have hsound (hdistinct : b'.suspended.Pairwise (·.turn ≠ ·.turn))
      (hlt : ∀ w ∈ b'.sleepers, w.site.turn < b'.turns.length)
      (hchain : ∀ s ∈ b'.suspended, s ∈ b.suspended ∨ s.chain = c) : Sound b' := {
    orderly := ho
    grounded := hgrounded
    distinct := hdistinct
    sleepers_lt := hlt
    tasks := h.of_private hp
    hooks := hp.roster ▸ h.hooks
    rest := hrests
    kept := by
      rw [hwaiting, hp.roster]
      rintro d (hd | ⟨s, hs, rfl⟩)
      · exact h.kept d (.inl hd)
      · rcases hchain s hs with hs | rfl
        · exact h.kept _ (.inr ⟨s, hs, rfl⟩)
        · exact hc }
  cases hh with
  | reported r he =>
    have hlt := he.sleepers_lt h.sleepers_lt fun t ht => (htouched t ht).1
    refine hsound ?_ (by simpa using hlt) ?_
    · rw [report_suspended, he.suspended]
      exact h.distinct
    · rw [report_suspended, he.suspended]
      exact fun s hs => .inl hs
  | @suspended b'' s he hchain hturn _ =>
    have hlt := he.sleepers_lt h.sleepers_lt fun t ht => (htouched t ht).1
    -- No other chain waits for its turn, be it the one it had before or a fresh one.
    have hnew : ∀ s' ∈ b''.suspended, s'.turn ≠ s.turn := by
      intro s' hs'
      rw [he.suspended] at hs'
      rcases hturn with ht | hle
      · exact (htouched _ ht).2 s' hs'
      · exact Nat.ne_of_lt (Nat.lt_of_lt_of_le (h.grounded s' hs') hle)
    refine hsound ?_ hlt ?_
    · refine List.pairwise_append.2 ⟨he.suspended ▸ h.distinct, List.pairwise_singleton .., ?_⟩
      simpa using hnew
    · intro s' hs'
      rcases List.mem_append.1 hs' with hs' | hs'
      · exact .inl (he.suspended ▸ hs')
      · obtain rfl := List.mem_singleton.1 hs'
        exact .inr hchain

theorem takes_waiting (h : Sound b) {c : Chain} {before after : List Chain} (hw : b.waiting = before ++ c :: after)
    (hfirst : ∀ x ∈ before, x.lane ≠ c.lane) (hfree : ∀ s ∈ b.suspended, s.chain.lane ≠ c.lane) :
    Sound { b with waiting := before ++ after } :=
  { h with
    orderly := (h.orderly.takes_waiting c hw hfirst hfree).orderly
    kept := fun d hd => h.kept d (hd.imp_left fun hd => mem_of_split hw hd) }

theorem takes_suspended (h : Sound b) {s : Suspended} {before after : List Suspended}
    (hs : b.suspended = before ++ s :: after) : Sound { b with suspended := before ++ after } ∧
      ∀ s' ∈ before ++ after, s'.turn ≠ s.turn := by
  have hdistinct := h.distinct
  rw [hs] at hdistinct
  have hsub : ∀ s' ∈ before ++ after, s' ∈ b.suspended := fun s' hs' => mem_of_split hs hs'
  refine ⟨{ h with
    orderly := (h.orderly.takes_suspended s hs).orderly
    grounded := fun s' hs' => h.grounded s' (hsub s' hs')
    distinct := hdistinct.sublist (by simp)
    rest := fun s' hs' => h.rest s' (hsub s' hs')
    kept := fun d hd => h.kept d (hd.imp_right fun ⟨s', hs', hd⟩ => ⟨s', hsub s' hs', hd⟩) }, fun s' hs' => ?_⟩
  obtain ⟨-, hafter, hbefore⟩ := List.pairwise_append.1 hdistinct
  rcases List.mem_append.1 hs' with hs' | hs'
  · exact hbefore s' hs' s (by simp)
  · exact ((List.pairwise_cons.1 hafter).1 s' hs').symm

theorem others_eq_nil (h : Sound b) {before after : List Suspended} {s : Suspended}
    (hs : b.suspended = before ++ s :: after) : (before ++ after).filter (·.chain.lane = s.chain.lane) = [] :=
  List.filter_eq_nil_iff.2 fun s' hs' => by simpa using (h.orderly.takes_suspended s hs).free s' hs'

/-- A lane has one suspended chain at most. -/
theorem suspended_eq (h : Sound b) {s : Suspended} (hs : s ∈ b.suspended) {lane : Nat × Point}
    (hlane : s.chain.lane = lane) : b.suspended.filter (·.chain.lane = lane) = [s] := by
  obtain ⟨before, after, hsplit⟩ := List.append_of_mem hs
  have hothers := h.others_eq_nil hsplit
  rw [hlane, List.filter_append, List.append_eq_nil_iff] at hothers
  rw [hsplit, List.filter_append, hothers.1, List.filter_cons_of_pos (by simpa using hlane), hothers.2]
  rfl

theorem lane_unique (h : Sound b) {s s' : Suspended} (hs : s ∈ b.suspended) (hs' : s' ∈ b.suspended)
    (hlane : s.chain.lane = s'.chain.lane) : s = s' := by
  have hmem : s ∈ b.suspended.filter (·.chain.lane = s'.chain.lane) := List.mem_filter.2 ⟨hs, by simpa using hlane⟩
  rw [h.suspended_eq hs' rfl] at hmem
  exact List.mem_singleton.1 hmem

theorem begins (h : Sound b) (c : Chain) (hc : b.roster.isReleased c.connection = false)
    (ho : Orderly (b.begin c)) : Sound (b.begin c) := by
  have hown := h.ordered c.connection c.point
  refine h.halts ho (begin_halts b c fun _ => False) (Private.begins hown) hc nofun fun s hs => ?_
  rcases proceed_rest c _ _ _ s hs with hs | ⟨-, r, hrest⟩
  · exact .inl hs
  · exact .inr fun x hx => hown x (hrest.subset (List.mem_cons_of_mem _ hx))

theorem wakes (h : Sound b) {s : Suspended} {before after : List Suspended} (hs : b.suspended = before ++ s :: after)
    (ho : Orderly ({ b with suspended := before ++ after }.wake s)) :
    Sound ({ b with suspended := before ++ after }.wake s) := by
  have hmem : s ∈ b.suspended := by simp [hs]
  have hown := h.rest s hmem
  obtain ⟨htaken, hothers⟩ := h.takes_suspended hs
  refine htaken.halts ho (wake_halts _ s) (Private.wake hown _) (h.kept _ (.inr ⟨s, hmem, rfl⟩)) ?_ fun s' hs' => ?_
  · rintro t rfl
    exact ⟨h.grounded s hmem, hothers⟩
  · rcases wake_rest hs' with hs' | hsuffix
    · exact .inl hs'
    · exact .inr fun x hx => hown x (hsuffix.subset hx)

theorem work_private (h : Sound b) {i : Nat} {w : Sleeper} (hw : b.sleepers[i]? = some w) :
    ∃ t, b.turn? w.site.turn = some t ∧ b.runSleeper w (b.sleepers.eraseIdx i) =
      { b with now := max b.now w.due, sleepers := b.sleepers.eraseIdx i }.afterPlay w.site
        (w.program.playOn (max b.now w.due) t) := by
  have hmem := List.mem_of_getElem? hw
  have ht : b.turn? w.site.turn = some _ := List.getElem?_eq_getElem (h.sleepers_lt w hmem)
  refine ⟨_, ht, ?_⟩
  unfold runSleeper
  rw [run_private (b := { b with now := max b.now w.due, sleepers := b.sleepers.eraseIdx i }) ht (h.tasks w hmem)]

theorem runSleeper_private (h : Sound b) {i : Nat} {w : Sleeper} (hw : b.sleepers[i]? = some w) :
    Private none { b with now := max b.now w.due, sleepers := b.sleepers.eraseIdx i }
      (b.runSleeper w (b.sleepers.eraseIdx i)) := by
  obtain ⟨t, -, hrun⟩ := h.work_private hw
  rw [hrun]
  exact .afterPlay _ _ ((h.tasks w (List.mem_of_getElem? hw)).tasks _ _)

theorem works (h : Sound b) {i : Nat} {w : Sleeper} (hw : b.sleepers[i]? = some w)
    (ho : Orderly (b.runSleeper w (b.sleepers.eraseIdx i))) : Sound (b.runSleeper w (b.sleepers.eraseIdx i)) := by
  have hwoken : Sound { b with now := max b.now w.due, sleepers := b.sleepers.eraseIdx i } :=
    { h with
      orderly := h.orderly.idles { Idles.refl b with }
      sleepers_lt := fun w' hw' => h.sleepers_lt w' (List.mem_of_mem_eraseIdx hw')
      tasks := fun w' hw' => h.tasks w' (List.mem_of_mem_eraseIdx hw') }
  have he := runSleeper_effect b w (b.sleepers.eraseIdx i)
  refine hwoken.code ho he (h.runSleeper_private hw) (he.sleepers_lt hwoken.sleepers_lt ?_)
  rintro t rfl
  exact h.sleepers_lt w (List.mem_of_getElem? hw)

theorem performs (h : Sound b) (site : Site) (op : Op) (ho : Orderly (b.perform site op).2) :
    Sound (b.perform site op).2 := by
  cases hop : op.isPrivate with
  | true =>
    have he : Effect none (· = site.turn) b (b.perform site op).2 := .perform (by rfl) b op
    refine h.code ho he (.perform b site hop) ?_
    rw [perform_sleepers]
    exact fun w hw => Nat.lt_of_lt_of_le (h.sleepers_lt w hw) he.turns_length
  | false =>
    rcases perform_answer b site op with hsame | ⟨q, hanswer, hadd, hrelease⟩
    · refine h.aside ho (.perform b site hop) (hsame ▸ h.hooks) fun c hc => ?_
      rw [hsame]
      exact h.kept c hc
    · refine h.aside ho (.perform b site hop) ?_ fun c hc => ?_
      · rw [hanswer]
        exact Roster.hooksOn_answer_all h.hooks fun _ _ _ _ _ heq => absurd heq (hadd _ _ _ _ _)
      · rw [hanswer]
        exact Roster.isReleased_answer (h.kept c hc) (hrelease _)

/-- What a move of such hooks keeps. -/
theorem move (h : Sound b) {m : Move} (hm : Regular b m) : Sound (b.move m) := by
  have ho := h.orderly.move m
  cases m with
  | submit connection point p =>
    have hc := hm.handed connection point p rfl
    revert ho
    unfold Broker.move submit
    simp only
    split
    · intro ho
      refine { h with orderly := ho, kept := ?_ }
      rintro d (hd | hd)
      · rcases List.mem_append.1 hd with hd | hd
        · exact h.kept d (.inl hd)
        · obtain rfl := List.mem_singleton.1 hd
          exact hc
      · exact h.kept d (.inr hd)
    · exact fun ho => { h with orderly := ho }
  | begin lane =>
    revert ho
    simp only [Broker.move]
    split
    · rename_i hfree
      split
      · rename_i c rest htake
        obtain ⟨before, after, hw, rfl, hlane, hfirst⟩ := takeFirst?_eq_some.1 htake
        obtain rfl : c.lane = lane := of_decide_eq_true hlane
        have htaken := h.takes_waiting hw (by simpa using hfirst) (isFree_iff.1 hfree)
        exact htaken.begins c (h.kept c (.inl (by simp [hw])))
      · exact fun _ => h
    · exact fun _ => h
  | wake i =>
    revert ho
    simp only [Broker.move]
    split
    · rename_i s hs
      obtain ⟨before, after, rfl, hsplit, herase⟩ := eraseIdx_split hs
      rw [herase]
      exact h.wakes hsplit
    · exact fun _ => h
  | work i =>
    revert ho
    simp only [Broker.move]
    split
    · rename_i w hw
      exact h.works hw
    · exact fun _ => h
  | perform site op => exact h.performs site op ho
  | openConnection clientId version aliasMaximum =>
    exact h.request (q := .openConnection clientId version aliasMaximum) ho (by simp) (by simp)
  | track c => exact h.request (q := .track c) ho (by simp) (by simp)
  | untrack clientId => exact h.request (q := .untrack clientId) ho (by simp) (by simp)
  | letGo c => exact h.request (q := .letGo c) ho (by simp) (by simp)
  | add place id point family respond =>
    exact h.request (q := .add place id point family respond) ho
      (fun _ _ _ _ _ heq => by cases heq; exact hm.own _ _ _ _ _ rfl) (by simp)
  | elapse time => exact { h with orderly := ho }
  | sweep =>
    obtain ⟨hhooks, hkept⟩ := b.sweep_keeps h.hooks
    exact h.aside ho { Aside.refl b with } hhooks fun c hc => hkept c.connection (refersTo_chain hc) (h.kept c hc)
  | observeAliases => exact { h with orderly := ho }

theorem play (h : Sound b) {ms : List Move} (hms : RegularRun b ms) : Sound (b.play ms) := by
  induction ms generalizing b with
  | nil => exact h
  | cons m ms ih => exact ih (h.move hms.1) hms.2

end Sound
end BrokerHooks.Broker
