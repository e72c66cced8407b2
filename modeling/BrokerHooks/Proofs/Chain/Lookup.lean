import BrokerHooks.Proofs.Chain.Finish
import BrokerHooks.Proofs.Run.Story

namespace BrokerHooks.Broker

/-- The hook is one of those that the chain looked up when it began. -/
def LookedUp (past : List Deed) (c : Chain) (h : Hook) : Prop :=
  ∃ b, .began b c ∈ past ∧ ∃ r ∈ b.roster.ordered c.connection c.point, r.hook = h

theorem LookedUp.mono {past past' : List Deed} {c : Chain} {h : Hook} (hl : LookedUp past c h)
    (hsub : past ⊆ past') : LookedUp past' c h := by
  obtain ⟨b, hb, hr⟩ := hl
  exact ⟨b, hsub hb, hr⟩

/-- If the deed invokes a hook, the hook was looked up in the past and its extension is enabled. -/
def Deed.Lawful (past : List Deed) : Deed → Prop
  | .invoked b c h _ => LookedUp past c h ∧ b.roster.isEnabled h.extension
  | _ => True

theorem Deed.Lawful.mono {past past' : List Deed} {d : Deed} (hd : d.Lawful past)
    (hsub : past ⊆ past') : d.Lawful past' := by
  cases d with
  | invoked => exact ⟨hd.1.mono hsub, hd.2⟩
  | _ => exact trivial

def Traced : List Deed → List Deed → Prop
  | _, [] => True
  | past, d :: ds => d.Lawful past ∧ Traced (past ++ [d]) ds

theorem traced_append {past ds ds' : List Deed} :
    Traced past (ds ++ ds') ↔ Traced past ds ∧ Traced (past ++ ds) ds' := by
  induction ds generalizing past with
  | nil => simp [Traced]
  | cons d ds ih => simp [Traced, ih, and_assoc]

theorem traced_of_lawful {past ds : List Deed} (h : ∀ d ∈ ds, d.Lawful past) : Traced past ds := by
  induction ds generalizing past with
  | nil => exact trivial
  | cons d ds ih =>
    refine ⟨h d (by simp), ih fun d' hd' => ?_⟩
    exact (h d' (by simp [hd'])).mono (List.subset_append_left ..)

theorem codeStory_lawful (past : List Deed) (s : Site) (program : Program) (b : Broker) :
    ∀ d ∈ codeStory s program b, d.Lawful past := by
  induction program generalizing b with
  | done | fail | crash => exact List.forall_mem_nil _
  | perform op next ih =>
    intro d hd
    rcases List.mem_cons.1 hd with rfl | hd
    · exact trivial
    · exact ih _ _ d hd
  | spawn delay task next _ ih => exact ih _

theorem serveStory_lawful {past : List Deed} {c : Chain} {r : Ranked} (hr : LookedUp past c r.hook)
    (p : Packet) (b : Broker) : ∀ d ∈ serveStory b c r p, d.Lawful past := by
  unfold serveStory
  split
  · rename_i hon
    intro d hd
    rcases List.mem_append.1 hd with hd | hd
    · rcases List.mem_cons.1 hd with rfl | hd
      · exact ⟨hr, hon⟩
      · exact codeStory_lawful past _ _ _ d hd
    · split at hd
      · cases hd
      · obtain rfl := List.mem_singleton.1 hd
        exact trivial
  · exact List.forall_mem_nil _

theorem proceedStory_lawful {past : List Deed} {c : Chain} {hooks : List Ranked}
    (hhooks : ∀ r ∈ hooks, LookedUp past c r.hook) (p : Packet) (b : Broker) :
    ∀ d ∈ proceedStory c hooks p b, d.Lawful past := by
  induction hooks generalizing p b with
  | nil => exact List.forall_mem_nil _
  | cons r rest ih =>
    intro d hd
    rcases List.mem_append.1 hd with hd | hd
    · exact serveStory_lawful (hhooks r (by simp)) p b d hd
    · split at hd
      · exact ih (fun r' hr' => hhooks r' (by simp [hr'])) _ _ d hd
      · cases hd

/-- The hooks that are left of suspended chains were looked up by these chains. -/
def Sourced (past : List Deed) (b : Broker) : Prop :=
  ∀ s ∈ b.suspended, ∀ r ∈ s.rest, LookedUp past s.chain r.hook

theorem Sourced.mono {past past' : List Deed} {b b' : Broker} (h : Sourced past b)
    (hsub : past ⊆ past') (hs : b'.suspended ⊆ b.suspended) : Sourced past' b' :=
  fun s hmem r hr => (h s (hs hmem) r hr).mono hsub

theorem Sourced.proceed {past : List Deed} {b : Broker} (h : Sourced past b) {c : Chain}
    {hooks : List Ranked} (hhooks : ∀ r ∈ hooks, LookedUp past c r.hook) (p : Packet) :
    Sourced past (proceed c hooks p b) := by
  intro s hs r hr
  rcases proceed_rest c hooks p b s hs with hs | ⟨rfl, x, hrest⟩
  · exact h s hs r hr
  · exact hhooks r (hrest.subset (List.mem_cons_of_mem x hr))

theorem lookedUp_beginStory (b : Broker) (c : Chain) :
    ∀ r ∈ b.roster.ordered c.connection c.point, LookedUp [.began b c] c r.hook :=
  fun r hr => ⟨b, List.mem_singleton_self _, r, hr, rfl⟩

theorem traced_begin (past : List Deed) (b : Broker) (c : Chain) : Traced past (beginStory b c) := by
  refine ⟨trivial, traced_of_lawful (proceedStory_lawful (fun r hr => ?_) _ _)⟩
  exact (lookedUp_beginStory b c r hr).mono (List.subset_append_right ..)

theorem Sourced.begin {past : List Deed} {b : Broker} (h : Sourced past b) (c : Chain) :
    Sourced (past ++ beginStory b c) (b.begin c) := by
  have hsub : [Deed.began b c] ⊆ past ++ beginStory b c := by simp [beginStory]
  refine Sourced.proceed (b := b.record (.began c)) ?_ (fun r hr => ?_) _
  · exact h.mono (List.subset_append_left ..) fun s hs => hs
  · exact (lookedUp_beginStory b c r hr).mono hsub

theorem traced_wake {past : List Deed} {b : Broker} {s : Suspended}
    (hs : ∀ r ∈ s.rest, LookedUp past s.chain r.hook) : Traced past (wakeStory b s) := by
  refine ⟨trivial, traced_of_lawful ?_⟩
  split
  · refine proceedStory_lawful (fun r hr => ?_) _ _
    exact (hs r hr).mono (List.subset_append_left ..)
  · exact List.forall_mem_nil _

theorem Sourced.wake {past : List Deed} {b : Broker} (h : Sourced past b) {s : Suspended}
    (hs : ∀ r ∈ s.rest, LookedUp past s.chain r.hook) : Sourced past (b.wake s) := by
  have he : Effect (some s.chain) (· = s.turn) b (b.standing s.chain s.turn).2 :=
    Effect.standing (by rfl) b
  rw [wake_eq_conclude]
  cases hst : b.standing s.chain s.turn with
  | mk st b' =>
    rw [hst] at he
    have hb' : Sourced past b' := by
      intro s' hs'
      exact h s' (he.suspended ▸ hs')
    cases st with
    | pending =>
      intro s' hs'
      rcases List.mem_append.1 hs' with hs' | hs'
      · exact hb' s' hs'
      · obtain rfl := List.mem_singleton.1 hs'
        exact hs
    | failed cause =>
      intro s' hs'
      rw [conclude, reportFailure, report_suspended] at hs'
      exact hb' s' hs'
    | passed q => exact hb'.proceed hs q

/-- What one move adds to the story is lawful, and leaves the suspended chains sourced. -/
theorem Sourced.move {past : List Deed} {b : Broker} (h : Sourced past b) (m : Move) :
    Traced past (moveStory b m) ∧ Sourced (past ++ moveStory b m) (b.move m) := by
  have hmoved := moved b m
  generalize moveStory b m = ds at hmoved ⊢
  generalize b.move m = b' at hmoved ⊢
  have hstays (hs : b'.suspended = b.suspended) : Sourced (past ++ ds) b' :=
    h.mono (List.subset_append_left ..) (by rw [hs]; exact List.Subset.refl _)
  cases hmoved with
  | @begins lane c rest =>
    have hrest : Sourced past { b with waiting := rest } := h
    exact ⟨traced_begin past _ c, hrest.begin c⟩
  | @wakes i s hs =>
    have hlooked := h s (List.mem_of_getElem? hs)
    have hother : Sourced past { b with suspended := b.suspended.eraseIdx i } :=
      h.mono (List.Subset.refl _) (List.eraseIdx_subset ..)
    refine ⟨traced_wake hlooked, ?_⟩
    exact (hother.wake hlooked).mono (List.subset_append_left ..) (List.Subset.refl _)
  | @works i s hs =>
    refine ⟨traced_of_lawful (codeStory_lawful past _ _ _), hstays ?_⟩
    exact (runSleeper_idles b s _).suspended
  | @performs site op =>
    have he : Effect none (fun _ => True) b (b.perform site op).2 := Effect.perform trivial b op
    exact ⟨⟨trivial, trivial⟩, hstays he.suspended⟩
  | quiet _ hsuspended => exact ⟨trivial, hstays hsuspended⟩

theorem Sourced.story {past : List Deed} {b : Broker} (h : Sourced past b) (ms : List Move) :
    Traced past (b.story ms) := by
  induction ms generalizing past b with
  | nil => exact trivial
  | cons m ms ih =>
    obtain ⟨htraced, hsourced⟩ := h.move m
    exact traced_append.2 ⟨htraced, ih hsourced⟩

/-- A hook that is invoked was looked up by its chain before, and its extension is enabled. -/
theorem invoked_lawful {b₀ b : Broker} (hb₀ : b₀.suspended = []) {ms : List Move} {before after : List Deed}
    {c : Chain} {h : Hook} {p : Packet} (hstory : b₀.story ms = before ++ .invoked b c h p :: after) :
    LookedUp before c h ∧ b.roster.isEnabled h.extension := by
  have hnone : Sourced [] b₀ := by simp [Sourced, hb₀]
  have htraced := hnone.story ms
  rw [hstory] at htraced
  exact (traced_append.1 htraced).2.1

end BrokerHooks.Broker
