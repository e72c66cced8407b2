import BrokerHooks.Proofs.Chain.Execution
import BrokerHooks.Proofs.Chain.Lookup
import BrokerHooks.Proofs.Roster.Placement

namespace BrokerHooks.Broker

open Relation Roster

theorem onRoster_ok {b : Broker} {f : Roster → Except RegistryError Roster}
    (h : (b.onRoster fun r => tryUpdate r (f r)).1 = .ok ()) :
    f b.roster = .ok (b.onRoster fun r => tryUpdate r (f r)).2.roster := by
  unfold onRoster at h ⊢
  simp only at h ⊢
  cases hr : f b.roster with
  | error e =>
    rw [hr] at h
    cases h
  | ok r' => rfl

namespace Deed

inductive Registers (id : String) : Deed → Prop where
  | intro {b : Broker} {s : Site} {priority : Int}
      (hok : (b.perform s (.register id priority)).1 = .ok ()) :
      Registers id (.did b s (.register id priority))

inductive Enables (id : String) : Deed → Prop where
  | intro {b : Broker} {s : Site} (hok : (b.perform s (.enable id)).1 = .ok ()) :
      Enables id (.did b s (.enable id))

/-- An extension was there before the deed, or a deed registered it; one that was there and was not
enabled became so by a deed. -/
def Extends (d : Deed) (r r' : Roster) : Prop :=
  ∀ e ∈ r'.extensions, d.Registers e.id ∨
    ∃ e₀ ∈ r.extensions, e₀.id = e.id ∧ (e₀.enabled = false → e.enabled → d.Enables e.id)

theorem extends_of_subset {d : Deed} {r r' : Roster} (h : r'.extensions ⊆ r.extensions) :
    d.Extends r r' := by
  intro e he
  refine .inr ⟨e, h he, rfl, fun hoff hon => ?_⟩
  rw [hoff] at hon
  cases hon

theorem extends_of_setEnabled {d : Deed} {r r' : Roster} {id : String} {enabled : Bool}
    (h : r.setEnabled id enabled = .ok r') (hd : enabled → d.Enables id) : d.Extends r r' := by
  obtain ⟨-, rfl⟩ := setEnabled_eq h
  intro e he
  obtain ⟨e₀, he₀, rfl⟩ := List.mem_map.1 he
  refine .inr ⟨e₀, he₀, ?_⟩
  by_cases hid : e₀.id = id
  · simp only [hid, if_true, true_and]
    exact fun _ => hd
  · simp only [hid, if_false, true_and]
    intro hoff hon
    rw [hoff] at hon
    cases hon

theorem extends_refl (d : Deed) (r : Roster) : d.Extends r r := extends_of_subset (List.Subset.refl _)

theorem extends_tryUpdate {d : Deed} {b : Broker} (f : Roster → Except RegistryError Roster)
    (h : ∀ r', f b.roster = .ok r' → d.Extends b.roster r') :
    d.Extends b.roster (b.onRoster fun r => tryUpdate r (f r)).2.roster := by
  unfold onRoster
  simp only
  cases hr : f b.roster with
  | error e => exact extends_refl d _
  | ok r' => exact h r' hr

theorem close_extensions (r : Roster) (c : Nat) (reason : Option ReasonCode) :
    (r.close c reason).2.extensions = r.extensions := by
  unfold close
  split <;> rfl

theorem extends_perform (b : Broker) (s : Site) (op : Op) :
    (Deed.did b s op).Extends b.roster (b.perform s op).2.roster := by
  have hstill {r : Roster} (h : r.extensions = b.roster.extensions) :
      (Deed.did b s op).Extends b.roster r := extends_of_subset (by rw [h]; exact List.Subset.refl _)
  -- Only a registration and an enabling bring an extension in. All else keeps the extensions or takes some away.
  cases op with
  | register id priority =>
    apply extends_tryUpdate
    intro r' hr
    have hok : (b.perform s (.register id priority)).1 = .ok () := by
      simp [perform, onRoster, tryUpdate, hr]
    unfold register at hr
    split at hr <;> cases hr
    intro e he
    rcases List.mem_append.1 he with he | he
    · exact extends_refl _ _ e he
    · obtain rfl := List.mem_singleton.1 he
      exact .inl (.intro hok)
  | remove id =>
    apply extends_tryUpdate
    intro r' hr
    obtain ⟨-, rfl⟩ := remove_eq hr
    intro e he
    exact extends_refl _ _ e (List.mem_filter.1 he).1
  | enable id =>
    apply extends_tryUpdate
    intro r' hr
    have hok : (b.perform s (.enable id)).1 = .ok () := by
      simp [perform, onRoster, tryUpdate, hr]
    exact extends_of_setEnabled hr fun _ => .intro hok
  | disable id =>
    apply extends_tryUpdate
    intro r' hr
    obtain ⟨r₁, hset, rfl⟩ := disable_eq hr
    have hextends : (Deed.did b s (.disable id)).Extends b.roster r₁ :=
      extends_of_setEnabled hset fun hon => absurd hon Bool.false_ne_true
    exact hextends
  | call | defer | resume | prevent | view => exact hstill (by unfold perform; rw [onTurn_roster])
  | close reason => exact hstill (close_extensions ..)
  | resolve topic number =>
    apply hstill
    unfold perform onRoster resolve
    simp only
    split <;> rfl
  | isEnabled | note => exact hstill rfl
  | check => exact hstill (by unfold perform; rw [check_roster])
  | isConnected clientId =>
    apply hstill
    exact admitted_preserves (P := fun r => r.extensions = b.roster.extensions) rfl _ fun b hb => hb
  | disconnectClient clientId reason =>
    apply hstill
    unfold perform disconnectClient
    simp only
    split
    · rfl
    · refine admitted_preserves (P := fun r => r.extensions = b.roster.extensions) rfl _ fun b hb => ?_
      split
      · exact hb
      · exact (close_extensions ..).trans hb

theorem extends_after (d : Deed) : d.Extends d.before.roster d.after.roster := by
  cases d with
  | began | invoked => exact extends_refl _ _
  | did b s op => exact extends_perform b s op
  | looked b c turn =>
    unfold Deed.after
    rw [standing_roster]
    exact extends_refl _ _

end Deed

/-- Where the extensions come from that are there after a walk. -/
theorem Walk.extensions {b b' : Broker} {ds : List Deed} (h : Walk b ds b') :
    ∀ e ∈ b'.roster.extensions, (∃ d ∈ ds, d.Registers e.id) ∨
      ∃ e₀ ∈ b.roster.extensions, e₀.id = e.id ∧
        (e₀.enabled = false → e.enabled → ∃ d ∈ ds, d.Enables e.id) := by
  induction h with
  | drift h =>
    intro e he
    rw [h.extensions] at he
    refine .inr ⟨e, he, rfl, fun hoff hon => ?_⟩
    rw [hoff] at hon
    cases hon
  | @deed b b' d ds h _ ih =>
    intro e he
    rcases ih e he with ⟨x, hx, hregisters⟩ | ⟨e₁, he₁, hid₁, hturns⟩
    · exact .inl ⟨x, List.mem_cons_of_mem d hx, hregisters⟩
    rcases d.extends_after e₁ he₁ with hregisters | ⟨e₀, he₀, hid₀, henables⟩
    · exact .inl ⟨d, List.mem_cons_self .., hid₁ ▸ hregisters⟩
    refine .inr ⟨e₀, h.extensions ▸ he₀, hid₀.trans hid₁, fun hoff hon => ?_⟩
    -- It became enabled by this deed or by a later one.
    by_cases hon₁ : e₁.enabled
    · exact ⟨d, List.mem_cons_self .., hid₁ ▸ henables hoff hon₁⟩
    · obtain ⟨x, hx, hx'⟩ := hturns (by simpa using hon₁) hon
      exact ⟨x, List.mem_cons_of_mem d hx, hx'⟩

/-- The deed removes the hook's extension, or disables it while the hook is on a connection that can be
reached. -/
inductive Discards (h : Hook) : Deed → Prop where
  | removed {b : Broker} {s : Site} (hok : (b.perform s (.remove h.extension)).1 = .ok ())
      (hadded : h.number < b.roster.added) : Discards h (.did b s (.remove h.extension))
  | disabled {b : Broker} {s : Site} {k : Nat} (hok : (b.perform s (.disable h.extension)).1 = .ok ())
      (hon : h ∈ b.roster.hooksOn (.connection k)) (htracked : b.roster.isTracked k) :
      Discards h (.did b s (.disable h.extension))

def Deed.Misses (d : Deed) (h : Hook) (k : Nat) : Prop :=
  (∃ b s, d = .did b s (.remove h.extension)) ∧
    h ∈ d.before.roster.hooksOn (.connection k) ∧ ¬d.before.roster.isTracked k

/-- The deed `x` lets extensions of this name take part again after the deed `d`. -/
def Deed.Revives (x : Deed) (id : String) (d : Deed) : Prop :=
  x.Registers id ∨ (∃ b s, d = .did b s (.disable id)) ∧ x.Enables id

namespace Discards

variable {h : Hook} {d : Deed}

theorem number_lt (hd : Discards h d) (hn : Numbered d.before.roster) :
    h.number < d.before.roster.added := by
  cases hd with
  | removed hok hadded => exact hadded
  | disabled hok hon htracked => exact hn.below _ h hon

/-- Afterwards no extension of this name takes part. -/
theorem extensions (hd : Discards h d) : ∀ e ∈ d.after.roster.extensions, e.id = h.extension →
    e.enabled = false ∧ ∃ b s, d = .did b s (.disable h.extension) := by
  intro e he hid
  cases hd with
  | @removed b s hok hadded =>
    obtain ⟨-, hafter⟩ := remove_eq (onRoster_ok (f := (·.remove h.extension)) hok)
    have he : e ∈ (b.onRoster fun r => tryUpdate r (r.remove h.extension)).2.roster.extensions := he
    rw [hafter] at he
    exact absurd hid (by simpa using (List.mem_filter.1 he).2)
  | @disabled b s k hok hon htracked =>
    obtain ⟨r₁, hset, hafter⟩ := disable_eq (onRoster_ok (f := (·.disable h.extension)) hok)
    obtain ⟨-, rfl⟩ := setEnabled_eq hset
    have he : e ∈ (b.onRoster fun r => tryUpdate r (r.disable h.extension)).2.roster.extensions := he
    rw [hafter] at he
    obtain ⟨e₀, -, rfl⟩ := List.mem_map.1 he
    refine ⟨?_, b, s, rfl⟩
    by_cases hid₀ : e₀.id = h.extension
    · simp [hid₀]
    · simp [hid₀] at hid

/-- Afterwards the hook is left only where a removal did not reach it. -/
theorem misses (hd : Discards h d) (hn : Numbered d.before.roster) {place : Place}
    (hh : h ∈ d.after.roster.hooksOn place) : ∃ k, place = .connection k ∧ d.Misses h k := by
  cases hd with
  | @removed b s hok hadded =>
    have hr := onRoster_ok (f := (·.remove h.extension)) hok
    obtain ⟨hbefore, k, rfl, hmissed⟩ := hooksOn_remove hr hh rfl
    exact ⟨k, rfl, ⟨b, s, rfl⟩, hbefore, hmissed⟩
  | @disabled b s k hok hon htracked =>
    have hr := onRoster_ok (f := (·.disable h.extension)) hok
    -- No number is used twice, so the hook is nowhere but on the connection from which it was discarded.
    obtain rfl := hn.apart _ h hon _ h (hooksOn_disable_subset hr hh) rfl
    exact absurd rfl (hooksOn_disable hr hh htracked)

end Discards

theorem exists_extension {r : Roster} {id : String} (h : r.isEnabled id) :
    ∃ e ∈ r.extensions, e.id = id ∧ e.enabled := by
  unfold isEnabled at h
  cases hfound : r.extension? id with
  | none => simp [hfound] at h
  | some e =>
    refine ⟨e, List.mem_of_find?_eq_some hfound, ?_, by simpa [hfound] using h⟩
    simpa using List.find?_some hfound

theorem numbered_ofConfig (config : Config) (metered : Bool) :
    Numbered (ofConfig config metered).roster := numbered_of_empty rfl rfl

/-- If a hook is invoked after it was discarded, an extension of its name was brought back in between.
And the chain looked up its hooks before, or it runs on a connection which a removal could not reach. -/
theorem invoked_after_discard (config : Config) (metered : Bool) (moves : List Move)
    {before mid last : List Deed} {d : Deed} {b : Broker} {c : Chain} {h : Hook} {p : Packet}
    (hstory : (ofConfig config metered).story moves = before ++ d :: (mid ++ .invoked b c h p :: last))
    (hd : Discards h d) :
    (∃ x ∈ mid, x.Revives h.extension d) ∧ (LookedUp before c h ∨ d.Misses h c.connection) := by
  have hwalk := story_walk (ofConfig config metered) moves
  rw [hstory] at hwalk
  obtain ⟨hpast, hrest⟩ := hwalk.at_deed
  obtain ⟨hmid, -⟩ := hrest.at_deed
  have hn : Numbered d.before.roster := (numbered_ofConfig config metered).steps hpast.roster
  obtain ⟨hlooked, hon⟩ : LookedUp (before ++ d :: mid) c h ∧ b.roster.isEnabled h.extension :=
    invoked_lawful rfl (hstory.trans (List.append_assoc before (d :: mid) _).symm)
  constructor
  · obtain ⟨e, he, hid, henabled⟩ := exists_extension hon
    rw [← hid]
    rcases hmid.extensions e he with ⟨x, hx, hregisters⟩ | ⟨e₀, he₀, hid₀, hturns⟩
    · exact ⟨x, hx, .inl hregisters⟩
    · obtain ⟨hoff, hdisables⟩ := hd.extensions e₀ he₀ (hid₀.trans hid)
      obtain ⟨x, hx, henables⟩ := hturns hoff henabled
      exact ⟨x, hx, .inr ⟨hid ▸ hdisables, henables⟩⟩
  · obtain ⟨b', hb', r, hr, rfl⟩ := hlooked
    rcases List.mem_append.1 hb' with hb' | hb'
    · exact .inl ⟨b', hb', r, hr, rfl⟩
    rcases List.mem_cons.1 hb' with rfl | hb'
    · cases hd
    -- A hook that the chain finds later was there already, so it was left over.
    · right
      obtain ⟨mid₁, mid₂, rfl⟩ := List.append_of_mem hb'
      have hlater := shrinks_of_steps hmid.at_deed.1.roster
      have hlt := Nat.lt_of_lt_of_le (hd.number_lt hn) (shrinks_of_steps d.roster).added
      rcases mem_ordered hr with hh | hh
      · obtain ⟨k, hk, -⟩ := hd.misses hn (hlater.old _ _ hh hlt)
        cases hk
      · obtain ⟨k, hk, hmisses⟩ := hd.misses hn (hlater.old _ _ hh hlt)
        cases hk
        exact hmisses

/-- A hook that is next after the slow one, on a connection that can be reached. -/
def guest : Ranked where
  priority := 0
  hook := {
    extension := "guest"
    point := .pingreqInbound
    number := 1
    respond := fun _ _ => .done }

def outside : Site := { connection := 0, turn := 0 }

def guestMoves : List Move :=
  deferringMoves ++
    [.track 0, .perform outside (.register "guest" 0),
      .add (.connection 0) "guest" .pingreqInbound .ping guest.hook.respond,
      .submit 0 .pingreqInbound (.ping .request)]

def returning (off on : Op) : List Move :=
  (guestMoves ++ [.begin (0, .pingreqInbound)]) ++
    [.perform outside off, .perform outside on, .elapse 10, .wake 0]

def hosting : Broker := (ofConfig {} true).play guestMoves

theorem hosting_ordered : hosting.roster.ordered 0 .pingreqInbound = [slow, guest] := by
  have hhooks : (hosting.roster.hooksAt 0 .pingreqInbound).filterMap hosting.roster.rank? = [slow, guest] :=
    rfl
  unfold ordered
  rw [hhooks]
  exact List.mergeSort_of_pairwise (by simp [Ranked.precedes, slow, guest])

theorem hosting_begins : hosting.move (.begin (0, .pingreqInbound)) =
    proceed (deferredPingreq 0) [slow, guest] (.ping .request)
      ({ hosting with waiting := [] }.record (.began (deferredPingreq 0))) := by
  have hheads : Heads (deferredPingreq 0) hosting { hosting with waiting := [] } :=
    ⟨by simp [show hosting.suspended = [] from rfl], [], [], rfl, by simp, rfl⟩
  rw [← hosting_ordered]
  exact hheads.move

def InvokedAfter (op : Op) (h : Hook) (ds : List Deed) : Prop :=
  ∃ before b s mid b' c p last, ds = before ++ .did b s op :: (mid ++ .invoked b' c h p :: last) ∧
    Discards h (.did b s op)

theorem returning_story (off on : Op) : (ofConfig {} true).story (returning off on) =
    (ofConfig {} true).story (guestMoves ++ [.begin (0, .pingreqInbound)]) ++
      (hosting.move (.begin (0, .pingreqInbound))).story
        [.perform outside off, .perform outside on, .elapse 10, .wake 0] := by
  unfold returning
  rw [story_append, play_concat]
  rfl

theorem removed_guest_invoked : InvokedAfter (.remove "guest") guest.hook
    ((ofConfig {} true).story (returning (.remove "guest") (.register "guest" 0))) := by
  rw [returning_story, hosting_begins]
  exact ⟨_, _, outside, [.did _ outside (.register "guest" 0), .looked _ (deferredPingreq 0) 0], _,
    deferredPingreq 0, .ping .request, [.looked _ (deferredPingreq 0) 1], rfl, .removed rfl (by decide)⟩

theorem disabled_guest_invoked : InvokedAfter (.disable "guest") guest.hook
    ((ofConfig {} true).story (returning (.disable "guest") (.enable "guest"))) := by
  rw [returning_story, hosting_begins]
  exact ⟨_, _, outside, [.did _ outside (.enable "guest"), .looked _ (deferredPingreq 0) 0], _,
    deferredPingreq 0, .ping .request, [.looked _ (deferredPingreq 0) 1], rfl,
    .disabled (k := 0) rfl (List.mem_singleton_self _) rfl⟩

theorem removed_guest_revived : ∃ before d mid b c p last,
    (ofConfig {} true).story (returning (.remove "guest") (.register "guest" 0)) =
      before ++ d :: (mid ++ .invoked b c guest.hook p :: last) ∧
    Discards guest.hook d ∧ (∃ x ∈ mid, x.Revives "guest" d) ∧
    (LookedUp before c guest.hook ∨ d.Misses guest.hook c.connection) := by
  obtain ⟨before, b, s, mid, b', c, p, last, hstory, hd⟩ := removed_guest_invoked
  exact ⟨before, _, mid, b', c, p, last, hstory, hd, invoked_after_discard {} true _ hstory hd⟩

/-- A suspended chain invokes a hook that was removed, and one that was discarded with the disabling of its
extension, once an extension of that name takes part again. -/
theorem discarded_guest_invoked :
    InvokedAfter (.remove "guest") guest.hook
        ((ofConfig {} true).story (returning (.remove "guest") (.register "guest" 0))) ∧
      InvokedAfter (.disable "guest") guest.hook
        ((ofConfig {} true).story (returning (.disable "guest") (.enable "guest"))) :=
  ⟨removed_guest_invoked, disabled_guest_invoked⟩

end BrokerHooks.Broker
