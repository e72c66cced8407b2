import BrokerHooks.Proofs.Roster.History

namespace BrokerHooks

namespace Roster

variable {r : Roster}

def adds (r : Roster) : Request → Bool
  | .add place id point family respond => (r.add place id point family respond).isOk
  | _ => false

/-- How many additions of a history that begins with `r` are granted. -/
def additions (r : Roster) : List Request → Nat
  | [] => 0
  | q :: history => (r.adds q).toNat + (r.answer q).2.additions history

theorem answer_added (r : Roster) (q : Request) :
    (r.answer q).2.added = r.added + (r.adds q).toNat := by
  cases q with
  | openConnection | untrack | letGo | release => rfl
  | track c => simp only [answer, track]; split <;> rfl
  | close c reason => simp only [answer, close]; split <;> rfl
  | resolve c topic number => simp only [answer, resolve]; split <;> rfl
  | register id priority =>
    simp only [answer, register]
    split <;> rfl
  | remove id =>
    simp only [answer, remove]
    split <;> rfl
  | enable id =>
    simp only [answer, enable, setEnabled]
    split <;> rfl
  | disable id =>
    simp only [answer, disable, setEnabled]
    split <;> rfl
  | add place id point family respond =>
    unfold answer adds
    cases hadd : r.add place id point family respond with
    | error e => simp only [hadd]; rfl
    | ok r' =>
      obtain ⟨-, rfl⟩ := add_eq hadd
      simp only [hadd]
      exact install_added ..

theorem added_after (r : Roster) (history : List Request) :
    (r.after history).added = r.added + r.additions history := by
  induction history generalizing r with
  | nil => rfl
  | cons q history ih =>
    have hcons : r.after (q :: history) = (r.answer q).2.after history := rfl
    rw [hcons, ih, answer_added, additions]
    omega

def has (r : Roster) : Place → Bool
  | .shared => true
  | .connection c => (r.connection? c).isSome

theorem hooksOn_install (r : Roster) (hook : Hook) (place place' : Place) :
    (r.install hook place').hooksOn place =
      if place' = place ∧ r.has place then r.hooksOn place ++ [hook] else r.hooksOn place := by
  cases place' with
  | shared =>
    cases place with
    | shared => exact (if_pos ⟨rfl, rfl⟩).symm
    | connection k => exact (if_neg nofun).symm
  | connection c =>
    cases place with
    | shared => exact (if_neg nofun).symm
    | connection k =>
      unfold install hooksOn modifyConnection has connection?
      simp only [List.getElem?_modify, Place.connection.injEq]
      by_cases hk : c = k
      · cases r.connections[k]? <;> simp [hk]
      · simp [hk]

structure Places (r : Roster) (place : Place) (h : Hook) (q : Request) : Prop where
  request : q = .add place h.extension h.point h.family h.respond
  granted : r.Grants q
  there : r.has place
  number : h.number = r.added

/-- The request discards the hooks of an extension at a place. Disabling spares the shared ones, and
connections that are not tracked are not reached. -/
inductive Withdraws (r : Roster) (id : String) : Place → Request → Prop where
  | removed (hok : r.Grants (.remove id)) : Withdraws r id .shared (.remove id)
  | removedFrom {c : Nat} (hok : r.Grants (.remove id)) (htracked : r.isTracked c) :
      Withdraws r id (.connection c) (.remove id)
  | disabledOn {c : Nat} (hok : r.Grants (.disable id)) (htracked : r.isTracked c) :
      Withdraws r id (.connection c) (.disable id)

/-- A hook that does not read the packets of its point is refused. -/
theorem Places.family {place : Place} {h : Hook} {q : Request} (hp : r.Places place h q) :
    h.family = h.point.family := by
  obtain ⟨rfl, hgranted, -, -⟩ := hp
  rcases tryUpdate_cases (r := r) (r.add place h.extension h.point h.family h.respond) with
    ⟨r', hadd, -⟩ | ⟨hrefused, -⟩
  · exact (add_eq hadd).1.symm
  · exact absurd hgranted hrefused

/-- A request adds one hook at most. -/
theorem Places.unique {place : Place} {h h' : Hook} {q : Request} (hp : r.Places place h q)
    (hp' : r.Places place h' q) : h = h' := by
  have hnumbers : h.number = h'.number := hp.number.trans hp'.number.symm
  have hrequests := hp.request.symm.trans hp'.request
  cases h
  cases h'
  cases hrequests
  cases hnumbers
  rfl

theorem Places.not_withdraws {place : Place} {h : Hook} {q : Request} (hp : r.Places place h q)
    (id : String) : ¬r.Withdraws id place q := by
  intro hw
  cases hw <;> exact nomatch hp.request

theorem Withdraws.unique {id id' : String} {place : Place} {q : Request} (hw : r.Withdraws id place q)
    {r' : Roster} (hw' : r'.Withdraws id' place q) : id = id' := by
  cases hw <;> cases hw' <;> rfl

/-- What a request makes of the hooks at a place. -/
inductive Refits (r : Roster) (place : Place) (q : Request) : Prop where
  | kept (hhooks : (r.answer q).2.hooksOn place = r.hooksOn place)
      (hplaces : ∀ h, ¬r.Places place h q) (hwithdraws : ∀ id, ¬r.Withdraws id place q)
  | withdrawn (id : String) (hwithdraws : r.Withdraws id place q)
      (hhooks : (r.answer q).2.hooksOn place = (r.hooksOn place).filter (·.extension ≠ id))
  | placed (hook : Hook) (hplaces : r.Places place hook q)
      (hhooks : (r.answer q).2.hooksOn place = r.hooksOn place ++ [hook])

theorem Refits.of_refused {place : Place} {q : Request} (hrefused : ¬r.Grants q)
    (hsame : (r.answer q).2 = r) : Refits r place q := by
  refine .kept (by rw [hsame]) (fun h hp => hrefused hp.granted) fun id hw => ?_
  cases hw with
  | removed hok | removedFrom hok | disabledOn hok => exact hrefused hok

theorem refits_shared {id : String} {q : Request} (hq : q = .remove id ∨ q = .disable id)
    (hok : r.Grants q) : Refits r .shared q := by
  rcases hq with rfl | rfl
  · rcases tryUpdate_cases (r := r) (r.remove id) with ⟨r', hr, hanswer⟩ | ⟨hrefused, -⟩
    · obtain ⟨-, rfl⟩ := remove_eq hr
      exact .withdrawn id (.removed hok) (congrArg (·.2.hooksOn .shared) hanswer)
    · exact absurd hok hrefused
  · rcases tryUpdate_cases (r := r) (r.disable id) with ⟨r', hr, hanswer⟩ | ⟨hrefused, -⟩
    · obtain ⟨r₁, hset, rfl⟩ := disable_eq hr
      obtain ⟨-, rfl⟩ := setEnabled_eq hset
      exact .kept (congrArg (·.2.hooksOn .shared) hanswer) (fun h hp => nomatch hp.request) nofun
    · exact absurd hok hrefused

/-- Removing and disabling are alike on a connection. -/
theorem refits_connection {id : String} {q : Request} (hq : q = .remove id ∨ q = .disable id)
    (hok : r.Grants q) (c : Nat) : Refits r (.connection c) q := by
  have hhooks := hooksOn_discard hq hok c
  by_cases htracked : r.isTracked c
  · rw [if_pos htracked] at hhooks
    refine .withdrawn id ?_ hhooks
    rcases hq with rfl | rfl
    · exact .removedFrom hok htracked
    · exact .disabledOn hok htracked
  · rw [if_neg htracked] at hhooks
    refine .kept hhooks (fun h hp => ?_) fun id' hw => ?_
    · rcases hq with rfl | rfl <;> exact nomatch hp.request
    · cases hw <;> contradiction

theorem refits_discard {id : String} {q : Request} (hq : q = .remove id ∨ q = .disable id)
    (hrefused : ¬r.Grants q → (r.answer q).2 = r) (place : Place) : Refits r place q := by
  by_cases hok : r.Grants q
  · cases place with
    | shared => exact refits_shared hq hok
    | connection c => exact refits_connection hq hok c
  · exact .of_refused hok (hrefused hok)

theorem refits_add (r : Roster) (place place' : Place) (id : String) (point : Point) (family : Family)
    (respond : Nat → Input → Program) : Refits r place (.add place' id point family respond) := by
  rcases tryUpdate_cases (r := r) (r.add place' id point family respond) with
    ⟨r', hr, hanswer⟩ | ⟨hrefused, hsame⟩
  · have hok : r.Grants (.add place' id point family respond) := congrArg Prod.fst hanswer
    have hafter : (r.answer (.add place' id point family respond)).2 = r' := congrArg Prod.snd hanswer
    obtain ⟨-, rfl⟩ := add_eq hr
    let hook : Hook := { extension := id, point, number := r.added, family, respond }
    have hhooks : (r.answer (.add place' id point family respond)).2.hooksOn place = _ :=
      (congrArg (·.hooksOn place) hafter).trans (hooksOn_install _ hook place place')
    by_cases hplace : place' = place ∧ r.has place
    · obtain ⟨rfl, hthere⟩ := hplace
      exact .placed hook ⟨rfl, hok, hthere, rfl⟩ (hhooks.trans (if_pos ⟨rfl, hthere⟩))
    · refine .kept (hhooks.trans (if_neg hplace)) (fun h hp => ?_) (by rintro id' ⟨⟩)
      cases hp.request
      exact hplace ⟨rfl, hp.there⟩
  · exact .of_refused hrefused hsame

def Request.isOfHooks : Request → Bool
  | .add .. | .remove _ | .disable _ => true
  | _ => false

theorem hooksOn_answer (r : Roster) (q : Request) (h : q.isOfHooks = false) (place : Place) :
    (r.answer q).2.hooksOn place = r.hooksOn place := by
  cases q with
  | add | remove | disable => cases h
  | openConnection clientId version aliasMaximum => exact hooksOn_openConnection r _ _ _ place
  | track c =>
    simp only [answer, track]
    split <;> rfl
  | untrack clientId => rfl
  | close c reason =>
    simp only [answer, close]
    split
    · rfl
    · revert place
      exact hooksOn_of_modify rfl rfl fun _ => rfl
  | resolve c topic number =>
    simp only [answer, resolve]
    split <;> rfl
  | letGo c =>
    revert place
    exact hooksOn_of_modify rfl rfl fun _ => rfl
  | release c =>
    revert place
    exact hooksOn_of_modify rfl rfl fun _ => rfl
  | register id priority =>
    simp only [answer, register]
    split <;> rfl
  | enable id =>
    simp only [answer, enable, setEnabled]
    split <;> rfl

theorem refits (r : Roster) (place : Place) (q : Request) : Refits r place q := by
  cases q with
  | remove id => exact refits_discard (.inl rfl) tryUpdate_of_refused place
  | disable id => exact refits_discard (.inr rfl) tryUpdate_of_refused place
  | add place' id point family respond => exact refits_add ..
  | openConnection | track | untrack | close | resolve | letGo | release | register | enable =>
    exact .kept (hooksOn_answer r _ rfl place) (fun h hp => nomatch hp.request) nofun

theorem mem_hooksOn_answer (r : Roster) (place : Place) (h : Hook) (q : Request) :
    h ∈ (r.answer q).2.hooksOn place ↔
      r.Places place h q ∨ h ∈ r.hooksOn place ∧ ¬r.Withdraws h.extension place q := by
  cases r.refits place q with
  | kept hhooks hplaces hwithdraws => simp [hhooks, hplaces, hwithdraws]
  | withdrawn id hwithdraws hhooks =>
    have hnone : ¬r.Places place h q := fun hp => hp.not_withdraws id hwithdraws
    have hid : r.Withdraws h.extension place q ↔ h.extension = id :=
      ⟨fun hw => hw.unique hwithdraws, fun heq => heq ▸ hwithdraws⟩
    simp [hhooks, hnone, hid]
  | placed hook hplaces hhooks =>
    have hnone := hplaces.not_withdraws h.extension
    rw [hhooks, List.mem_append, List.mem_singleton]
    constructor
    · rintro (hh | rfl)
      · exact .inr ⟨hh, hnone⟩
      · exact .inl hplaces
    · rintro (hp | ⟨hh, -⟩)
      · exact .inr (hp.unique hplaces)
      · exact .inl hh

theorem numbered_after {r : Roster} (hr : Numbered r) (history : List Request) :
    Numbered (r.after history) := hr.steps (after_steps r history)

/-- At each place hooks stand in the order in which they were added. -/
def InOrder (r : Roster) : Prop := ∀ place, (r.hooksOn place).Pairwise (·.number < ·.number)

theorem InOrder.answer (hr : Numbered r) (h : InOrder r) (q : Request) : InOrder (r.answer q).2 := by
  intro place
  cases r.refits place q with
  | kept hhooks => exact hhooks ▸ h place
  | withdrawn id _ hhooks => exact hhooks ▸ (h place).filter _
  | placed hook hplaces hhooks =>
    rw [hhooks, List.pairwise_append]
    refine ⟨h place, List.pairwise_singleton .., fun old hold new hnew => ?_⟩
    rw [List.mem_singleton.1 hnew, hplaces.number]
    exact hr.below place old hold

theorem InOrder.after (hr : Numbered r) (h : InOrder r) (history : List Request) :
    InOrder (r.after history) := by
  induction history using List.reverseRecOn with
  | nil => exact h
  | append_singleton history q ih =>
    rw [after_concat]
    exact ih.answer (numbered_after hr history) q

theorem inOrder_empty (aliases : Alias.Ledger Nat) : InOrder { aliases } := by
  intro place
  cases place <;> simp [hooksOn, connection?]

/-- No two hooks that serve a connection have one number. -/
theorem hooksAt_numbers (hr : Numbered r) (h : InOrder r) (c : Nat) (point : Point) :
    (r.hooksAt c point).Pairwise (·.number ≠ ·.number) := by
  refine List.Pairwise.filter _ (List.pairwise_append.2 ⟨?_, ?_, ?_⟩)
  · exact (h .shared).imp Nat.ne_of_lt
  · exact (h (.connection c)).imp Nat.ne_of_lt
  · intro a ha b hb heq
    exact nomatch hr.apart .shared a ha (.connection c) b hb heq

def priority? (r : Roster) (id : String) : Option Int := (r.extension? id).map (·.priority)

theorem priority?_of_extensions {r r' : Roster} (h : r'.extensions = r.extensions) (id : String) :
    r'.priority? id = r.priority? id := by
  unfold priority? extension?
  rw [h]

theorem priority?_setEnabled {r r' : Roster} {id : String} {enabled : Bool}
    (h : r.setEnabled id enabled = .ok r') (id' : String) : r'.priority? id' = r.priority? id' := by
  obtain ⟨-, rfl⟩ := setEnabled_eq h
  unfold priority? extension?
  induction r.extensions with
  | nil => rfl
  | cons e es ih =>
    have hid : (if e.id = id then { e with enabled } else e).id = e.id := by split <;> rfl
    have hpriority : (if e.id = id then { e with enabled } else e).priority = e.priority := by
      split <;> rfl
    simp only [List.map_cons, List.find?_cons, hid]
    split
    · simp [hpriority]
    · exact ih

theorem priority?_register {r' : Roster} {id : String} {priority : Int}
    (h : r.register id priority = .ok r') (id' : String) :
    r'.priority? id' = if id' = id then some priority else r.priority? id' := by
  unfold register at h
  split at h
  · cases h
  rename_i hnew
  cases h
  unfold isRegistered extension? at hnew
  unfold priority? extension?
  rw [List.find?_append]
  by_cases hid : id' = id
  · subst hid
    have hnone : r.extensions.find? (·.id = id') = none := by simpa using hnew
    simp [hnone]
  · have hid' : id ≠ id' := fun heq => hid heq.symm
    simp [hid, hid']

theorem priority?_remove {r' : Roster} {id : String} (h : r.remove id = .ok r') (id' : String) :
    r'.priority? id' = if id' = id then none else r.priority? id' := by
  obtain ⟨-, rfl⟩ := remove_eq h
  unfold priority? extension?
  have hfilter : (r.extensions.filter (·.id ≠ id)).find? (·.id = id') =
      if id' = id then none else r.extensions.find? (·.id = id') := by
    rw [List.find?_filter]
    split
    · rename_i hid
      subst hid
      simp
    · rename_i hid
      congr 1
      funext e
      by_cases he : e.id = id' <;> simp [he, hid]
  change ((r.extensions.filter (·.id ≠ id)).find? (·.id = id')).map (·.priority) = _
  rw [hfilter]
  split <;> rfl

def Request.isOfRegistrations : Request → Bool
  | .register .. | .remove _ => true
  | _ => false

theorem priority?_of_other (r : Roster) (q : Request) (h : q.isOfRegistrations = false) (id : String) :
    (r.answer q).2.priority? id = r.priority? id := by
  cases q with
  | register | remove => cases h
  | openConnection | untrack | letGo | release => rfl
  | track c =>
    simp only [answer, track]
    split <;> rfl
  | close c reason =>
    simp only [answer, close]
    split <;> rfl
  | resolve c topic number =>
    simp only [answer, resolve]
    split <;> rfl
  | enable id' =>
    rcases tryUpdate_cases (r := r) (r.enable id') with ⟨r', hr, hanswer⟩ | ⟨-, hsame⟩
    · exact (congrArg (·.2.priority? id) hanswer).trans (priority?_setEnabled hr id)
    · exact congrArg (·.priority? id) hsame
  | disable id' =>
    rcases tryUpdate_cases (r := r) (r.disable id') with ⟨r', hr, hanswer⟩ | ⟨-, hsame⟩
    · obtain ⟨r₁, hset, rfl⟩ := disable_eq hr
      exact (congrArg (·.2.priority? id) hanswer).trans (priority?_setEnabled hset id)
    · exact congrArg (·.priority? id) hsame
  | add place id' point family respond =>
    rcases tryUpdate_cases (r := r) (r.add place id' point family respond) with
      ⟨r', hr, hanswer⟩ | ⟨-, hsame⟩
    · obtain ⟨-, rfl⟩ := add_eq hr
      refine (congrArg (·.2.priority? id) hanswer).trans (priority?_of_extensions ?_ id)
      cases place <;> rfl
    · exact congrArg (·.priority? id) hsame

theorem priority?_answer (r : Roster) (id : String) (priority : Int) (q : Request) :
    (r.answer q).2.priority? id = some priority ↔
      (q = .register id priority ∧ r.Grants q) ∨
        r.priority? id = some priority ∧ ¬(q = .remove id ∧ r.Grants q) := by
  cases q with
  | openConnection | track | untrack | close | resolve | letGo | release | enable | disable | add =>
    rw [priority?_of_other r _ rfl id]
    simp
  | register id' priority' =>
    rcases tryUpdate_cases (r := r) (r.register id' priority') with ⟨r', hr, hanswer⟩ | ⟨hrefused, hsame⟩
    · have hok : r.Grants (.register id' priority') := congrArg Prod.fst hanswer
      have hnew : r.priority? id' = none := by
        unfold register at hr
        split at hr
        · cases hr
        · rename_i hnew
          unfold isRegistered at hnew
          unfold priority?
          simpa using hnew
      have hafter : (r.answer (.register id' priority')).2.priority? id = _ :=
        (congrArg (·.2.priority? id) hanswer).trans (priority?_register hr id)
      rw [hafter]
      by_cases hid : id = id'
      · subst hid
        simp [hnew, hok, eq_comm]
      · have hid' : id' ≠ id := fun heq => hid heq.symm
        simp [hid, hid']
    · have hrefused : ¬r.Grants (.register id' priority') := hrefused
      have hsame : (r.answer (.register id' priority')).2 = r := hsame
      simp [hsame, hrefused]
  | remove id' =>
    rcases tryUpdate_cases (r := r) (r.remove id') with ⟨r', hr, hanswer⟩ | ⟨hrefused, hsame⟩
    · have hok : r.Grants (.remove id') := congrArg Prod.fst hanswer
      have hafter : (r.answer (.remove id')).2.priority? id = _ :=
        (congrArg (·.2.priority? id) hanswer).trans (priority?_remove hr id)
      rw [hafter]
      by_cases hid : id = id'
      · simp [hid, hok]
      · have hid' : id' ≠ id := fun heq => hid heq.symm
        simp [hid, hid']
    · have hrefused : ¬r.Grants (.remove id') := hrefused
      have hsame : (r.answer (.remove id')).2 = r := hsame
      simp [hsame, hrefused]

/-- The hook was added at a place, as the addition with its number, and it has not been discarded since. -/
def Installed (r : Roster) (place : Place) (h : Hook) (history : List Request) : Prop :=
  Since (fun before q => (r.after before).Places place h q ∧ h.number = r.additions before)
    (fun before q => (r.after before).Withdraws h.extension place q) history

/-- The extension was registered with a priority, and it has not been removed since. -/
def Registered (r : Roster) (id : String) (priority : Int) (history : List Request) : Prop :=
  Since (fun before q => q = .register id priority ∧ (r.after before).Grants q)
    (fun before q => q = .remove id ∧ (r.after before).Grants q) history

variable (aliases : Alias.Ledger Nat)

theorem added_of_empty (history : List Request) :
    (({ aliases } : Roster).after history).added = ({ aliases } : Roster).additions history := by
  rw [added_after]
  exact Nat.zero_add _

theorem registered_iff (id : String) (priority : Int) (history : List Request) :
    Registered { aliases } id priority history ↔
      (({ aliases } : Roster).after history).priority? id = some priority := by
  refine Since.iff_of_steps
    (S := fun history => (({ aliases } : Roster).after history).priority? id = some priority)
    nofun (fun history q => ?_) history
  rw [after_concat]
  exact priority?_answer ..

theorem Installed.family {r : Roster} {place : Place} {h : Hook} {history : List Request}
    (hi : Installed r place h history) : h.family = h.point.family := by
  induction hi with
  | now hdoes => exact hdoes.1.family
  | still _ _ ih => exact ih

theorem installed_iff (place : Place) (h : Hook) (history : List Request) :
    Installed { aliases } place h history ↔
      h ∈ (({ aliases } : Roster).after history).hooksOn place := by
  refine Since.iff_of_steps (S := fun history => h ∈ (({ aliases } : Roster).after history).hooksOn place)
    ?_ (fun history q => ?_) history
  · cases place <;> simp [hooksOn, connection?]
  · rw [after_concat, mem_hooksOn_answer]
    refine or_congr_left ⟨fun hp => ⟨hp, ?_⟩, And.left⟩
    exact hp.number.trans (added_of_empty aliases history)

end Roster

/-- The hook takes its turn before the other: its extension has the higher priority, or the same and it
was added earlier. -/
def Ranked.Before (a b : Ranked) : Prop :=
  b.priority < a.priority ∨ a.priority = b.priority ∧ a.hook.number < b.hook.number

namespace Roster

theorem precedes_trans (a b c : Ranked) (hab : a.precedes b) (hbc : b.precedes c) : a.precedes c := by
  simp only [Ranked.precedes, Bool.or_eq_true, Bool.and_eq_true, decide_eq_true_eq] at *
  omega

theorem precedes_total (a b : Ranked) : a.precedes b || b.precedes a := by
  simp only [Ranked.precedes, Bool.or_eq_true, Bool.and_eq_true, decide_eq_true_eq]
  omega

theorem Ranked.before_of_precedes {a b : Ranked} (h : a.precedes b) (hne : a.hook.number ≠ b.hook.number) :
    a.Before b := by
  simp only [Ranked.precedes, Bool.or_eq_true, Bool.and_eq_true, decide_eq_true_eq] at h
  unfold Ranked.Before
  omega

theorem mem_ordered_iff {r : Roster} {c : Nat} {point : Point} {x : Ranked} :
    x ∈ r.ordered c point ↔ x.hook.point = point ∧ r.priority? x.hook.extension = some x.priority ∧
      x.hook.family = x.hook.point.family ∧
        (x.hook ∈ r.hooksOn .shared ∨ x.hook ∈ r.hooksOn (.connection c)) := by
  have hat (h : Hook) : h ∈ r.hooksAt c point ↔
      (h ∈ r.hooksOn .shared ∨ h ∈ r.hooksOn (.connection c)) ∧ h.point = point := by
    simp [hooksAt, hooksOn, or_and_right]
  unfold ordered
  rw [List.mem_mergeSort, List.mem_filterMap]
  constructor
  · rintro ⟨h, hh, hx⟩
    obtain ⟨rfl, hpriority, hfamily⟩ := rank?_eq_some_iff.1 hx
    obtain ⟨hon, hpoint⟩ := (hat _).1 hh
    exact ⟨hpoint, hpriority, hfamily, hon⟩
  · rintro ⟨hpoint, hpriority, hfamily, hon⟩
    exact ⟨x.hook, (hat _).2 ⟨hon, hpoint⟩, rank?_eq_some_iff.2 ⟨rfl, hpriority, hfamily⟩⟩

theorem ordered_before {r : Roster} (hr : Numbered r) (h : InOrder r) (c : Nat) (point : Point) :
    (r.ordered c point).Pairwise Ranked.Before := by
  have hnumbers : ((r.hooksAt c point).filterMap r.rank?).Pairwise (·.hook.number ≠ ·.hook.number) := by
    refine (hooksAt_numbers hr h c point).filterMap _ ?_
    intro a a' hne b hb b' hb'
    obtain ⟨rfl, -, -⟩ := rank?_eq_some_iff.1 hb
    obtain ⟨rfl, -, -⟩ := rank?_eq_some_iff.1 hb'
    exact hne
  have hordered : (r.ordered c point).Pairwise (·.hook.number ≠ ·.hook.number) :=
    ((List.mergeSort_perm ..).pairwise_iff fun hne => hne.symm).2 hnumbers
  have hsorted : (r.ordered c point).Pairwise (·.precedes ·) :=
    List.pairwise_mergeSort precedes_trans precedes_total _
  exact (hsorted.and hordered).imp fun ⟨hle, hne⟩ => Ranked.before_of_precedes hle hne

/-- A chain runs through exactly those hooks of its point, shared or on its connection, that were added and
have not been discarded since and whose extension is registered: each once, by the priority its extension has
now, and hooks of one priority in the order of their additions. Additions are numbered one by one, refused
ones not. None is left out for the packets it reads, since all that were added read those of their point. -/
theorem ordered_exactly (aliases : Alias.Ledger Nat) (history : List Request) (c : Nat) (point : Point) :
    ((({ aliases } : Roster).after history).ordered c point).Pairwise Ranked.Before ∧
      (∀ x, x ∈ (({ aliases } : Roster).after history).ordered c point ↔
        x.hook.point = point ∧ Registered { aliases } x.hook.extension x.priority history ∧
          (Installed { aliases } .shared x.hook history ∨
            Installed { aliases } (.connection c) x.hook history)) ∧
      ∀ place h, Installed { aliases } place h history → h.family = h.point.family := by
  have hr : Numbered ({ aliases } : Roster) := numbered_of_empty rfl rfl
  have hfamily (place : Place) (h : Hook)
      (hon : h ∈ (({ aliases } : Roster).after history).hooksOn place) : h.family = h.point.family :=
    ((installed_iff aliases place h history).2 hon).family
  refine ⟨?_, fun x => ?_, fun place h hi => hi.family⟩
  · exact ordered_before (numbered_after hr history) ((inOrder_empty aliases).after hr history) c point
  · rw [mem_ordered_iff, registered_iff, installed_iff, installed_iff]
    refine and_congr_right fun _ => and_congr_right fun _ => and_iff_right_of_imp ?_
    rintro (hon | hon)
    · exact hfamily _ _ hon
    · exact hfamily _ _ hon

end Roster
end BrokerHooks
