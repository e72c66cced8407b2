import BrokerHooks.Packet.Limits
import BrokerHooks.Proofs.Draft.Revision
import BrokerHooks.Proofs.Text.Cut
import Mathlib.Data.List.Basic

namespace BrokerHooks.TopicFilter

/-- What stands before a level: nothing, or a text that ends in a slash. -/
def StartsLevel (before : List Char) : Prop := before = [] ∨ before.getLast? = some '/'

/-- What stands behind a level: nothing, or a text that begins with a slash. -/
def EndsLevel (after : List Char) : Prop := after = [] ∨ after.head? = some '/'

/-- Every wildcard of the filter is a level of its own, and `#` is the last one. -/
structure WildcardsInPlace (f : List Char) : Prop where
  multiLevel : ∀ before after, f = before ++ '#' :: after → after = [] ∧ StartsLevel before
  singleLevel : ∀ before after, f = before ++ '+' :: after → StartsLevel before ∧ EndsLevel after

/-- The name of a group is a level without wildcards. -/
structure IsGroup (g : List Char) : Prop where
  ne_nil : g ≠ []
  chars : ∀ c ∈ g, c ≠ '/' ∧ c ≠ '+' ∧ c ≠ '#'

/-- The topics of `s` are chosen by `f`: by itself, or by what follows the group if it is shared. -/
inductive ChoosesBy : String → String → Prop
  | plain {s : String} (h : ¬"$share/".toList <+: s.toList) : ChoosesBy s s
  | shared {group f : String} (hgroup : IsGroup group.toList) (hf : f ≠ "") :
      ChoosesBy ("$share/" ++ group ++ "/" ++ f) f

/-- `s` is a topic filter whose topics are chosen by `f`. -/
structure Grammatical (s f : String) : Prop where
  nonempty : s ≠ ""
  chooses : ChoosesBy s f
  inPlace : WildcardsInPlace f.toList

theorem ite_some_eq_none {α : Type} {c : Prop} [Decidable c] {x : α} {y : Option α} :
    (if c then some x else y) = none ↔ ¬c ∧ y = none := by
  split <;> simp [*]

section Levels

variable {a b before after : List Char} {c : Char}

theorem levels_eq_splitOn (f : List Char) : levels f = f.splitOn '/' := by
  induction f with
  | nil => rfl
  | cons c f ih =>
    rw [levels, List.splitOn_cons_eq_if_modifyHead, ih]
    by_cases hc : c = '/'
    · simp [hc]
    · cases h : f.splitOn '/' with
      | nil => exact absurd h (List.splitOn_ne_nil '/' f)
      | cons level more => simp [hc]

theorem levels_of_not_mem (h : '/' ∉ a) : levels a = [a] := by
  rw [levels_eq_splitOn, List.splitOn_eq_singleton h]

theorem levels_append (h : '/' ∉ a) (b : List Char) : levels (a ++ '/' :: b) = a :: levels b := by
  rw [levels_eq_splitOn, List.splitOn_append_cons_self_of_not_mem h, levels_eq_splitOn]

/-- Whatever holds of a single level, and of a text that has one more in front, holds of every text. -/
theorem levels_induction {P : List Char → Prop} (single : ∀ a, '/' ∉ a → P a)
    (more : ∀ a b, '/' ∉ a → P b → P (a ++ '/' :: b)) (f : List Char) : P f := by
  induction hn : f.length using Nat.strong_induction_on generalizing f with
  | _ n ih =>
    by_cases hslash : '/' ∈ f
    · obtain ⟨a, b, rfl, ha⟩ := List.eq_append_cons_of_mem hslash
      exact more a b ha (ih b.length (by simp at hn; omega) b rfl)
    · exact single f hslash

/-- A character other than the slash stands in the first level or behind it. -/
theorem append_slash_eq (hc : c ≠ '/') (h : a ++ '/' :: b = before ++ c :: after) :
    (∃ a', a = before ++ c :: a' ∧ after = a' ++ '/' :: b) ∨
      ∃ b', before = a ++ '/' :: b' ∧ b = b' ++ c :: after := by
  rcases List.append_eq_append_iff.1 h with ⟨as, rfl, heq⟩ | ⟨bs, rfl, heq⟩
  · cases as with
    | nil => exact absurd (List.cons.inj heq).1.symm hc
    | cons x b' =>
      obtain ⟨rfl, rfl⟩ := List.cons.inj heq
      exact .inr ⟨b', rfl, rfl⟩
  · cases bs with
    | nil => exact absurd (List.cons.inj heq).1 hc
    | cons x a' =>
      obtain ⟨rfl, rfl⟩ := List.cons.inj heq
      exact .inl ⟨a', rfl, rfl⟩

theorem startsLevel_iff_of_not_mem (h : '/' ∉ before) : StartsLevel before ↔ before = [] :=
  or_iff_left fun hlast => h (List.mem_of_getLast? hlast)

theorem startsLevel_append : StartsLevel (a ++ '/' :: before) ↔ StartsLevel before := by
  cases before with
  | nil => simp [StartsLevel]
  | cons c before => simp [StartsLevel, List.getLast?_append]

theorem endsLevel_iff_of_not_mem (h : '/' ∉ after) : EndsLevel after ↔ after = [] :=
  or_iff_left fun hhead => h (List.mem_of_head? hhead)

theorem endsLevel_append (h : '/' ∉ after) : EndsLevel (after ++ '/' :: b) ↔ after = [] := by
  cases after with
  | nil => simp [EndsLevel]
  | cons c after =>
    have hc : c ≠ '/' := fun hc => h (hc ▸ List.mem_cons_self)
    simp [EndsLevel, hc]

theorem not_mem_around (heq : a = before ++ c :: after) (ha : '/' ∉ a) : '/' ∉ before ∧ '/' ∉ after := by
  rw [heq, List.mem_append, List.mem_cons, not_or, not_or] at ha
  exact ⟨ha.1, ha.2.2⟩

/-- Nothing stands around any occurrence of `c` if a text that holds it holds nothing else. -/
theorem alone_iff : (∀ before after, a = before ++ c :: after → before = [] ∧ after = []) ↔ (c ∈ a → a = [c]) := by
  constructor
  · intro h hc
    obtain ⟨before, after, rfl⟩ := List.append_of_mem hc
    obtain ⟨rfl, rfl⟩ := h before after rfl
    rfl
  · rintro h before after rfl
    simpa [List.append_eq_singleton_iff] using h (List.mem_append_right before List.mem_cons_self)

namespace WildcardsInPlace

/-- In a single level a wildcard is in place if it is all there is. -/
theorem iff_of_not_mem (ha : '/' ∉ a) :
    WildcardsInPlace a ↔ ('#' ∈ a → a = ['#']) ∧ ('+' ∈ a → a = ['+']) := by
  rw [← alone_iff, ← alone_iff]
  constructor
  · intro h
    refine ⟨fun before after heq => ?_, fun before after heq => ?_⟩
    · obtain ⟨rfl, hstarts⟩ := h.multiLevel before after heq
      exact ⟨(startsLevel_iff_of_not_mem (not_mem_around heq ha).1).1 hstarts, rfl⟩
    · obtain ⟨hstarts, hends⟩ := h.singleLevel before after heq
      obtain ⟨hbefore, hafter⟩ := not_mem_around heq ha
      exact ⟨(startsLevel_iff_of_not_mem hbefore).1 hstarts, (endsLevel_iff_of_not_mem hafter).1 hends⟩
  · rintro ⟨hmulti, hsingle⟩
    refine ⟨fun before after heq => ?_, fun before after heq => ?_⟩
    · obtain ⟨rfl, rfl⟩ := hmulti before after heq
      exact ⟨rfl, .inl rfl⟩
    · obtain ⟨rfl, rfl⟩ := hsingle before after heq
      exact ⟨.inl rfl, .inl rfl⟩

/-- A level with others behind it is no `#`, and one in front is nothing to a wildcard in the others. -/
theorem append_iff (ha : '/' ∉ a) :
    WildcardsInPlace (a ++ '/' :: b) ↔ '#' ∉ a ∧ ('+' ∈ a → a = ['+']) ∧ WildcardsInPlace b := by
  constructor
  · -- each occurrence in a part is one in the whole, with more around it
    intro h
    refine ⟨fun hmem => ?_, alone_iff.1 fun before after heq => ?_,
      fun before after heq => ?_, fun before after heq => ?_⟩
    · obtain ⟨before, after, rfl⟩ := List.append_of_mem hmem
      simpa using (h.multiLevel before (after ++ '/' :: b) (by simp)).1
    · have hplace := h.singleLevel before (after ++ '/' :: b) (by simp [heq])
      obtain ⟨hbefore, hafter⟩ := not_mem_around heq ha
      rwa [startsLevel_iff_of_not_mem hbefore, endsLevel_append hafter] at hplace
    · have hplace := h.multiLevel (a ++ '/' :: before) after (by simp [heq])
      rwa [startsLevel_append] at hplace
    · have hplace := h.singleLevel (a ++ '/' :: before) after (by simp [heq])
      rwa [startsLevel_append] at hplace
  · rintro ⟨hmulti, hsingle, hb⟩
    refine ⟨fun before after heq => ?_, fun before after heq => ?_⟩
    · rcases append_slash_eq (by decide) heq with ⟨a', rfl, -⟩ | ⟨b', rfl, hb'⟩
      · exact absurd (List.mem_append_right before List.mem_cons_self) hmulti
      · rw [startsLevel_append]
        exact hb.multiLevel b' after hb'
    · rcases append_slash_eq (by decide) heq with ⟨a', ha', rfl⟩ | ⟨b', rfl, hb'⟩
      · obtain ⟨rfl, rfl⟩ := alone_iff.2 hsingle before a' ha'
        exact ⟨.inl rfl, .inr rfl⟩
      · rw [startsLevel_append]
        exact hb.singleLevel b' after hb'

end WildcardsInPlace

/-- The levels are judged faultless exactly where each wildcard is in place. -/
theorem levelsFault?_eq_none_iff (f : List Char) : levelsFault? (levels f) = none ↔ WildcardsInPlace f := by
  induction f using levels_induction with
  | single a ha =>
    rw [levels_of_not_mem ha, WildcardsInPlace.iff_of_not_mem ha]
    simp [levelsFault?, ite_some_eq_none]
  | more a b ha ih =>
    rw [levels_append ha, WildcardsInPlace.append_iff ha, ← ih]
    simp [levelsFault?, ite_some_eq_none, levels_ne_nil]

end Levels

/-- What follows `$share/` falls into a group without a slash and the filter behind the first slash. -/
theorem splitGroup?_eq_some_iff {rest group f : List Char} :
    splitGroup? rest = some (group, f) ↔ '/' ∉ group ∧ rest = group ++ '/' :: f := by
  have hrun : '/' ∉ group ↔ ∀ c ∈ group, decide (c ≠ '/') := by
    simp only [decide_eq_true_eq]
    exact ⟨fun h c hc heq => h (heq ▸ hc), fun h hc => h _ hc rfl⟩
  rw [hrun, ← cut_iff (p := fun c => decide (c ≠ '/')) (by simp)]
  unfold splitGroup?
  split
  · rename_i hnone
    rw [hnone]
    simp
  · rename_i c filter hsome
    obtain rfl : c = '/' := by simpa using not_of_dropWhile_eq_cons hsome
    rw [hsome, Option.some.injEq, Prod.mk.injEq, List.cons.injEq, eq_self, true_and]

theorem isGroup_iff {g : List Char} : IsGroup g ↔ g ≠ [] ∧ ¬g.any isWildcard ∧ '/' ∉ g := by
  constructor
  · intro h
    refine ⟨h.ne_nil, fun hwild => ?_, fun hmem => (h.chars _ hmem).1 rfl⟩
    obtain ⟨c, hc, hisWild⟩ := List.any_eq_true.1 hwild
    simp [isWildcard, h.chars c hc] at hisWild
  · rintro ⟨hne, hwild, hslash⟩
    refine ⟨hne, fun c hc => ⟨fun heq => hslash (heq ▸ hc), ?_⟩⟩
    simpa [isWildcard] using fun h => hwild (List.any_eq_true.2 ⟨c, hc, h⟩)

/-- A group and what follows it are found where the text is split. -/
theorem IsGroup.splitGroup? {rest group f : List Char} (h : IsGroup group) (hrest : rest = group ++ '/' :: f) :
    splitGroup? rest = some (group, f) :=
  splitGroup?_eq_some_iff.2 ⟨(isGroup_iff.1 h).2.2, hrest⟩

theorem sharedFault?_eq_none_iff {rest : List Char} : sharedFault? rest = none ↔
    ∃ group f, IsGroup group ∧ f ≠ [] ∧ rest = group ++ '/' :: f ∧ WildcardsInPlace f := by
  unfold sharedFault?
  split
  · rename_i hnone
    simp only [reduceCtorEq, false_iff]
    rintro ⟨group, f, hgroup, -, hrest, -⟩
    simp [hgroup.splitGroup? hrest] at hnone
  · rename_i group f hsome
    obtain ⟨hslash, hrest⟩ := splitGroup?_eq_some_iff.1 hsome
    simp only [ite_some_eq_none, levelsFault?_eq_none_iff]
    constructor
    · rintro ⟨hne, hwild, hf, hplace⟩
      exact ⟨group, f, isGroup_iff.2 ⟨hne, hwild, hslash⟩, hf, hrest, hplace⟩
    · rintro ⟨group', f', hgroup, hf, hrest', hplace⟩
      rw [hgroup.splitGroup? hrest', Option.some.injEq, Prod.mk.injEq] at hsome
      obtain ⟨rfl, rfl⟩ := hsome
      obtain ⟨hne, hwild, -⟩ := isGroup_iff.1 hgroup
      exact ⟨hne, hwild, hf, hplace⟩

section Chooses

variable {s f f' : String} {rest : List Char}

theorem choosesBy_iff_of_plain (h : ¬"$share/".toList <+: s.toList) : ChoosesBy s f ↔ f = s := by
  constructor
  · rintro (_ | ⟨-, -⟩)
    · rfl
    · rw [String.append_assoc, String.append_assoc, String.toList_append] at h
      exact absurd (List.prefix_append _ _) h
  · rintro rfl
    exact .plain h

theorem choosesBy_iff_of_marked (h : "$share/".toList ++ rest = s.toList) :
    ChoosesBy s f ↔ ∃ group, IsGroup group ∧ f.toList ≠ [] ∧ rest = group ++ '/' :: f.toList := by
  constructor
  · rintro (hplain | ⟨hgroup, hf⟩)
    · exact absurd ⟨rest, h⟩ hplain
    · rename_i group
      rw [String.append_assoc, String.append_assoc, String.toList_append, List.append_cancel_left_eq] at h
      exact ⟨group.toList, hgroup, by simpa using hf, by simp [h]⟩
  · rintro ⟨group, hgroup, hf, rfl⟩
    obtain rfl : s = "$share/" ++ String.ofList group ++ "/" ++ f := String.toList_inj.1 (by simp [← h])
    exact .shared (by simpa using hgroup) (by simpa using hf)

/-- A text that begins like a shared subscription is not chosen by itself, so that one reading at most remains. -/
theorem ChoosesBy.unique (h : ChoosesBy s f) (h' : ChoosesBy s f') : f = f' := by
  by_cases hshared : "$share/".toList <+: s.toList
  · obtain ⟨rest, hrest⟩ := hshared
    obtain ⟨group, hgroup, -, hcut⟩ := (choosesBy_iff_of_marked hrest).1 h
    obtain ⟨group', hgroup', -, hcut'⟩ := (choosesBy_iff_of_marked hrest).1 h'
    have hsplit := (hgroup.splitGroup? hcut).symm.trans (hgroup'.splitGroup? hcut')
    rw [Option.some.injEq, Prod.mk.injEq, String.toList_inj] at hsplit
    exact hsplit.2
  · rw [choosesBy_iff_of_plain hshared] at h h'
    exact h.trans h'.symm

theorem hasWildcard_iff : hasWildcard s ↔ '+' ∈ s.toList ∨ '#' ∈ s.toList := by
  simp [hasWildcard, isWildcard, or_and_right, exists_or, and_comm]

/-- Neither the mark nor the group holds a wildcard. -/
theorem ChoosesBy.hasWildcard_iff (h : ChoosesBy s f) : hasWildcard s ↔ '+' ∈ f.toList ∨ '#' ∈ f.toList := by
  rw [TopicFilter.hasWildcard_iff]
  cases h with
  | plain => rfl
  | shared hgroup hf =>
    rename_i group
    have hplus : '+' ∉ group.toList := fun hmem => (hgroup.chars _ hmem).2.1 rfl
    have hhash : '#' ∉ group.toList := fun hmem => (hgroup.chars _ hmem).2.2 rfl
    simp [hplus, hhash]

theorem fault?_eq_none_iff : fault? s = none ↔ ∃ f, Grammatical s f := by
  unfold fault? faultChars?
  rw [ite_some_eq_none]
  -- behind the mark a group must be found; no text that begins with it is chosen by itself
  split
  · rename_i rest hsome
    rw [sharedFault?_eq_none_iff]
    have hrest := List.append_eq_of_isPrefixOf?_eq_some hsome
    constructor
    · rintro ⟨hs, group, f, hgroup, hf, hcut, hplace⟩
      have hchooses : ChoosesBy s (String.ofList f) :=
        (choosesBy_iff_of_marked hrest).2 ⟨group, hgroup, by simpa using hf, by simpa using hcut⟩
      exact ⟨String.ofList f, by simpa using hs, hchooses, by simpa using hplace⟩
    · rintro ⟨f, hs, hchooses, hplace⟩
      obtain ⟨group, hgroup, hf, hcut⟩ := (choosesBy_iff_of_marked hrest).1 hchooses
      exact ⟨by simpa using hs, group, f.toList, hgroup, hf, hcut, hplace⟩
  · rename_i hnone
    have hplain : ¬"$share/".toList <+: s.toList := by
      rintro ⟨rest, hrest⟩
      have hsome : sharedMark.isPrefixOf? s.toList = some rest := List.isPrefixOf?_eq_some_iff_append_eq.2 hrest
      rw [hnone] at hsome
      cases hsome
    rw [levelsFault?_eq_none_iff]
    constructor
    · rintro ⟨hs, hplace⟩
      exact ⟨s, by simpa using hs, .plain hplain, hplace⟩
    · rintro ⟨f, hs, hchooses, hplace⟩
      obtain rfl := (choosesBy_iff_of_plain hplain).1 hchooses
      exact ⟨by simpa using hs, hplace⟩

theorem isShared_iff : isShared s ↔ "$share/".toList <+: s.toList :=
  List.isPrefixOf_iff_prefix

theorem checkTopicFilter_eq_ok {limits : PacketLimits} : limits.checkTopicFilter s = .ok () ↔
    limits.checkString "topic filter" s = .ok () ∧ fault? s = none ∧
      (limits.wildcardSubscriptions = false → ¬hasWildcard s) ∧
        (limits.sharedSubscriptions = false → ¬isShared s) := by
  unfold PacketLimits.checkTopicFilter
  rw [check_bind_eq_ok]
  apply and_congr_right
  intro _
  cases fault? s with
  | some fault => simp
  | none =>
    cases limits.wildcardSubscriptions <;> cases hasWildcard s <;> simp

end Chooses

/-- The grammar decides: a text is a topic filter exactly if it has a reading whose wildcards are in place. There is
one reading at most, and it alone says whether the filter has wildcards. Limits add the rules of texts, and forbid
wildcards or shared subscriptions where they are disabled. -/
theorem accepted_iff_grammatical (limits : PacketLimits) (s : String) :
    (fault? s = none ↔ ∃ f, Grammatical s f) ∧
      (∀ f, ChoosesBy s f →
        (∀ f', ChoosesBy s f' → f' = f) ∧ (hasWildcard s ↔ '+' ∈ f.toList ∨ '#' ∈ f.toList)) ∧
      (limits.checkTopicFilter s = .ok () ↔ limits.checkString "topic filter" s = .ok () ∧ ∃ f, Grammatical s f ∧
        (limits.wildcardSubscriptions = false → '+' ∉ f.toList ∧ '#' ∉ f.toList) ∧
        (limits.sharedSubscriptions = false → ¬"$share/".toList <+: s.toList)) := by
  refine ⟨fault?_eq_none_iff, fun f h => ⟨fun f' h' => h'.unique h, h.hasWildcard_iff⟩, ?_⟩
  rw [checkTopicFilter_eq_ok, fault?_eq_none_iff, isShared_iff]
  apply and_congr_right
  intro _
  constructor
  · rintro ⟨⟨f, hf⟩, hwild, hshared⟩
    rw [hf.chooses.hasWildcard_iff, not_or] at hwild
    exact ⟨f, hf, hwild, hshared⟩
  · rintro ⟨f, hf, hwild, hshared⟩
    rw [hf.chooses.hasWildcard_iff, not_or]
    exact ⟨⟨f, hf⟩, hwild, hshared⟩

/-- Such a filter is judged by what follows its group. -/
theorem shared_filter_grammatical : ∃ f, ChoosesBy "$share/g/a/+" f ∧
    (∀ f', ChoosesBy "$share/g/a/+" f' → f' = f) ∧
    (hasWildcard "$share/g/a/+" ↔ '+' ∈ f.toList ∨ '#' ∈ f.toList) := by
  obtain ⟨f, hf⟩ := (accepted_iff_grammatical {} "$share/g/a/+").1.1 (by decide)
  exact ⟨f, hf.chooses, (accepted_iff_grammatical {} "$share/g/a/+").2.1 f hf.chooses⟩

end BrokerHooks.TopicFilter
