import BrokerHooks.Config.Placeholder
import BrokerHooks.Proofs.Text.Cut

namespace BrokerHooks.Placeholder

def body (p : Placeholder) : List Char :=
  match p.default with
  | none => p.name ++ ['\x7d']
  | some d => p.name ++ ':' :: '-' :: d ++ ['\x7d']

def source (p : Placeholder) : List Char := '$' :: '\x7b' :: p.body

structure WellFormed (p : Placeholder) : Prop where
  named : p.name ≠ []
  nameChars : ∀ c ∈ p.name, c ≠ '\x7d' ∧ c ≠ ':'
  defaultChars : ∀ d ∈ p.default, ∀ c ∈ d, c ≠ '\x7d'

/-- A part of a text that is replaced, or left alone, as a whole. -/
inductive Piece where
  | char (c : Char)
  | placeholder (p : Placeholder)

def Piece.source : Piece → List Char
  | .char c => [c]
  | .placeholder p => p.source

def Piece.filled (env : Environment) : Piece → List Char
  | .char c => [c]
  | .placeholder p => (((env (String.ofList p.name)).map String.toList).or p.default).getD []

/-- The pieces of a text from left to right: a placeholder wherever one can be read, else a character. -/
inductive Scans : List Char → List Piece → Prop
  | done : Scans [] []
  | placeholder {p : Placeholder} {rest : List Char} {ps : List Piece} (hp : p.WellFormed) (h : Scans rest ps) :
      Scans (p.source ++ rest) (.placeholder p :: ps)
  | char {c : Char} {s : List Char} {ps : List Piece}
      (hc : ∀ (p : Placeholder) (rest : List Char), p.WellFormed → c :: s ≠ p.source ++ rest) (h : Scans s ps) :
      Scans (c :: s) (.char c :: ps)

section Read

variable {p p' : Placeholder} {s rest rest' : List Char}

theorem forall_isNameChar_iff : (∀ c ∈ s, isNameChar c) ↔ ∀ c ∈ s, c ≠ '\x7d' ∧ c ≠ ':' := by
  simp [isNameChar]

/-- A placeholder is read wherever one is written. -/
theorem read?_body (hp : p.WellFormed) (rest : List Char) : read? (p.body ++ rest) = some (p, rest) := by
  obtain ⟨name, default⟩ := p
  obtain ⟨hnamed, hname, hdefault⟩ := hp
  rw [← forall_isNameChar_iff] at hname
  cases default with
  | none =>
    obtain ⟨htake, hdrop⟩ := (cut_iff (c := '\x7d') (t := rest) (by decide)).2 ⟨hname, rfl⟩
    simp [read?, body, htake, hdrop, hnamed]
  | some d =>
    -- the name ends at the colon, so that the default may hold colons of its own
    obtain ⟨htake, hdrop⟩ :=
      (cut_iff (c := ':') (t := '-' :: d ++ '\x7d' :: rest) (by decide)).2 ⟨hname, rfl⟩
    have hd : ∀ c ∈ d, decide (c ≠ '\x7d') := by simpa using hdefault d rfl
    obtain ⟨htake', hdrop'⟩ := (cut_iff (c := '\x7d') (t := rest) (by decide)).2 ⟨hd, rfl⟩
    simp_all [read?, body]

theorem of_read?_eq_some (h : read? s = some (p, rest)) : p.WellFormed ∧ s = p.body ++ rest := by
  unfold read? at h
  dsimp only at h
  split at h
  · simp at h
  · rename_i hnamed
    split at h
    · -- The name ends at a closing brace, or at a colon that a default follows.
      rename_i tail hend
      obtain ⟨hname, hs⟩ := (cut_iff (by decide)).1 ⟨rfl, hend⟩
      rw [forall_isNameChar_iff] at hname
      obtain ⟨rfl, rfl⟩ : _ = p ∧ tail = rest := by simpa using h
      exact ⟨⟨hnamed, hname, by simp⟩, by simpa [body] using hs⟩
    · rename_i tail hend
      obtain ⟨hname, hs⟩ := (cut_iff (by decide)).1 ⟨rfl, hend⟩
      rw [forall_isNameChar_iff] at hname
      split at h
      · simp at h
      · rename_i c tail' hend'
        obtain rfl : c = '\x7d' := by simpa using not_of_dropWhile_eq_cons hend'
        obtain ⟨hdefault, htail⟩ := (cut_iff (by decide)).1 ⟨rfl, hend'⟩
        obtain ⟨rfl, rfl⟩ : _ = p ∧ tail' = rest := by simpa using h
        rw [htail] at hs
        exact ⟨⟨hnamed, hname, by simpa using hdefault⟩, by simpa [body] using hs⟩
    · simp at h

/-- Two placeholders at the start of one text are the same: the reader would read either. -/
theorem WellFormed.unique (hp : p.WellFormed) (hp' : p'.WellFormed) (h : p.source ++ rest = p'.source ++ rest') :
    p = p' ∧ rest = rest' := by
  have hread := read?_body hp rest
  simp only [source, List.cons_append, List.cons.injEq, true_and] at h
  rw [h, read?_body hp', Option.some.injEq, Prod.mk.injEq] at hread
  exact hread.imp Eq.symm Eq.symm

end Read

section Scan

variable {env : Environment} {p : Placeholder} {c : Char} {s rest : List Char} {ps : List Piece}

theorem source_append (p : Placeholder) (rest : List Char) :
    p.source ++ rest = '$' :: '\x7b' :: (p.body ++ rest) := rfl

/-- What holds of a text because it holds of what is left behind the first piece holds of every text. -/
theorem scan_induction {P : List Char → Prop} (done : P [])
    (placeholder : ∀ (p : Placeholder) (rest : List Char), p.WellFormed → P rest → P (p.source ++ rest))
    (char : ∀ c s, (∀ (p : Placeholder) (rest : List Char), p.WellFormed → c :: s ≠ p.source ++ rest) → P s →
      P (c :: s)) (s : List Char) : P s := by
  induction hn : s.length using Nat.strong_induction_on generalizing s with
  | _ n ih =>
    by_cases hs : ∃ (p : Placeholder) (rest : List Char), p.WellFormed ∧ s = p.source ++ rest
    · obtain ⟨p, rest, hp, rfl⟩ := hs
      exact placeholder p rest hp (ih rest.length (by simp [source] at hn; omega) rest rfl)
    · -- no placeholder starts here, whatever may start further on
      cases s with
      | nil => exact done
      | cons c s =>
        refine char c s (fun p rest hp heq => hs ⟨p, rest, hp, heq⟩) (ih s.length ?_ s rfl)
        rw [← hn, List.length_cons]
        exact Nat.lt_succ_self _

theorem scans_nil_iff : Scans [] ps ↔ ps = [] := by
  constructor
  · generalize hs : [] = s
    rintro (_ | ⟨hp, h⟩ | ⟨hc, h⟩)
    · rfl
    · simp [source_append] at hs
    · simp at hs
  · rintro rfl
    exact .done

theorem scans_source_iff (hp : p.WellFormed) :
    Scans (p.source ++ rest) ps ↔ ∃ qs, ps = .placeholder p :: qs ∧ Scans rest qs := by
  constructor
  · generalize hs : p.source ++ rest = s
    rintro (_ | ⟨hp', h⟩ | ⟨hc, h⟩)
    · simp [source_append] at hs
    · obtain ⟨rfl, rfl⟩ := hp.unique hp' hs
      exact ⟨_, rfl, h⟩
    · exact absurd hs.symm (hc p rest hp)
  · rintro ⟨qs, rfl, h⟩
    exact .placeholder hp h

theorem scans_cons_iff (hc : ∀ (p : Placeholder) (rest : List Char), p.WellFormed → c :: s ≠ p.source ++ rest) :
    Scans (c :: s) ps ↔ ∃ qs, ps = .char c :: qs ∧ Scans s qs := by
  constructor
  · generalize hs : c :: s = t
    rintro (_ | ⟨hp, h⟩ | ⟨hc', h⟩)
    · simp at hs
    · exact absurd hs (hc _ _ hp)
    · obtain ⟨rfl, rfl⟩ := List.cons.inj hs
      exact ⟨_, rfl, h⟩
  · rintro ⟨qs, rfl, h⟩
    exact .char hc h

/-- Every text has one reading. -/
theorem exists_scans_iff (s : List Char) : ∃ ps, ∀ qs, Scans s qs ↔ qs = ps := by
  induction s using scan_induction with
  | done => exact ⟨[], fun qs => scans_nil_iff⟩
  | placeholder p rest hp ih =>
    obtain ⟨ps, hps⟩ := ih
    exact ⟨.placeholder p :: ps, fun qs => by simp [scans_source_iff hp, hps]⟩
  | char c s hc ih =>
    obtain ⟨ps, hps⟩ := ih
    exact ⟨.char c :: ps, fun qs => by simp [scans_cons_iff hc, hps]⟩

theorem substitute_nil : substitute env [] = [] := by
  rw [substitute]

theorem expansion_eq_filled (p : Placeholder) : p.expansion env = (Piece.placeholder p).filled env := by
  dsimp only [expansion, Piece.filled]
  cases env (String.ofList p.name) <;> rfl

theorem substitute_source (hp : p.WellFormed) (rest : List Char) :
    substitute env (p.source ++ rest) = (Piece.placeholder p).filled env ++ substitute env rest := by
  rw [source_append, substitute, ← expansion_eq_filled]
  split
  · rename_i p' rest' hread
    obtain ⟨rfl, rfl⟩ : p = p' ∧ rest = rest' := by simpa [read?_body hp] using hread
    rfl
  · rename_i hread
    simp [read?_body hp] at hread

theorem substitute_cons (hc : ∀ (p : Placeholder) (rest : List Char), p.WellFormed → c :: s ≠ p.source ++ rest) :
    substitute env (c :: s) = c :: substitute env s := by
  rw [substitute.eq_def]
  split
  · rename_i heq
    simp at heq
  · rename_i tail heq
    obtain ⟨rfl, rfl⟩ := List.cons.inj heq
    split
    · rename_i p rest hread
      obtain ⟨hp, htail⟩ := of_read?_eq_some hread
      exact absurd (by rw [source_append, htail]) (hc p rest hp)
    · rfl
  · rename_i heq
    obtain ⟨rfl, rfl⟩ := List.cons.inj heq
    rfl

theorem Scans.substitute_eq (h : Scans s ps) : substitute env s = ps.flatMap (Piece.filled env) := by
  induction h with
  | done => exact substitute_nil
  | placeholder hp h ih => rw [substitute_source hp, ih, List.flatMap_cons]
  | char hc h ih => rw [substitute_cons hc, ih]; rfl

theorem Scans.flatMap_source (h : Scans s ps) : ps.flatMap Piece.source = s := by
  induction h with
  | done => rfl
  | placeholder hp h ih => rw [List.flatMap_cons, ih]; rfl
  | char hc h ih => rw [List.flatMap_cons, ih]; rfl

end Scan

/-- Every text has one reading, whose pieces are the text, and with each piece filled they are what is substituted
for it in any environment. -/
theorem substitute_eq_filled_scan (s : List Char) : ∃ ps, (∀ qs, Scans s qs ↔ qs = ps) ∧
    ps.flatMap Piece.source = s ∧ ∀ env, substitute env s = ps.flatMap (Piece.filled env) := by
  obtain ⟨ps, hps⟩ := exists_scans_iff s
  have h : Scans s ps := (hps ps).2 rfl
  exact ⟨ps, hps, h.flatMap_source, fun env => h.substitute_eq⟩

example : substitute (fun _ => some "$\x7bA\x7d") "$\x7b\x7d $\x7bA:B\x7d $\x7bA:-$\x7bB\x7d\x7d".toList =
    "$\x7b\x7d $\x7bA:B\x7d $\x7bA\x7d\x7d".toList := by
  cbv

end BrokerHooks.Placeholder
