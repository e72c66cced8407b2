namespace BrokerHooks

/-- A name holds neither a closing brace nor a colon, and is not empty. -/
structure Placeholder where
  name : List Char
  default : Option (List Char) := none
deriving DecidableEq, Repr

namespace Placeholder

abbrev Environment := String → Option String

/-- The variable's value if it is set, else the default, else nothing. -/
def expansion (p : Placeholder) (env : Environment) : List Char :=
  match env (String.ofList p.name) with
  | some value => value.toList
  | none => p.default.getD []

def isNameChar (c : Char) : Bool := c ≠ '\x7d' && c ≠ ':'

def read? (s : List Char) : Option (Placeholder × List Char) :=
  let name := s.takeWhile isNameChar
  if name = [] then none
  else
    match s.dropWhile isNameChar with
    | '\x7d' :: rest => some ({ name }, rest)
    | ':' :: '-' :: tail =>
      match tail.dropWhile (· ≠ '\x7d') with
      | [] => none
      | _ :: rest => some ({ name, default := some (tail.takeWhile (· ≠ '\x7d')) }, rest)
    | _ => none

theorem length_dropWhile_le {α : Type} (p : α → Bool) (s : List α) :
    (s.dropWhile p).length ≤ s.length :=
  (List.dropWhile_sublist p).length_le

theorem length_of_read? {s rest : List Char} {p : Placeholder} (h : read? s = some (p, rest)) :
    rest.length < s.length := by
  have hs := length_dropWhile_le isNameChar s
  unfold read? at h
  dsimp only at h
  split at h
  · simp at h
  · split at h
    · rename_i tail heq
      rw [heq] at hs
      simp only [Option.some.injEq, Prod.mk.injEq] at h
      simp only [List.length_cons] at hs
      rw [← h.2]
      omega
    · rename_i tail heq
      rw [heq] at hs
      have ht := length_dropWhile_le (· ≠ '\x7d') tail
      simp only [List.length_cons] at hs
      split at h
      · simp at h
      · rename_i c rest' heq'
        rw [heq'] at ht
        simp only [Option.some.injEq, Prod.mk.injEq] at h
        simp only [List.length_cons] at ht
        rw [← h.2]
        omega
    · simp at h

def substitute (env : Environment) (s : List Char) : List Char :=
  match s with
  | [] => []
  | '$' :: '\x7b' :: tail =>
    match h : read? tail with
    | some (p, rest) =>
      have := length_of_read? h
      p.expansion env ++ substitute env rest
    | none => '$' :: substitute env ('\x7b' :: tail)
  | c :: rest => c :: substitute env rest
termination_by s.length

end Placeholder
end BrokerHooks
