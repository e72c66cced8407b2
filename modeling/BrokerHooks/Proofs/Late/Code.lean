import Mathlib.Data.List.Forall2
import BrokerHooks.Extension.Roster

namespace BrokerHooks

/-- The operations that act on nothing but the turn, and the notes that extensions write. -/
def Op.isPrivate : Op → Bool
  | .call _ | .defer .. | .resume | .prevent | .view | .note _ => true
  | _ => false

def Program.hasEnded : Program → Bool
  | .done | .fail _ | .crash _ => true
  | _ => false

/-- Two programs do the same and end alike, whatever work they leave behind. If they run `late`, when their
turn is over, what they do to the turn is not compared, nor how they end. -/
inductive Program.Agrees (late : Prop) : Program → Program → Prop where
  | ended {p p' : Program} (hp : p.hasEnded) (hp' : p'.hasEnded) (hsame : late ∨ p = p') :
      Agrees late p p'
  | perform {op : Op} {next next' : op.Answer → Program} (hop : late → op.isPrivate = false)
      (h : ∀ a, Agrees late (next a) (next' a)) : Agrees late (.perform op next) (.perform op next')
  | left {op : Op} {next : op.Answer → Program} {p' : Program} (hlate : late) (hop : op.isPrivate)
      (h : ∀ a, Agrees late (next a) p') : Agrees late (.perform op next) p'
  | right {op : Op} {p : Program} {next' : op.Answer → Program} (hlate : late) (hop : op.isPrivate)
      (h : ∀ a, Agrees late p (next' a)) : Agrees late p (.perform op next')
  | leavesLeft {delay : Nat} {task p p' : Program} (h : Agrees late p p') :
      Agrees late (.spawn delay task p) p'
  | leavesRight {delay : Nat} {task p p' : Program} (h : Agrees late p p') :
      Agrees late p (.spawn delay task p')

namespace Program.Agrees

variable {late : Prop}

theorem refl (p : Program) : Agrees False p p := by
  induction p with
  | done | fail | crash => exact .ended rfl rfl (.inr rfl)
  | perform op next ih => exact .perform nofun ih
  | spawn delay task next _ ih => exact .leavesLeft (.leavesRight ih)

theorem symm {p p' : Program} (h : Agrees late p p') : Agrees late p' p := by
  induction h with
  | ended hp hp' hsame => exact .ended hp' hp (hsame.imp_right Eq.symm)
  | perform hop _ ih => exact .perform hop ih
  | left hlate hop _ ih => exact .right hlate hop ih
  | right hlate hop _ ih => exact .left hlate hop ih
  | leavesLeft _ ih => exact .leavesRight ih
  | leavesRight _ ih => exact .leavesLeft ih

end Program.Agrees

/-- Two hooks agree in all but the work that their code leaves behind. -/
structure Hook.Agrees (h h' : Hook) : Prop where
  extension : h'.extension = h.extension
  point : h'.point = h.point
  number : h'.number = h.number
  family : h'.family = h.family
  respond : ∀ n input, (h.respond n input).Agrees False (h'.respond n input)

structure Ranked.Agrees (x x' : Ranked) : Prop where
  priority : x'.priority = x.priority
  hook : x.hook.Agrees x'.hook

theorem Hook.Agrees.refl (h : Hook) : h.Agrees h := ⟨rfl, rfl, rfl, rfl, fun _ _ => .refl _⟩

theorem Ranked.Agrees.refl (x : Ranked) : x.Agrees x := ⟨rfl, .refl x.hook⟩

theorem Hook.Agrees.symm {h h' : Hook} (hh : h.Agrees h') : h'.Agrees h where
  extension := hh.extension.symm
  point := hh.point.symm
  number := hh.number.symm
  family := hh.family.symm
  respond := fun n input => (hh.respond n input).symm

theorem Ranked.Agrees.symm {x x' : Ranked} (h : x.Agrees x') : x'.Agrees x :=
  ⟨h.priority.symm, h.hook.symm⟩

theorem Ranked.Agrees.precedes {x x' y y' : Ranked} (hx : x.Agrees x') (hy : y.Agrees y') :
    x'.precedes y' = x.precedes y := by
  unfold Ranked.precedes
  rw [hx.priority, hy.priority, hx.hook.number, hy.hook.number]

section

variable {α β : Type} {R : α → β → Prop} {xs : List α} {ys : List β}

theorem forall₂_symm {S : β → α → Prop} (hsymm : ∀ {x y}, R x y → S y x) (h : List.Forall₂ R xs ys) :
    List.Forall₂ S ys xs := (h.imp fun _ _ => hsymm).flip

theorem forall₂_getElem? (h : List.Forall₂ R xs ys) (i : Nat) : Option.Rel R xs[i]? ys[i]? := by
  induction h generalizing i with
  | nil => exact .none
  | cons hxy _ ih =>
    cases i with
    | zero => exact .some hxy
    | succ i => exact ih i

theorem forall₂_eraseIdx (h : List.Forall₂ R xs ys) (i : Nat) :
    List.Forall₂ R (xs.eraseIdx i) (ys.eraseIdx i) := by
  induction h generalizing i with
  | nil => exact .nil
  | cons hxy hrest ih =>
    cases i with
    | zero => exact hrest
    | succ i => exact .cons hxy (ih i)

/-- Sorting keeps what stands at the same place at the same place, if the order sees no difference. -/
theorem forall₂_mergeSort {le : α → α → Bool} {le' : β → β → Bool} (h : List.Forall₂ R xs ys)
    (hle : ∀ {x x' y y'}, R x x' → R y y' → le' x' y' = le x y) :
    List.Forall₂ R (xs.mergeSort le) (ys.mergeSort le') := by
  -- Both are the two sides of one list of pairs.
  have hzip : ∀ pair ∈ xs.zip ys, R pair.1 pair.2 := fun pair hpair => List.forall₂_zip h hpair
  have hxs : (xs.zip ys).map Prod.fst = xs := List.map_fst_zip (Nat.le_of_eq h.length_eq)
  have hys : (xs.zip ys).map Prod.snd = ys := List.map_snd_zip (Nat.le_of_eq h.length_eq.symm)
  have hfst : ((xs.zip ys).mergeSort fun a b => le a.1 b.1).map Prod.fst = xs.mergeSort le := by
    rw [List.map_mergeSort (s := le) (f := Prod.fst) fun _ _ _ _ => rfl, hxs]
  have hsnd : ((xs.zip ys).mergeSort fun a b => le a.1 b.1).map Prod.snd = ys.mergeSort le' := by
    have hsame : ∀ a ∈ xs.zip ys, ∀ b ∈ xs.zip ys, le a.1 b.1 = le' a.2 b.2 :=
      fun a ha b hb => (hle (hzip a ha) (hzip b hb)).symm
    rw [List.map_mergeSort hsame, hys]
  rw [← hfst, ← hsnd, List.forall₂_map_left_iff, List.forall₂_map_right_iff, List.forall₂_same]
  exact fun pair hpair => hzip pair (List.mem_mergeSort.1 hpair)

end

end BrokerHooks
