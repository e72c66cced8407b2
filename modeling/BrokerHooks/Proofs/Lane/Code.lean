import BrokerHooks.Proofs.Late.Code
import BrokerHooks.Proofs.Chain.OwnTurn

namespace BrokerHooks

open Broker

/-- Neither the program nor the work it leaves behind reaches beyond its turn. -/
def Program.IsPrivate : Program → Prop
  | .done | .fail _ | .crash _ => True
  | .perform op next => op.isPrivate ∧ ∀ answer, (next answer).IsPrivate
  | .spawn _ task next => task.IsPrivate ∧ next.IsPrivate

/-- A hook whose code acts on its own output alone: it keeps no count of its invocations, either. -/
def ActsOnOwnOutput (respond : Nat → Input → Program) : Prop :=
  ∀ n input, respond n input = respond 0 input ∧ (respond 0 input).IsPrivate

def Op.notes : Op → List Note
  | .note n => [n]
  | _ => []

def Op.playOn? (now : Nat) : (op : Op) → Turn → Option (op.Answer × Turn)
  | .defer timeout fallback, t => some (tryUpdate t (t.defer now timeout fallback))
  | op, t => op.own? t

/-- What a program makes of its turn: why it failed, the work that it left behind and when it is due. -/
structure Played where
  cause : Option Cause := none
  turn : Turn
  tasks : List (Nat × Program) := []
  notes : List Note := []

def Program.playOn (now : Nat) : Program → Turn → Played
  | .done, turn => { turn }
  | .fail e, turn => { cause := some (.error e), turn }
  | .crash message, turn => { cause := some (.panic (message.getD unknownPanic)), turn }
  | .perform op next, turn =>
    match op.playOn? now turn with
    | some (answer, turn) =>
      let played := (next answer).playOn now turn
      { played with notes := op.notes ++ played.notes }
    | none => { turn }
  | .spawn delay task next, turn =>
    let played := next.playOn now turn
    { played with tasks := (now + delay, task) :: played.tasks }

namespace Broker

def afterPlay (b : Broker) (s : Site) (played : Played) : Broker :=
  { b with
    turns := b.turns.set s.turn played.turn
    sleepers := b.sleepers ++ played.tasks.map fun w => { due := w.1, site := s, program := w.2 }
    journal := b.journal ++ played.notes.map fun n => { time := b.now, event := .noted n } }

variable {b : Broker} {s : Site} {t : Turn}

theorem setTurn_self {i : Nat} (h : b.turn? i = some t) : b.turns.set i t = b.turns := by
  obtain ⟨hi, rfl⟩ := List.getElem?_eq_some_iff.1 h
  exact List.set_getElem_self hi

theorem perform_private (ht : b.turn? s.turn = some t) {op : Op} (hop : op.isPrivate) :
    ∃ answer t', op.playOn? b.now t = some (answer, t') ∧
      b.perform s op = (answer, b.afterPlay s { turn := t', notes := op.notes }) := by
  have honTurn {α : Type} (default : α) (f : Turn → α × Turn) :
      b.onTurn s default f = ((f t).1, b.afterPlay s { turn := (f t).2 }) := by
    unfold onTurn
    rw [ht]
    simp [afterPlay, setTurn]
  cases op with
  | call | defer | resume | prevent | view =>
    refine ⟨_, _, rfl, ?_⟩
    simp only [perform, honTurn]
    rfl
  | note n =>
    refine ⟨(), t, rfl, ?_⟩
    simp [perform, afterPlay, record, setTurn_self ht, Op.notes]
  | _ => cases hop

theorem afterPlay_turn? (ht : b.turn? s.turn = some t) (played : Played) :
    (b.afterPlay s played).turn? s.turn = some played.turn := setTurn_turn? ht played.turn

/-- Private code does the same in every broker. -/
theorem run_private (ht : b.turn? s.turn = some t) {program : Program} (hp : program.IsPrivate) :
    run s program b = ((program.playOn b.now t).cause, b.afterPlay s (program.playOn b.now t)) := by
  induction program generalizing b t with
  | done | fail | crash => simp [run, Program.playOn, afterPlay, setTurn_self ht]
  | perform op next ih =>
    obtain ⟨hop, hnext⟩ := hp
    obtain ⟨answer, t', hplay, hperform⟩ := perform_private ht hop
    have hrest := ih answer (afterPlay_turn? ht { turn := t', notes := op.notes }) (hnext answer)
    unfold run Program.playOn
    rw [hperform, hplay]
    simp only
    rw [hrest]
    simp [afterPlay, List.set_set]
  | spawn delay task next _ ih =>
    obtain ⟨-, hnext⟩ := hp
    have hrest := ih (b := { b with
      sleepers := b.sleepers ++ [{ due := b.now + delay, site := s, program := task }] }) ht hnext
    unfold run Program.playOn
    simp only
    rw [hrest]
    simp [afterPlay]

end Broker

theorem Program.IsPrivate.tasks {program : Program} (hp : program.IsPrivate) (now : Nat) (t : Turn) :
    ∀ w ∈ (program.playOn now t).tasks, w.2.IsPrivate := by
  induction program generalizing t with
  | done | fail | crash => exact List.forall_mem_nil _
  | perform op next ih =>
    unfold playOn
    split
    · rename_i answer t' _
      exact ih answer (hp.2 answer) t'
    · exact List.forall_mem_nil _
  | spawn delay task next _ ih => exact List.forall_mem_cons.2 ⟨hp.1, ih hp.2 t⟩

end BrokerHooks
