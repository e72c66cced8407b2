import BrokerHooks.Draft.Basic
import BrokerHooks.Point

namespace BrokerHooks

inductive Fallback where
  | success
  | failure
deriving DecidableEq, Repr, Inhabited

def Fallback.label : Fallback → String
  | .success => "success"
  | .failure => "failure"

inductive Deferral where
  | notRequested
  | pending (deadline : Nat) (fallback : Fallback)
  | resumed
  | timedOut (fallback : Fallback)
deriving DecidableEq, Repr, Inhabited

inductive IllegalUse where
  | zeroTimeout
  | deferredTwice (point : Point)
  | notPreventable (point : Point)
deriving DecidableEq, Repr

def IllegalUse.message : IllegalUse → String
  | .zeroTimeout => "Illegal use: async timeout must be greater than zero"
  | .deferredTwice point =>
    s!"Illegal use: async output can only be requested once per {point.label} interception"
  | .notPreventable point => s!"Illegal use: {point.label} packets cannot be prevented"

inductive Completion where
  | immediate
  | resumed
  | timedOut (fallback : Fallback)
deriving DecidableEq, Repr

structure Turn where
  point : Point
  draft : Draft
  maxTimeout : Nat
  deferral : Deferral := .notRequested
  prevented : Bool := false
deriving DecidableEq, Repr, Inhabited

namespace Turn

def fresh (point : Point) (limits : PacketLimits) (maxTimeout : Nat) (p : Packet) : Turn :=
  { point, draft := .ofPacket limits p, maxTimeout }

/-- Asks for time once; the broker's longest timeout caps the one asked for. -/
def defer (t : Turn) (now timeout : Nat) (fallback : Fallback) : Except IllegalUse Turn :=
  if timeout = 0 then .error .zeroTimeout
  else if t.deferral ≠ .notRequested then .error (.deferredTwice t.point)
  else .ok { t with deferral := .pending (now + min timeout t.maxTimeout) fallback }

/-- Ends a pending turn; any other is left as it is. -/
def resume (t : Turn) : Turn :=
  match t.deferral with
  | .pending _ _ => { t with deferral := .resumed }
  | _ => t

def prevent (t : Turn) : Except IllegalUse Turn :=
  if t.point.preventReaction?.isNone then .error (.notPreventable t.point)
  else .ok { t with prevented := true }

/-- How the turn has ended by `now`, or `none` while it is pending. A deadline that is found to have
passed is final. -/
def poll (t : Turn) (now : Nat) : Option Completion × Turn :=
  match t.deferral with
  | .notRequested => (some .immediate, t)
  | .resumed => (some .resumed, t)
  | .timedOut fallback => (some (.timedOut fallback), t)
  | .pending deadline fallback =>
    if deadline ≤ now then
      (some (.timedOut fallback), { t with deferral := .timedOut fallback })
    else (none, t)

def deadline? (t : Turn) : Option Nat :=
  match t.deferral with
  | .pending deadline _ => some deadline
  | _ => none

theorem deadline?_eq_some {t : Turn} {d : Nat} :
    t.deadline? = some d ↔ ∃ f, t.deferral = .pending d f := by
  unfold deadline?
  cases t.deferral <;> simp

def isPending (t : Turn) (now : Nat) : Bool := (t.poll now).1.isNone

theorem isPending_iff {t : Turn} {now : Nat} :
    t.isPending now ↔ ∃ d f, t.deferral = .pending d f ∧ now < d := by
  unfold isPending poll
  cases t.deferral <;> simp
  split <;> simp_all

end Turn
end BrokerHooks
