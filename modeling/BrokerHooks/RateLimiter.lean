namespace BrokerHooks

/-- Times are milliseconds since the limiter was made. A limit of zero or less never denies. -/
structure RateLimiter where
  limit : Int
  windowStart : Nat := 0
  calls : Nat := 0
  reserveStart : Nat := 0
  reserve : Nat := 0
deriving DecidableEq, Repr, Inhabited

namespace RateLimiter

def window : Nat := 1000

def reserveWindow : Nat := 10000

/-- The call that opens a window is its first, and may refill the reserve. -/
def openWindow (r : RateLimiter) (now : Nat) : RateLimiter :=
  let r := { r with windowStart := now, calls := 1 }
  if now - r.reserveStart > reserveWindow then { r with reserveStart := now, reserve := 1 } else r

/-- Counts a call at `now` and answers whether it is denied. -/
def exceeded (r : RateLimiter) (now : Nat) : Bool × RateLimiter :=
  if r.limit ≤ 0 then (false, r)
  else if now - r.windowStart ≥ window then (false, r.openWindow now)
  else
    let r := { r with calls := r.calls + 1 }
    if (r.calls : Int) ≤ r.limit then (false, r)
    else
      let r := { r with reserve := r.reserve + 1 }
      (r.limit < (r.reserve : Int), r)

def exceededTimes (r : RateLimiter) (now : Nat) : Nat → List Bool × RateLimiter
  | 0 => ([], r)
  | n + 1 =>
    let (denied, r) := r.exceeded now
    let (rest, r) := exceededTimes r now n
    (denied :: rest, r)

@[simp] theorem limit_openWindow (r : RateLimiter) (now : Nat) :
    (r.openWindow now).limit = r.limit := by
  unfold openWindow
  dsimp only
  split <;> rfl

@[simp] theorem limit_exceeded (r : RateLimiter) (now : Nat) :
    (r.exceeded now).2.limit = r.limit := by
  unfold exceeded
  split
  · rfl
  · split
    · simp
    · dsimp only
      split <;> rfl

end RateLimiter
end BrokerHooks
