/-!
# Rehearsed time

Time for runs that are rehearsed: a number of milliseconds that moves from one timer to the next
and stands still in between. All that can happen at a moment happens before time moves on.
-/

namespace ChangeFeed.Rehearsal

/-- Things that happen in rehearsed time. -/
class Timed (σ : Type) where
  now : σ → Nat
  /-- When the next timer fires. -/
  due? : σ → Option Nat
  /-- Moves time to a moment, and lets everything happen that can happen then. -/
  arrive : Nat → σ → σ
  /-- Whether nothing is waited for any more. -/
  isOver : σ → Bool

variable {σ : Type} [Timed σ]

/-- When the next timer fires, if that is after now and not after a limit. -/
def nextBy (limit : Nat) (s : σ) : Option Nat :=
  (Timed.due? s).filter fun t => Timed.now s < t && t ≤ limit

/-- Moves time from timer to timer up to a limit; it takes at most `fuel` of them. -/
def passBy : Nat → Nat → σ → σ
  | 0, limit, s => Timed.arrive limit s
  | fuel + 1, limit, s =>
    match nextBy limit s with
    | some t => passBy fuel limit (Timed.arrive t s)
    | none => Timed.arrive limit s

/-- Lets a number of milliseconds pass. -/
def pass (millis : Nat) (s : σ) : σ :=
  passBy millis (Timed.now s + millis) s

/-- Moves time from timer to timer until all is over, but not beyond a limit. -/
def awaitBy : Nat → Nat → σ → σ
  | 0, limit, s => if Timed.isOver s then s else Timed.arrive limit s
  | fuel + 1, limit, s =>
    if Timed.isOver s then s
    else
      match nextBy limit s with
      | some t => awaitBy fuel limit (Timed.arrive t s)
      | none => Timed.arrive limit s

/-- Waits until all is over, but no longer than a number of milliseconds. -/
def await (millis : Nat) (s : σ) : σ :=
  awaitBy millis (Timed.now s + millis) s

/-- How long one waits for an end. -/
def patience : Nat := 60000

end ChangeFeed.Rehearsal
