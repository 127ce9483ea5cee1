/-!
# Sources of choices

A workload draws numbers from ranges. Where they come from is left to a source,
which is a state with a way to draw from it.
-/

namespace TransactionalPages

structure Choice (σ : Type) where
  /-- Draws a number that is at least `low` and below `high`. -/
  draw : σ → (low high : Nat) → Nat × σ

namespace Choice

/-- Always the smallest number of the range. -/
def least : Choice Unit := ⟨fun s low _ => (low, s)⟩

/-- The numbers of a linear congruential sequence of 64-bit words. -/
def linear : Choice UInt64 :=
  ⟨fun s low high =>
    let s := s * 6364136223846793005 + 1442695040888963407
    (low + (s >>> 33).toNat % (high - low), s)⟩

/-- Draws `n` numbers from one range. -/
def drawMany {σ : Type} (c : Choice σ) (low high : Nat) : Nat → σ → List Nat × σ
  | 0, s => ([], s)
  | n + 1, s =>
    let (first, s) := c.draw s low high
    let (rest, s) := drawMany c low high n s
    (first :: rest, s)

end Choice

end TransactionalPages
