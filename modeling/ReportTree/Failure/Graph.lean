import ReportTree.Failure.Basic

/-!
# Failure graphs

Failures that refer to each other. `Failures.clean` follows the causes of a failure past those that
only repeat their cause. `Failures.account` walks through all that belongs to a failure and takes
each failure up once.

* `Failures.Account.failures`: the failures taken up, in the order of the walk.
-/

namespace ReportTree

/-- The failures that there are. -/
structure Failures where
  items : Array Failure := #[]

namespace Failures

/-- The failure `e`; one without a message if there is none. -/
def get (g : Failures) (e : FailureId) : Failure :=
  g.items[e]?.getD { kind := .named "Exception", arguments := [] }

/-- How many failures there are. -/
def size (g : Failures) : Nat := g.items.size

/-- The cause of `e`. -/
def cause? (g : Failures) (e : FailureId) : Option FailureId := (g.get e).cause?

/-- The failures grouped under `e`. -/
def members (g : Failures) (e : FailureId) : List FailureId := (g.get e).members

/-- What belongs to `e` directly: the failures grouped under it, then its cause. -/
def parts (g : Failures) (e : FailureId) : List FailureId := g.members e ++ (g.cause? e).toList

/-- `e` groups nothing and only repeats its cause `c`. -/
def isWrapperOf (g : Failures) (e c : FailureId) : Bool :=
  (g.members e).isEmpty && (g.get e).repeats (g.get c)

/-- Follows the causes of `e`, past failures that only repeat them, but to none of `visited` and
`steps` of them at most. -/
def cleanFrom (g : Failures) : (steps : Nat) → (visited : List FailureId) → FailureId → FailureId
  | 0, _, e => e
  | steps + 1, visited, e =>
    match g.cause? e with
    | none => e
    | some c =>
      if visited.contains c || !g.isWrapperOf e c then e
      else cleanFrom g steps (c :: visited) c

/-- The first failure on the chain of causes of `e` that does not just repeat its cause. -/
def clean (g : Failures) (e : FailureId) : FailureId := g.cleanFrom g.size [e] e

/-- A failure with all that belongs to it and was not taken up before. -/
inductive Account where
  | of (failure : FailureId) (parts : List Account)

namespace Account

mutual

/-- The failures of an account, each before what belongs to it. -/
def failures : Account → List FailureId
  | of e parts => e :: failuresAll parts

/-- The failures of accounts, one after the other. -/
def failuresAll : List Account → List FailureId
  | [] => []
  | a :: as => failures a ++ failuresAll as

end

end Account

/-- Takes up failures one after the other. -/
def collect (take : List FailureId → FailureId → Option Account × List FailureId) :
    (seen : List FailureId) → List FailureId → List Account × List FailureId
  | seen, [] => ([], seen)
  | seen, e :: es =>
    let (a?, seen) := take seen e
    let (as, seen) := collect take seen es
    (a?.toList ++ as, seen)

/-- Takes up `e` unless it was seen before. What is taken up is `shown e`, with its parts `depth`
levels deep. -/
def accountTo (g : Failures) (shown : FailureId → FailureId) : (depth : Nat) →
    (seen : List FailureId) → FailureId → Option Account × List FailureId
  | 0, seen, _ => (none, seen)
  | depth + 1, seen, e =>
    if seen.contains e then (none, seen)
    else
      let (parts, seen) := collect (accountTo g shown depth) (e :: seen) (g.parts (shown e))
      (some (.of (shown e) parts), seen)

/-- The account of `e`. Every level takes up a failure that was not seen before, so that there are
no more levels than failures. -/
def account (g : Failures) (shown : FailureId → FailureId) (e : FailureId) : Account :=
  ((g.accountTo shown (g.size + 1) [] e).1).getD (.of (shown e) [])

end Failures

end ReportTree
