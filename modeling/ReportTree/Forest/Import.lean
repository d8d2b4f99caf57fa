import ReportTree.Failure.Graph
import ReportTree.Forest.Outline

/-!
# Failures in a tree

A failure is shown as a node with the level `error`; the nodes of what belongs to it stand below it.
The first line of its text is the name of the node, the other lines are markup below it.

* `addChildren_eq`, `addAccount_of`, `addAccounts_cons`: the nodes, made by raising them.
-/

namespace ReportTree.Forest

/-- The lines of a text, without the empty ones at the end; the first line stays in any case. -/
def messageLines (t : Text) : Text × List Text :=
  match Text.splitOn '\n' t with
  | [] => ([], [])
  | line :: lines => (line, (lines.reverse.dropWhile List.isEmpty).reverse)

section

variable {m : Type → Type} [Monad m] (give : Forest → NodeId → Level → m Forest)

/-- Makes the nodes of lines of markup below `i`, and gives them their levels. -/
def addChildrenBy (i : NodeId) : Forest → List Text → m Forest
  | f, [] => pure f
  | f, line :: lines => do
    let (_, f) ← addChildBy give f i line
    addChildrenBy i f lines

/-- Makes the node of one failure below `i`, and gives it and the nodes below it their levels. -/
def addFailureBy (f : Forest) (i : NodeId) (x : Failure) : m (NodeId × Forest) := do
  let (line, lines) := messageLines x.displayText
  let (c, f) := f.addBelow i { name := line }
  let f ← give f c .error
  (c, ·) <$> addChildrenBy give c (f.expand c) lines

mutual

/-- Makes the nodes of an account below `i`, and gives them their levels. -/
def addAccountBy (f : Forest) (g : Failures) (i : NodeId) : Failures.Account → m (NodeId × Forest)
  | .of e parts => do
    let (c, f) ← addFailureBy give f i (g.get e)
    (c, ·) <$> addAccountsBy f g c parts

/-- Makes the nodes of accounts below `i`, and gives them their levels. -/
def addAccountsBy (f : Forest) (g : Failures) (i : NodeId) : List Failures.Account → m Forest
  | [] => pure f
  | a :: as => do
    let (_, f) ← addAccountBy f g i a
    addAccountsBy f g i as

end

end

/-- Makes the nodes of lines of markup below `i`. -/
def addChildren (i : NodeId) (f : Forest) (lines : List Text) : Forest :=
  (addChildrenBy giveByRaise i f lines).run

/-- Makes the node of one failure below `i`. -/
def addFailure (f : Forest) (i : NodeId) (x : Failure) : NodeId × Forest :=
  (addFailureBy giveByRaise f i x).run

/-- Makes the nodes of an account below `i`. -/
def addAccount (f : Forest) (g : Failures) (i : NodeId) (a : Failures.Account) : NodeId × Forest :=
  (addAccountBy giveByRaise f g i a).run

/-- Makes the nodes of accounts below `i`. -/
def addAccounts (f : Forest) (g : Failures) (i : NodeId) (as : List Failures.Account) : Forest :=
  (addAccountsBy giveByRaise f g i as).run

theorem addChildren_cons (i : NodeId) (f : Forest) (line : Text) (lines : List Text) :
    addChildren i f (line :: lines) = addChildren i (f.addChild i line).2 lines := by
  have hadd : addChildBy giveByRaise f i line = pure (f.addChild i line) := rfl
  rw [addChildren, addChildrenBy, hadd, pure_bind, addChildren]

theorem addChildren_eq (i : NodeId) (f : Forest) (lines : List Text) :
    addChildren i f lines = lines.foldl (fun f line => (f.addChild i line).2) f := by
  induction lines generalizing f with
  | nil => rfl
  | cons line lines ih =>
    rw [addChildren_cons, List.foldl_cons, ← ih]

theorem addAccount_of (f : Forest) (g : Failures) (i : NodeId) (e : FailureId)
    (parts : List Failures.Account) :
    f.addAccount g i (.of e parts) =
      let (c, f) := f.addFailure i (g.get e)
      (c, f.addAccounts g c parts) := rfl

theorem addAccounts_cons (f : Forest) (g : Failures) (i : NodeId) (a : Failures.Account)
    (as : List Failures.Account) :
    f.addAccounts g i (a :: as) = (f.addAccount g i a).2.addAccounts g i as := rfl

/-- Shows the failure `e` and all that belongs to it below `i`. -/
def addException (f : Forest) (g : Failures) (i : NodeId) (e : FailureId) : NodeId × Forest :=
  f.addAccount g i (g.account id e)

/-- Shows the failure `e` and all that belongs to it below `i`, without failures that only repeat
their cause. -/
def addCleanedException (f : Forest) (g : Failures) (i : NodeId) (e : FailureId) :
    NodeId × Forest :=
  f.addAccount g i (g.account g.clean e)

end ReportTree.Forest
