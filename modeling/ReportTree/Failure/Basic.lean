import ReportTree.Failure.Kind
import ReportTree.Text.Numeral

/-!
# Failures

An exception as a report sees it: its class, its arguments, the failures grouped under it, and the
failure that caused it or during which it arose. Failures refer to each other by their place in a
list, so that chains may share failures and may run in circles.
-/

namespace ReportTree

/-- The place of a failure in its list. -/
abbrev FailureId := Nat

/-- An argument of a failure. -/
inductive Failure.Argument where
  | text (t : Text)
  | int (n : Int)
  | bool (b : Bool)
  | none
  deriving DecidableEq

/-- A failure. `members` are the failures grouped under it; `groupMessage` is the message that goes
with them. The failure during which this one arose counts as its cause unless it has a cause or
`contextHidden` is set. -/
structure Failure where
  kind : Failure.Kind
  arguments : List Failure.Argument
  members : List FailureId := []
  groupMessage : Option Text := none
  cause : Option FailureId := none
  context : Option FailureId := none
  contextHidden : Bool := false

namespace Failure

/-- An argument as it stands in a text. -/
def Argument.plain : Argument → Text
  | text t => t
  | int n => Numeral.ofInt n
  | bool b => if b then "True" else "False"
  | none => "None"

/-- An argument as it is shown among others. -/
def Argument.quoted : Argument → Text
  | text t => t.quoted
  | a => a.plain

/-- The error number that an argument may be. -/
def Argument.number? : Argument → Option Int
  | int n => some n
  | bool b => some (if b then 1 else 0)
  | _ => Option.none

/-- Several arguments between parentheses. -/
def tuple (args : List Argument) : Text :=
  "(" ++ Text.join ", " (args.map Argument.quoted) ++ ")"

/-- Arguments without a wording of their own. -/
def plainText : List Argument → Text
  | [] => []
  | [a] => a.plain
  | args => tuple args

/-- An error number, its text and the files concerned, as far as they are given. -/
def systemText : List Argument → Text
  | [n, t] => "[Errno " ++ n.plain ++ "] " ++ t.plain
  | args@(n :: t :: path :: more) =>
    if more.length > 2 then plainText args
    else if path = .none then "[Errno " ++ n.plain ++ "] " ++ t.plain
    else
      let first : Text := "[Errno " ++ n.plain ++ "] " ++ t.plain ++ ": " ++ path.quoted
      match more with
      | [_, other] => if other = .none then first else first ++ " -> " ++ other.quoted
      | _ => first
  | args => plainText args

/-- The arguments without a third one that is a number and what goes with it. -/
def withoutProgress : List Argument → List Argument
  | n :: t :: third :: more =>
    if third.number?.isSome && more.length ≤ 2 then [n, t] else n :: t :: third :: more
  | args => args

/-- The name of a file without the directories in front of it. -/
def fileName (path : Text) : Text := ((Text.splitOn '/' path).getLast?).getD []

/-- The first argument; a text of four or six code points after it names a file with the first of
them. -/
def headlineText : List Argument → Text
  | [] => Argument.none.plain
  | [a, .text t] =>
    if t.length = 4 ∨ t.length = 6 then a.plain ++ " (" ++ fileName (t.take 1) ++ ")" else a.plain
  | a :: _ => a.plain

/-- The part of a text from `first` up to `beyond`, or the code point there if it is only one. -/
def spanText (t : Text) (first beyond : Int) : Text :=
  match if beyond = first + 1 ∧ 0 ≤ first then t[first.toNat]? else none with
  | some c => "character '" ++ Quoted.numbered c ++ "' in position " ++ Numeral.ofInt first
  | none =>
    "characters in position " ++ Numeral.ofInt first ++ "-" ++ Numeral.ofInt (beyond - 1)

/-- Where a text cannot be translated, and why. -/
def untranslatedText : List Argument → Text
  | [.text t, first, beyond, .text reason] =>
    "can't translate " ++ spanText t (first.number?.getD 0) (beyond.number?.getD 0) ++ ": " ++
      reason
  | args => plainText args

/-- Which encoding does not encode which part of a text, and why. -/
def unencodedText : List Argument → Text
  | [.text encoding, .text t, first, beyond, .text reason] =>
    "'" ++ encoding ++ "' codec can't encode " ++
      spanText t (first.number?.getD 0) (beyond.number?.getD 0) ++ ": " ++ reason
  | args => plainText args

/-- The text that arguments make. -/
def Wording.apply : Wording → List Argument → Text
  | plain, args => plainText args
  | keyed, [a] => a.quoted
  | keyed, args => plainText args
  | system, args => systemText args
  | blocked, args => systemText (withoutProgress args)
  | headline, args => headlineText args
  | untranslated, args => untranslatedText args
  | unencoded, args => unencodedText args

/-- The class of a failure with these arguments. -/
def Kind.sortBy (k : Kind) (args : List Argument) : Kind :=
  if k.sorted ∧ 2 ≤ args.length ∧ args.length ≤ 5 then
    match args.head?.bind Argument.number? |>.bind Kind.ofErrorNumber? with
    | some name => .named name
    | none => k
  else k

/-- A failure of a class, with nothing grouped under it and no cause. -/
def make (kind : Kind) (args : List Argument) : Failure :=
  { kind := kind.sortBy args, arguments := args }

/-- The text of a failure by itself. -/
def text (x : Failure) : Text := x.kind.wording.apply x.arguments

/-- `none` for the empty text. -/
def nonempty? (t : Text) : Option Text := if t.isEmpty then none else some t

/-- The message of a failure, if it has one. A failure with others grouped under it may have a
message of its own for the group. -/
def message? (x : Failure) : Option Text :=
  match x.members.isEmpty, x.groupMessage with
  | false, some m => nonempty? m
  | _, _ => nonempty? x.text

/-- The qualified name of the class and the message. -/
def defaultText (x : Failure) : Text :=
  match x.message? with
  | some m => x.kind.fullName ++ ": " ++ m
  | none => x.kind.fullName

/-- What a status tree shows for a failure. -/
def displayText (x : Failure) : Text :=
  if x.kind.presentable then x.text
  else
    match x.message? with
    | some m => x.kind.name ++ ": " ++ m
    | none => x.defaultText

/-- The failure that counts as the cause. -/
def cause? (x : Failure) : Option FailureId :=
  match x.cause with
  | some c => some c
  | none => if x.contextHidden then none else x.context

/-- The message, or the qualified name of the class for a failure without one. -/
def headline (x : Failure) : Text := x.message?.getD x.kind.fullName

/-- `x` says no more than its cause `c`. -/
def repeats (x c : Failure) : Bool :=
  some x.headline == c.message? || x.headline == c.defaultText

end Failure

end ReportTree
