import ReportTree.Ansi.Sequence

/-!
# Styles

A style is a list of codes, each with a sequence that switches it on and one that switches it off.
A styled text keeps its style where the text itself switches a code off, resets everything or breaks
a line.
-/

namespace ReportTree.Ansi

/-- What a style is made of: the numbers that switch it on and off. -/
structure Code where
  on : Nat
  off : Nat
  deriving DecidableEq

namespace Code

def bold : Code := ⟨1, 22⟩
def dim : Code := ⟨2, 22⟩
def redBright : Code := ⟨91, 39⟩
def yellow : Code := ⟨33, 39⟩
def magenta : Code := ⟨35, 39⟩
def blue : Code := ⟨34, 39⟩
def green : Code := ⟨32, 39⟩
def gray : Code := ⟨90, 39⟩

end Code

/-- The codes of a style, in the order in which they are switched on and off. -/
abbrev Style := List Code

namespace Style

/-- Switches the style on. -/
def opening (s : Style) : Text := s.flatMap fun c => switch c.on

/-- Switches the style off. -/
def closing (s : Style) : Text := s.flatMap fun c => switch c.off

/-- Puts `new` in the place of every `old`, `skip` code points of which are passed over first. -/
def replaceFrom (old new : Text) : (skip : Nat) → Text → Text
  | _, [] => []
  | skip + 1, _ :: t => replaceFrom old new skip t
  | 0, c :: t =>
    if old.isPrefixOf (c :: t) then new ++ replaceFrom old new (old.length - 1) t
    else c :: replaceFrom old new 0 t

/-- Switches a code on again wherever a text switches it off. -/
def reopen (c : Code) (t : Text) : Text :=
  replaceFrom (switch c.off) (switch c.off ++ switch c.on) 0 t

/-- How many code points there are up to the next reset and with it, if there is one on the line. -/
def untilReset? : Text → Option Nat
  | [] => none
  | c :: t =>
    if reset.isPrefixOf (c :: t) then some reset.length
    else if c = '\n' then none
    else (untilReset? t).map (· + 1)

/-- The length of the shortest part of a line that goes from a reset, with which the text begins, to
another. -/
def resetSpan? (t : Text) : Option Nat :=
  if reset.isPrefixOf t then (untilReset? (t.drop reset.length)).map (· + reset.length) else none

/-- Puts `before` and `after` around every part of a line that goes from a reset to the next one;
`open?` code points of such a part are still to come. -/
def aroundResets (before after : Text) : (inside : Nat) → Text → Text
  | _, [] => []
  | 1, c :: t => c :: after ++ aroundResets before after 0 t
  | inside + 1, c :: t => c :: aroundResets before after inside t
  | 0, c :: t =>
    match resetSpan? (c :: t) with
    | some n => before ++ c :: aroundResets before after (n - 1) t
    | none => c :: aroundResets before after 0 t

/-- Puts `before` and `after` around every line break. -/
def aroundBreaks (before after : Text) : Text → Text
  | .scalar '\r' :: .scalar '\n' :: t => before ++ "\r\n" ++ after ++ aroundBreaks before after t
  | .scalar '\n' :: t => before ++ "\n" ++ after ++ aroundBreaks before after t
  | c :: t => c :: aroundBreaks before after t
  | [] => []

/-- The text in a style. -/
def paint (s : Style) (t : Text) : Text :=
  let reopened := if t.contains esc then s.foldl (fun t c => reopen c t) t else t
  let kept := aroundBreaks s.closing s.opening (aroundResets s.closing s.opening 0 reopened)
  s.opening ++ kept ++ s.closing

end Style

end ReportTree.Ansi
