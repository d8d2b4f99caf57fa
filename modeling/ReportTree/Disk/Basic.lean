import ReportTree.Disk.Path
import ReportTree.Text.Lines
import ReportTree.Text.Quoted
import ReportTree.Text.Numeral
import ReportTree.Text.Utf8

/-!
# The disk

What a command can read: the files and directories that stand at paths. The text of a file is UTF-8
with any kind of line break.
-/

namespace ReportTree

/-- Why a text is no path. -/
inductive Path.Flaw where
  /-- It holds a zero. -/
  | zero
  /-- It has no bytes. -/
  | unencodable (halves : Utf8.Unencodable)
  deriving DecidableEq

/-- What stands at a path. -/
inductive Disk.Found where
  | file (bytes : List UInt8)
  | directory
  /-- Nothing. -/
  | missing
  /-- Nothing, because a part of the path that should be a directory is a file. -/
  | blocked
  /-- Nothing, because the path or a part of it has too many bytes. -/
  | tooLong
  /-- The text is no path. -/
  | invalid (flaw : Path.Flaw)

/-- What stands at every path. -/
abbrev Disk := Text → Disk.Found

namespace Disk

/-- Why a path cannot be opened as a file. -/
inductive OpenError where
  | missing | blocked | directory | tooLong
  deriving DecidableEq

/-- Why a file is not read. -/
inductive ReadError where
  | closed (e : OpenError)
  | invalidPath (flaw : Path.Flaw)
  | notUtf8 (fault : Utf8.Fault)
  deriving DecidableEq

/-- The number and the wording of an error. -/
def OpenError.description : OpenError → Text
  | missing => "[Errno 2] No such file or directory"
  | blocked => "[Errno 20] Not a directory"
  | directory => "[Errno 21] Is a directory"
  | tooLong => "[Errno 36] File name too long"

/-- The message about a path that cannot be opened. -/
def OpenError.message (e : OpenError) (path : Text) : Text := e.description ++ ": " ++ path.quoted

/-- Whether a file stands at a path. -/
def isFile (d : Disk) (path : Text) : Bool :=
  match d path with
  | .file _ => true
  | _ => false

/-- The text of the file at a path. -/
def readText (d : Disk) (path : Text) : Except ReadError Text :=
  match d path with
  | .file bytes =>
    match Utf8.decode bytes with
    | .ok t => .ok t.unifyNewlines
    | .error fault => .error (.notUtf8 fault)
  | .directory => .error (.closed .directory)
  | .missing => .error (.closed .missing)
  | .blocked => .error (.closed .blocked)
  | .tooLong => .error (.closed .tooLong)
  | .invalid flaw => .error (.invalidPath flaw)

end Disk

namespace Utf8

/-- The wording of a flaw. -/
def Flaw.description : Flaw → Text
  | invalidStart => "invalid start byte"
  | invalidContinuation => "invalid continuation byte"
  | unexpectedEnd => "unexpected end of data"

/-- The message about bytes that are no text. -/
def Fault.message (f : Fault) : Text :=
  let subject : Text :=
    if f.stop = f.start + 1 then
      "byte 0x" ++ hexDigits 2 f.lead.toNat ++ " in position " ++ Numeral.ofNat f.start
    else
      "bytes in position " ++ Numeral.ofNat f.start ++ "-" ++ Numeral.ofNat (f.stop - 1)
  "'utf-8' codec can't decode " ++ subject ++ ": " ++ f.flaw.description

/-- The message about a text with halves of surrogate pairs, which has no bytes. -/
def Unencodable.message (u : Unencodable) (t : Text) : Text :=
  let subject : Text :=
    if u.stop = u.start + 1 then
      "character '\\u" ++ hexDigits 4 (t.getD u.start ' ').toNat ++ "' in position " ++
        Numeral.ofNat u.start
    else
      "characters in position " ++ Numeral.ofNat u.start ++ "-" ++ Numeral.ofNat (u.stop - 1)
  "'utf-8' codec can't encode " ++ subject ++ ": surrogates not allowed"

end Utf8

/-- The message about a text that is no path. -/
def Path.Flaw.message (flaw : Path.Flaw) (path : Text) : Text :=
  match flaw with
  | zero => "embedded null byte"
  | unencodable halves => halves.message path

end ReportTree
