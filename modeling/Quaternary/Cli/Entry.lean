/-!
# Files

A command reads one file, which it finds by a path. `Entry` is what stands at the end of a path, and
`Entry.text` what reading it comes to.
-/

namespace Quaternary.Cli

/-- What is found at a path. -/
inductive Entry where
  | missing
  | directory
  /-- The path goes on beyond a file. -/
  | notADirectory
  | nameTooLong
  | unreadable (cause : String)
  | file (content : ByteArray)

/-- The text of a file, or why there is none. -/
def Entry.text : Entry → Except String String
  | .missing => .error "No such file or directory (os error 2)"
  | .directory => .error "Is a directory (os error 21)"
  | .notADirectory => .error "Not a directory (os error 20)"
  | .nameTooLong => .error "File name too long (os error 36)"
  | .unreadable cause => .error cause
  | .file content =>
    match String.fromUTF8? content with
    | some text => .ok text
    | none => .error "stream did not contain valid UTF-8"

end Quaternary.Cli
