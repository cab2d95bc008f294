/-!
# Output sinks

A sink takes bytes and keeps them. It may hold only so many, and it may fail one flush; both
kinds of failure have a cause, which is a text. Output is written and flushed piece by piece:
`Sink.emit` does both.

Where something is said of every sink, it is said of these: any capacity or none, of which any
part may be used up, any number of the flush that fails or none, and any two causes. A sink of
another kind is left out, such as one that takes bytes again after it has refused some, that fails
several flushes, or whose causes change. A full device is a sink with the capacity zero.
-/

namespace Quaternary

structure Sink where
  /-- How many bytes the sink holds; `none` if there is no bound. -/
  capacity : Option Nat := none
  /-- Why a byte beyond the capacity is refused. -/
  fullCause : String := "failed to write whole buffer"
  /-- Which flush fails, counted from one. -/
  failingFlush : Option Nat := none
  /-- Why that flush fails. -/
  flushCause : String := ""
  written : ByteArray := .empty
  /-- The number of flushes so far, a failed one included. -/
  flushes : Nat := 0

namespace Sink

/-- Keeps as many bytes as fit, and fails if that is not all of them. -/
def write (s : Sink) (bytes : ByteArray) : Except String Unit × Sink :=
  match s.capacity with
  | none => (.ok (), { s with written := s.written ++ bytes })
  | some capacity =>
    let room := capacity - s.written.size
    if bytes.size ≤ room then
      (.ok (), { s with written := s.written ++ bytes })
    else
      (.error s.fullCause, { s with written := s.written ++ bytes.extract 0 room })

def flush (s : Sink) : Except String Unit × Sink :=
  (if s.failingFlush = some (s.flushes + 1) then .error s.flushCause else .ok (),
    { s with flushes := s.flushes + 1 })

/-- Writes a text in UTF-8 and, if that succeeds, flushes. -/
def emit (s : Sink) (text : String) : Except String Unit × Sink :=
  match s.write text.toUTF8 with
  | (.ok _, s') => s'.flush
  | (.error cause, s') => (.error cause, s')

end Sink

end Quaternary
