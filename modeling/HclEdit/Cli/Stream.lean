import HclEdit.Text.Utf8

/-!
Output streams. A stream may accept a limited number of bytes; a write beyond that leaves what still
fits and fails.
-/

namespace HclEdit.Cli

structure Stream where
  limit : Option Nat
  written : Bytes
deriving DecidableEq

namespace Stream

def unlimited : Stream :=
  ⟨none, []⟩

def closed : Text :=
  "stream closed".toList

def fits (stream : Stream) (bytes : Bytes) : Bool :=
  stream.limit.all (stream.written.length + bytes.length ≤ ·)

/-- Writes a text, and tells why not all of it was accepted if so. -/
def write (stream : Stream) (text : Text) : Stream × Option Text :=
  let bytes := Text.encode text
  if stream.fits bytes then
    ({ stream with written := stream.written ++ bytes }, none)
  else
    let room := stream.limit.getD 0 - stream.written.length
    ({ stream with written := stream.written ++ bytes.take room }, some closed)

end Stream

end HclEdit.Cli
