import HclEdit.Text.Utf8

/-!
Bytes as a shell sees them: characters with codes below 256, one for each byte, whether or not the
bytes are text in any encoding.
-/

namespace HclEdit.Shell

abbrev Octets := List Char

namespace Octets

def ofBytes (bytes : Bytes) : Octets :=
  bytes.map fun byte => Char.ofNat byte.toNat

def toBytes (octets : Octets) : Bytes :=
  octets.map fun c => UInt8.ofNat c.toNat

def ofText (text : Text) : Octets :=
  ofBytes (Text.encode text)

/-- The text that octets spell, as the name of a file or an argument. -/
def toText (octets : Octets) : Text :=
  Text.decodeLossy (toBytes octets)

end Octets

end HclEdit.Shell
