import HclEdit.Text.Basic

/-!
The characters with the Unicode property White_Space, and the trimming and splitting that rest on
them.
-/

namespace HclEdit.Text

def isBlank (c : Char) : Bool :=
  let code := c.toNat
  (0x09 ≤ code && code ≤ 0x0D) || code == 0x20 || code == 0x85 || code == 0xA0 || code == 0x1680 ||
    (0x2000 ≤ code && code ≤ 0x200A) || code == 0x2028 || code == 0x2029 || code == 0x202F ||
    code == 0x205F || code == 0x3000

def trimStart (text : Text) : Text :=
  text.dropWhile isBlank

def trimEnd (text : Text) : Text :=
  (text.reverse.dropWhile isBlank).reverse

def trim (text : Text) : Text :=
  trimEnd (trimStart text)

def isBlankText (text : Text) : Bool :=
  text.all isBlank

def words (text : Text) : List Text :=
  (text.pieces isBlank).filter (! ·.isEmpty)

end HclEdit.Text
