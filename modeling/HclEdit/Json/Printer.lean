import HclEdit.Json.Basic

/-!
Writing JSON text, on one line or with two spaces to a level. Characters outside ASCII are written
as they are.
-/

namespace HclEdit.Json

def hexDigit (n : Nat) : Char :=
  (Nat.toDigits 16 n).headD '0'

def escape (c : Char) : Text :=
  if c == '"' then ['\\', '"']
  else if c == '\\' then ['\\', '\\']
  else if c == '\x08' then ['\\', 'b']
  else if c == '\x0C' then ['\\', 'f']
  else if c == '\n' then ['\\', 'n']
  else if c == '\r' then ['\\', 'r']
  else if c == '\t' then ['\\', 't']
  else if c.toNat < 0x20 then
    ['\\', 'u', '0', '0', hexDigit (c.toNat / 16), hexDigit (c.toNat % 16)]
  else [c]

def quote (text : Text) : Text :=
  '"' :: (text.flatMap escape ++ ['"'])

/-- A string with an escape for half of a surrogate pair. -/
def halfPair : Text :=
  "\"\\ud800\"".toList

def printInteger : Int → Text
  | .ofNat n => Text.decimal n
  | .negSucc n => '-' :: Text.decimal (n + 1)

mutual

def compact : Json → Text
  | .null => ['n', 'u', 'l', 'l']
  | .bool true => ['t', 'r', 'u', 'e']
  | .bool false => ['f', 'a', 'l', 's', 'e']
  | .integer value => printInteger value
  | .real literal => literal
  | .string value => quote value.toList
  | .undecodable => halfPair
  | .array items => '[' :: (compactItems items ++ [']'])
  | .object members => '\x7b' :: (compactMembers members ++ ['\x7d'])

def compactItems : List Json → Text
  | [] => []
  | [item] => item.compact
  | item :: items => item.compact ++ ',' :: compactItems items

def compactMembers : List (String × Json) → Text
  | [] => []
  | [(key, value)] => quote key.toList ++ ':' :: value.compact
  | (key, value) :: members =>
      quote key.toList ++ ':' :: (value.compact ++ ',' :: compactMembers members)

end

def newLine (level : Nat) : Text :=
  '\n' :: List.replicate (2 * level) ' '

mutual

def prettyAt (level : Nat) : Json → Text
  | .array [] => ['[', ']']
  | .object [] => ['\x7b', '\x7d']
  | .array items => '[' :: (prettyItems (level + 1) items ++ newLine level ++ [']'])
  | .object members => '\x7b' :: (prettyMembers (level + 1) members ++ newLine level ++ ['\x7d'])
  | .null => ['n', 'u', 'l', 'l']
  | .bool true => ['t', 'r', 'u', 'e']
  | .bool false => ['f', 'a', 'l', 's', 'e']
  | .integer value => printInteger value
  | .real literal => literal
  | .string value => quote value.toList
  | .undecodable => halfPair

def prettyItems (level : Nat) : List Json → Text
  | [] => []
  | [item] => newLine level ++ item.prettyAt level
  | item :: items => newLine level ++ item.prettyAt level ++ ',' :: prettyItems level items

def prettyMembers (level : Nat) : List (String × Json) → Text
  | [] => []
  | [(key, value)] => newLine level ++ quote key.toList ++ ':' :: ' ' :: value.prettyAt level
  | (key, value) :: members =>
      newLine level ++ quote key.toList ++
        ':' :: ' ' :: (value.prettyAt level ++ ',' :: prettyMembers level members)

end

def pretty (json : Json) : Text :=
  json.prettyAt 0

end HclEdit.Json
