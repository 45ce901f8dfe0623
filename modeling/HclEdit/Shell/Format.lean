import HclEdit.Shell.Arithmetic

/-!
The output of `echo` and `printf`: escapes, and directives that take the next argument.
-/

namespace HclEdit.Shell

def isOctal (c : Char) : Bool :=
  '0' ≤ c && c ≤ '7'

/-- The byte with the number that octal digits spell. -/
def octalByte (digits : Octets) : Char :=
  Char.ofNat (digits.foldl (fun total c => total * 8 + (c.toNat - '0'.toNat)) 0 % 256)

/-- Reads an escape after its backslash, which stands for itself if there is none. -/
def readEscape (text : Octets) : Char × Octets :=
  match text with
  | 'a' :: rest => ('\x07', rest)
  | 'b' :: rest => ('\x08', rest)
  | 'e' :: rest => ('\x1B', rest)
  | 'f' :: rest => ('\x0C', rest)
  | 'n' :: rest => ('\n', rest)
  | 'r' :: rest => ('\r', rest)
  | 't' :: rest => ('\t', rest)
  | 'v' :: rest => ('\x0B', rest)
  | '\\' :: rest => ('\\', rest)
  | _ =>
      let digits := (text.take 3).takeWhile isOctal
      if digits.isEmpty then ('\\', text) else (octalByte digits, text.drop digits.length)

/-- Undoes the escapes of a text, in which octal numbers may have one more zero in front. The second
part tells whether the text asks for all output to stop. -/
def unescape : Nat → Octets → Octets × Bool
  | 0, _ => ([], false)
  | _, [] => ([], false)
  | fuel + 1, '\\' :: rest =>
      match rest with
      | 'c' :: _ => ([], true)
      | _ =>
          let digits :=
            match rest with
            | '0' :: c :: _ => if isOctal c then rest.drop 1 else rest
            | _ => rest
          let (c, left) := readEscape digits
          let (read, stops) := unescape fuel left
          (c :: read, stops)
  | fuel + 1, c :: rest =>
      let (read, stops) := unescape fuel rest
      (c :: read, stops)

def unescaped (text : Octets) : Octets × Bool :=
  unescape (text.length + 1) text

def joinWords : List Octets → Octets :=
  Text.join [' ']

/-- The output of `echo`: its arguments with blanks between them and a line end, unless the first
argument asks for none. -/
def echo (arguments : List Octets) : Octets :=
  let (ending, words) : Octets × List Octets :=
    match arguments with
    | ['-', 'n'] :: rest => ([], rest)
    | _ => (['\n'], arguments)
  write ending words
where
  write (ending : Octets) : List Octets → Octets
    | [] => ending
    | [word] =>
        let (text, stops) := unescaped word
        if stops then text else text ++ ending
    | word :: words =>
        let (text, stops) := unescaped word
        if stops then text else text ++ ' ' :: write ending words

/-! Numbers in a field. -/

/-- The shape of a field: flags, a width and a precision. -/
structure FieldShape where
  flags : Octets
  width : Nat
  precision : Option Nat

namespace FieldShape

def has (field : FieldShape) (flag : Char) : Bool :=
  field.flags.contains flag

/-- A negative width asks for the left margin. -/
def withWidth (field : FieldShape) (width : Int) : FieldShape :=
  if width < 0 then { field with flags := '-' :: field.flags, width := width.natAbs }
  else { field with width := width.toNat }

/-- Fills a text up to the width with blanks. -/
def pad (field : FieldShape) (text : Octets) : Octets :=
  let blanks := List.replicate (field.width - text.length) ' '
  if field.has '-' then text ++ blanks else blanks ++ text

/-- Fills a number up to the width, with zeros after its sign if the field asks for them. -/
def padNumber (field : FieldShape) (zeros : Bool) (sign digits : Octets) : Octets :=
  if zeros && field.has '0' && ! field.has '-' then
    sign ++ List.replicate (field.width - (sign ++ digits).length) '0' ++ digits
  else
    field.pad (sign ++ digits)

def string (field : FieldShape) (text : Octets) : Octets :=
  field.pad (field.precision.elim text text.take)

/-- At least as many digits as the precision asks for; zero has none if it asks for none. -/
def digits (field : FieldShape) (base magnitude : Nat) : Octets :=
  let digits := if magnitude = 0 ∧ field.precision = some 0 then [] else Nat.toDigits base magnitude
  List.replicate (field.precision.getD 1 - digits.length) '0' ++ digits

def signOf (field : FieldShape) (negative : Bool) : Octets :=
  if negative then ['-']
  else if field.has '+' then ['+']
  else if field.has ' ' then [' ']
  else []

def signed (field : FieldShape) (value : Int) : Octets :=
  field.padNumber field.precision.isNone (field.signOf (value < 0)) (field.digits 10 value.natAbs)

/-- A number without a sign in one of four notations. -/
def unsigned (field : FieldShape) (letter : Char) (value : Nat) : Octets :=
  let zeros := field.precision.isNone
  match letter with
  | 'o' =>
      let digits := field.digits 8 value
      let marked := if field.has '#' && digits.head? != some '0' then '0' :: digits else digits
      field.padNumber zeros [] marked
  | 'x' => field.padNumber zeros (if field.has '#' && value != 0 then ['0', 'x'] else [])
      (field.digits 16 value)
  | 'X' => field.padNumber zeros (if field.has '#' && value != 0 then ['0', 'X'] else [])
      ((field.digits 16 value).map Char.toUpper)
  | _ => field.padNumber zeros [] (field.digits 10 value)

end FieldShape

/-! Numbers with a fraction. -/

/-- A binary64 value as a sign and a fraction; nothing stands for a value that is no number. -/
inductive FloatValue where
  | finite (negative : Bool) (numerator denominator : Nat)
  | infinite (negative : Bool)
  | undefined

namespace FloatValue

/-- Takes a binary64 value apart. -/
def ofFloat (negative : Bool) (value : Float) : FloatValue :=
  let bits := value.toBits.toNat
  let exponent := (bits >>> 52) % 2048
  let fraction := bits % (1 <<< 52)
  if exponent = 2047 then (if fraction = 0 then infinite negative else undefined)
  else if exponent = 0 then finite negative fraction (1 <<< 1074)
  else
    let significand := (1 <<< 52) + fraction
    if 1075 ≤ exponent then finite negative (significand <<< (exponent - 1075)) 1
    else finite negative significand (1 <<< (1075 - exponent))

/-- A quotient rounded to the nearest whole number, and to the even one of two. -/
def roundQuotient (numerator denominator : Nat) : Nat :=
  let whole := numerator / denominator
  let twice := 2 * (numerator % denominator)
  if denominator < twice ∨ (twice = denominator ∧ whole % 2 = 1) then whole + 1 else whole

/-- Digits with so many of them after the point. -/
def placed (point : Bool) (places : Nat) (digits : Nat) : Octets :=
  let text := Text.decimal digits
  let text := List.replicate (places + 1 - text.length) '0' ++ text
  let whole := text.take (text.length - places)
  if places = 0 then (if point then whole ++ ['.'] else whole)
  else whole ++ '.' :: text.drop (text.length - places)

/-- The power of ten that a positive fraction reaches. -/
def magnitude (numerator denominator : Nat) : Int :=
  let guess : Int := (Text.decimal numerator).length - (Text.decimal denominator).length
  let reaches (power : Int) : Bool :=
    denominator * Nat.pow 10 power.toNat ≤ numerator * Nat.pow 10 (-power).toNat
  if reaches guess then guess else guess - 1

/-- The digits of a fraction in scientific notation, and its power of ten after rounding. -/
def scientific (places numerator denominator : Nat) : Nat × Int :=
  if numerator = 0 then (0, 0)
  else
    let power := magnitude numerator denominator
    let shift : Int := places - power
    let digits := roundQuotient (numerator * Nat.pow 10 shift.toNat)
      (denominator * Nat.pow 10 (-shift).toNat)
    if digits = Nat.pow 10 (places + 1) then (Nat.pow 10 places, power + 1) else (digits, power)

def exponentText (power : Int) : Octets :=
  let digits := Text.decimal power.natAbs
  (if power < 0 then '-' else '+') :: (List.replicate (2 - digits.length) '0' ++ digits)

def inScientific (point : Bool) (places numerator denominator : Nat) : Octets :=
  let (digits, power) := scientific places numerator denominator
  placed point places digits ++ 'e' :: exponentText power

def inFixed (point : Bool) (places numerator denominator : Nat) : Octets :=
  placed point places (roundQuotient (numerator * Nat.pow 10 places) denominator)

/-- A number without the zeros at the end of its fraction. -/
def withoutZeros (text : Octets) : Octets :=
  if text.contains '.' then
    let trimmed := text.reverse.dropWhile (· == '0')
    (if trimmed.head? = some '.' then trimmed.drop 1 else trimmed).reverse
  else text

/-- The shorter of the two notations, with so many digits in all. -/
def inGeneral (point : Bool) (count numerator denominator : Nat) : Octets :=
  let count := max count 1
  let (digits, power) := scientific (count - 1) numerator denominator
  let trim := if point then id else withoutZeros
  if power < -4 ∨ (count : Int) ≤ power then
    trim (placed point (count - 1) digits) ++ 'e' :: exponentText power
  else
    trim (inFixed point (count - 1 - power).toNat numerator denominator)

def digits (field : FieldShape) (letter : Char) (numerator denominator : Nat) : Octets :=
  let places := field.precision.getD 6
  let point := field.has '#'
  match letter.toLower with
  | 'e' => inScientific point places numerator denominator
  | 'f' => inFixed point places numerator denominator
  | _ => inGeneral point places numerator denominator

/-- A number by its hexadecimal digits and the power of two that they are multiplied with. -/
def inHexadecimal (field : FieldShape) (numerator denominator : Nat) : Octets :=
  if numerator = 0 then
    withFraction 0 (List.replicate (field.precision.getD 0) '0') 0
  else
    let guess : Int := (Nat.log2 numerator : Int) - Nat.log2 denominator
    let reaches : Bool :=
      denominator <<< guess.toNat ≤ numerator <<< (-guess).toNat
    let power := max (if reaches then guess else guess - 1) (-1022)
    let places := field.precision.getD 13
    let total := roundQuotient (numerator <<< (4 * places + (-power).toNat))
      (denominator <<< power.toNat)
    let digits := Nat.toDigits 16 (total % (1 <<< (4 * places)))
    let fraction := if places = 0 then []
      else List.replicate (places - digits.length) '0' ++ digits
    let shown := if field.precision.isSome then fraction
      else (fraction.reverse.dropWhile (· == '0')).reverse
    withFraction (total >>> (4 * places)) shown power
where
  withFraction (whole : Nat) (fraction : Octets) (power : Int) : Octets :=
    let point := if fraction.isEmpty && ! field.has '#' then [] else ['.']
    Text.decimal whole ++ point ++ fraction ++
      'p' :: (if power < 0 then '-' else '+') :: Text.decimal power.natAbs

def format (field : FieldShape) (letter : Char) (value : FloatValue) : Octets :=
  let text :=
    match value with
    | undefined => field.pad (field.signOf false ++ "nan".toList)
    | infinite negative => field.pad (field.signOf negative ++ "inf".toList)
    | finite negative numerator denominator =>
        if letter.toLower = 'a' then
          field.padNumber true (field.signOf negative ++ ['0', 'x'])
            (inHexadecimal field numerator denominator)
        else
          field.padNumber true (field.signOf negative) (digits field letter numerator denominator)
  if letter.isUpper then text.map Char.toUpper else text

/-- Numbers below this one have fewer digits. -/
def smallestNormal : Float :=
  Float.ofScientific 1 false 0 / Float.ofScientific (1 <<< 1022) false 0

/-- Reads a decimal number at the front of a text, and tells what follows and whether its magnitude
is out of range. -/
def take (text : Octets) : FloatValue × Octets × Bool :=
  let (sign, unsigned) := Text.takeSign (text.dropWhile Arithmetic.isSpace)
  let negative := sign = ['-']
  let lowered := unsigned.map Char.toLower
  let after (word : String) : Bool := word.toList.isPrefixOf lowered
  if after "infinity" then (infinite negative, unsigned.drop 8, false)
  else if after "inf" then (infinite negative, unsigned.drop 3, false)
  else if after "nan" then (undefined, unsigned.drop 3, false)
  else
    let (whole, rest) := unsigned.span isDigit
    let (fraction, rest) :=
      match rest with
      | '.' :: more =>
          let (fraction, left) := more.span isDigit
          if whole.isEmpty && fraction.isEmpty then ([], rest) else (fraction, left)
      | _ => ([], rest)
    if whole.isEmpty && fraction.isEmpty then
      (finite false 0 1, text, false)
    else
      let (exponent, left) : Int × Octets :=
        match rest with
        | mark :: more =>
            let (sign, digits) := Text.takeSign more
            let (digits, left) := digits.span isDigit
            if (mark == 'e' || mark == 'E') && ! digits.isEmpty then
              let power : Int := (Text.natural? digits).getD 0
              (if sign = ['-'] then -power else power, left)
            else (0, rest)
        | [] => (0, [])
      let digits := (Text.natural? (whole ++ fraction)).getD 0
      let power := exponent - fraction.length
      let value : Float :=
        if digits = 0 then 0.0 else Float.ofScientific digits (power < 0) power.natAbs
      (ofFloat negative value, left, digits ≠ 0 ∧ (value < smallestNormal || value.isInf))

end FloatValue

/-! Directives. -/

/-- The state of `printf`: the arguments that are left, what has been printed, and what has been
said about arguments that are no numbers. -/
structure Printing where
  arguments : List Octets
  output : List Octets
  warnings : List Octets
deriving Inhabited

inductive PrintStop where
  | stopped
  | failed (message : Octets)

abbrev Print := ExceptT PrintStop (StateM Printing)

namespace Print

def put (text : Octets) : Print Unit :=
  modify fun printing => { printing with output := text :: printing.output }

def warn (text : Octets) (reason : String) : Print Unit :=
  modify fun printing =>
    { printing with warnings := (text ++ ": ".toList ++ reason.toList) :: printing.warnings }

def argument? : Print (Option Octets) := do
  let printing ← get
  set { printing with arguments := printing.arguments.drop 1 }
  return printing.arguments.head?

/-- Says what is wrong with a number of which some text is left over. -/
def check (text left : Octets) (outOfRange : Bool) : Print Unit :=
  if ! left.isEmpty then
    warn text (if left = text then "expected numeric value" else "not completely converted")
  else if outOfRange then
    warn text "Numerical result out of range"
  else
    return

/-- The byte after a quote, as a number. -/
def quotedByte? : Octets → Option Nat
  | c :: rest => if c = '"' ∨ c = '\'' then some ((rest.head?.map Char.toNat).getD 0) else none
  | [] => none

/-- The next argument as an integer before it is fitted into 64 bits. -/
def integer (fit : Int → Int) : Print Int := do
  match ← argument? with
  | none => return 0
  | some text =>
      match quotedByte? text with
      | some byte => return byte
      | none =>
          let (value, left) := Arithmetic.takeInteger text
          check text left (fit value ≠ value)
          return fit value

def fitUnsigned (value : Int) : Int :=
  let limit : Int := UInt64.size - 1
  max (-limit) (min value limit)

def natural : Print Nat := do
  return ((← integer fitUnsigned) % UInt64.size).toNat

def real : Print FloatValue := do
  match ← argument? with
  | none => return .finite false 0 1
  | some text =>
      match quotedByte? text with
      | some byte => return .finite false byte 1
      | none =>
          let (value, left, outOfRange) := FloatValue.take text
          check text left outOfRange
          return value

def isFlag (c : Char) : Bool :=
  ['#', '-', '+', ' ', '0'].contains c

/-- Reads a number of a directive, which may be taken from the arguments. -/
def readCount (text : Octets) : Print (Option Int × Octets) := do
  match text with
  | '*' :: rest => return (some (← integer Arithmetic.saturate), rest)
  | _ =>
      let (digits, rest) := text.span isDigit
      return ((Text.natural? digits).map Int.ofNat, rest)

/-- Reads the field of a directive. -/
def readField (text : Octets) : Print (FieldShape × Octets) := do
  let (flags, rest) := text.span isFlag
  let (width, rest) ← readCount rest
  let field := (⟨flags, 0, none⟩ : FieldShape).withWidth (width.getD 0)
  match rest with
  | '.' :: rest =>
      let (precision, left) ← readCount rest
      let count := precision.getD 0
      return ({ field with precision := if count < 0 then none else some count.toNat }, left)
  | _ => return (field, rest)

def conversion (field : FieldShape) (letter : Char) (written : Octets) : Print Unit := do
  match letter with
  | 'b' =>
      let (text, stops) := unescaped ((← argument?).getD [])
      put (field.string text)
      if stops then
        throw .stopped
  | 'c' => put (field.pad [((← argument?).bind List.head?).getD '\x00'])
  | 's' => put (field.string ((← argument?).getD []))
  | 'd' | 'i' => put (field.signed (← integer Arithmetic.saturate))
  | 'o' | 'u' | 'x' | 'X' => put (field.unsigned letter (← natural))
  | 'a' | 'A' | 'e' | 'E' | 'f' | 'F' | 'g' | 'G' => put (FloatValue.format field letter (← real))
  | _ => throw (.failed (written ++ ": invalid directive".toList))

/-- Goes through a format once. -/
def once : Nat → Octets → Print Unit
  | 0, _ => return
  | fuel + 1, text => do
      match text with
      | [] => return
      | '\\' :: rest =>
          let (c, left) := readEscape rest
          put [c]
          once fuel left
      | '%' :: '%' :: rest =>
          put ['%']
          once fuel rest
      | '%' :: rest =>
          let (field, left) ← readField rest
          match left with
          | [] => throw (.failed "missing format character".toList)
          | letter :: after =>
              conversion field letter ('%' :: rest.take (rest.length - after.length))
              once fuel after
      | c :: rest =>
          put [c]
          once fuel rest

/-- Uses a format again as long as it takes arguments and some are left. -/
def repeated (format : Octets) : Nat → Print Unit
  | 0 => return
  | fuel + 1 => do
      let count := (← get).arguments.length
      once (format.length + 1) format
      let left := (← get).arguments.length
      if left < count ∧ left ≠ 0 then
        repeated format fuel

end Print

/-- What `printf` writes, what it says about its arguments, and the message it gives up with. -/
def printf (format : Octets) (arguments : List Octets) :
    Octets × List Octets × Option Octets :=
  let (outcome, printing) :=
    (Print.repeated format (arguments.length + 1)).run ⟨arguments, [], []⟩
  let failure :=
    match outcome with
    | .error (.failed message) => some message
    | _ => none
  (printing.output.reverse.flatten, printing.warnings.reverse, failure)

end HclEdit.Shell
