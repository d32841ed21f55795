import PiFrame.DoubleText

/-!
# cJSON

The tree that cJSON keeps, `cJSON_Print` and `cJSON_Parse`.  The parser reads
what the printer wrote and leaves everything behind it alone, which is what
allows a file to carry a line after its document.

A number is kept as a `double` and printed from it, so its text does not come back as
it was.  The configuration writers make no numbers; a file may have some all the same.
The end of a text stands for the terminating NUL: a text is cut at its first NUL before
it is parsed.
-/

namespace CJson

open ByteText DoubleText

mutual

/-- A cJSON item by its type.  Arrays and objects own the chain of their children. -/
inductive Node
  | null
  | false
  | true
  | number (valuedouble : Float.Model)
  | string (valuestring : Text)
  | array (child : Items)
  | object (child : Members)

inductive Items
  | nil
  | cons (item : Node) (next : Items)

/-- The children of an object have their name in `string`. -/
inductive Members
  | nil
  | cons (string : Text) (item : Node) (next : Members)

end

def Items.ofList : List Node → Items
  | [] => .nil
  | item :: rest => .cons item (Items.ofList rest)

def Items.toList : Items → List Node
  | .nil => []
  | .cons item next => item :: next.toList

/-- The entries of an array, as a list, are the list. -/
@[simp] theorem Items.toList_ofList (items : List Node) : (Items.ofList items).toList = items := by
  induction items with
  | nil => rfl
  | cons item rest ih => simp [Items.ofList, Items.toList, ih]

def Members.ofList : List (Text × Node) → Members
  | [] => .nil
  | member :: rest => .cons member.1 member.2 (Members.ofList rest)

/-! ## Printing -/

/-- `%04x` of a byte. -/
def hex4 (n : Nat) : Text :=
  [(n / 4096 % 16).digitChar, (n / 256 % 16).digitChar, (n / 16 % 16).digitChar,
    (n % 16).digitChar]

/-- What `print_string_ptr` puts behind the backslash. -/
def escapeToken (c : Char) : Text :=
  match c with
  | '\x5c' => ['\x5c']
  | '\x22' => ['\x22']
  | '\x08' => ['b']
  | '\x0c' => ['f']
  | '\x0a' => ['n']
  | '\x0d' => ['r']
  | '\x09' => ['t']
  | c => 'u' :: hex4 c.toNat

/-- The bytes that JSON escapes. -/
def isEscaped (c : Char) : Bool := c.toNat ≤ 31 || c = '\x22' || c = '\x5c'

def escapeByte (c : Char) : Text :=
  if isEscaped c then '\x5c' :: escapeToken c else [c]

/-- The inside of a printed string. -/
def escape (str : Text) : Text := str.flatMap escapeByte

/-- `print_string_ptr`. -/
def printString (str : Text) : Text := '\x22' :: (escape str ++ ['\x22'])

/-- `DBL_EPSILON`. -/
def dblEpsilon : Float.Model :=
  .pack (Float.Model.UnpackedFloat.round .binary64 .positive 1 (-52))

/-- `print_number`: as an integer if it is one of type `int`.  What `valueint` is for a
number outside of that type makes no difference. -/
def printNumber (d : Float.Model) : Text :=
  let valueint := d.toInt32
  if (.ofInt32 valueint - d).abs ≤ dblEpsilon ∧ d ≤ .ofInt 2147483647 ∧
      .ofInt (-2147483648) ≤ d then
    signedDecimal valueint.toInt
  else if (floor d - d).abs ≤ dblEpsilon ∧ d.abs < pow10 60 then printed (fixed 0) d
  else if d.abs < pow10 (-6) ∨ pow10 9 < d.abs then printed scientific d
  else printed (fixed 6) d

def tabs (n : Nat) : Text := List.replicate n '\t'

/-- What the formatted output has and the unformatted one does not. -/
def blank (fmt : Bool) (t : Text) : Text := if fmt then t else []

mutual

/-- `print_value`. -/
def printValue (depth : Nat) (fmt : Bool) : Node → Text
  | .null => "null".toList
  | .false => "false".toList
  | .true => "true".toList
  | .number valuedouble => printNumber valuedouble
  | .string valuestring => printString valuestring
  | .array child => '[' :: printItems (depth + 1) fmt child
  | .object .nil => '\x7b' :: (blank fmt ('\n' :: tabs (depth - 1)) ++ ['\x7d'])
  | .object (.cons string item next) =>
      '\x7b' :: (blank fmt ['\n'] ++ printMembers (depth + 1) fmt (.cons string item next))

/-- The entries of `print_array` and its closing bracket. -/
def printItems (depth : Nat) (fmt : Bool) : Items → Text
  | .nil => [']']
  | .cons item .nil => printValue depth fmt item ++ [']']
  | .cons item (.cons item' next) =>
      printValue depth fmt item ++ (',' :: (blank fmt [' ']
        ++ printItems depth fmt (.cons item' next)))

/-- The entries of `print_object` and its closing brace. -/
def printMembers (depth : Nat) (fmt : Bool) : Members → Text
  | .nil => []
  | .cons string item .nil =>
      blank fmt (tabs depth) ++ (printString string ++ (':' :: (blank fmt ['\t']
        ++ (printValue depth fmt item ++ (blank fmt ('\n' :: tabs (depth - 1)) ++ ['\x7d'])))))
  | .cons string item (.cons string' item' next) =>
      blank fmt (tabs depth) ++ (printString string ++ (':' :: (blank fmt ['\t']
        ++ (printValue depth fmt item ++ (',' :: (blank fmt ['\n']
          ++ printMembers depth fmt (.cons string' item' next)))))))

end

/-- `cJSON_Print`. -/
def cJsonPrint (item : Node) : Text := printValue 0 true item

/-- `cJSON_PrintUnformatted`. -/
def cJsonPrintUnformatted (item : Node) : Text := printValue 0 false item

/-! ## Parsing -/

/-- `skip`: white space and every other byte up to 32. -/
def skip (t : Text) : Text := t.dropWhile fun c => c.toNat ≤ 32

/-- The value of a hexadecimal digit. -/
def hexValue (c : Char) : Option Nat :=
  if '0' ≤ c ∧ c ≤ '9' then some (c.toNat - 48)
  else if 'A' ≤ c ∧ c ≤ 'F' then some (c.toNat - 55)
  else if 'a' ≤ c ∧ c ≤ 'f' then some (c.toNat - 87)
  else none

/-- `parse_hex4`: 0 when one of the four bytes is no digit. -/
def parseHex4 (t : Text) : Nat :=
  match t.take 4 |>.mapM hexValue with
  | some [a, b, c, d] => ((a * 16 + b) * 16 + c) * 16 + d
  | _ => 0

/-- The UTF-8 bytes of a code point. -/
def utf8 (uc : Nat) : Text :=
  if uc < 0x80 then [Char.ofNat uc]
  else if uc < 0x800 then [Char.ofNat (0xC0 + uc / 64), Char.ofNat (0x80 + uc % 64)]
  else if uc < 0x10000 then
    [Char.ofNat (0xE0 + uc / 4096), Char.ofNat (0x80 + uc / 64 % 64), Char.ofNat (0x80 + uc % 64)]
  else
    [Char.ofNat (0xF0 + uc / 262144), Char.ofNat (0x80 + uc / 4096 % 64),
      Char.ofNat (0x80 + uc / 64 % 64), Char.ofNat (0x80 + uc % 64)]

/-- The escape `u`: the bytes it stands for and how many bytes behind the `u`
it takes, for the text behind the `u`. -/
def unicodeEscape (t : Text) : Text × Nat :=
  let uc := parseHex4 t
  if (0xDC00 ≤ uc ∧ uc ≤ 0xDFFF) ∨ uc = 0 then ([], 4)
  else if 0xD800 ≤ uc ∧ uc ≤ 0xDBFF then
    -- a surrogate pair, or half of one
    if t.drop 4 |>.take 2 |> (· = ['\x5c', 'u']) then
      let uc2 := parseHex4 (t.drop 6)
      if uc2 < 0xDC00 ∨ 0xDFFF < uc2 then ([], 10)
      else (utf8 (0x10000 + (uc % 1024 * 1024 + uc2 % 1024)), 10)
    else ([], 4)
  else (utf8 uc, 4)

/-- The loop of `parse_string` behind the opening quote: the string, and the
text behind the closing one.  The first argument counts the bytes of an escape
that are still to be passed over. -/
def unescape : Nat → Text → Text × Text
  | _, [] => ([], [])
  | pending + 1, _ :: rest => unescape pending rest
  | 0, '\x22' :: rest => ([], rest)
  | 0, '\x5c' :: rest =>
      match rest with
      | [] => ([], [])
      | 'b' :: _ => let r := unescape 1 rest; ('\x08' :: r.1, r.2)
      | 'f' :: _ => let r := unescape 1 rest; ('\x0c' :: r.1, r.2)
      | 'n' :: _ => let r := unescape 1 rest; ('\x0a' :: r.1, r.2)
      | 'r' :: _ => let r := unescape 1 rest; ('\x0d' :: r.1, r.2)
      | 't' :: _ => let r := unescape 1 rest; ('\x09' :: r.1, r.2)
      | 'u' :: hex =>
          let u := unicodeEscape hex
          let r := unescape (u.2 + 1) rest
          (u.1 ++ r.1, r.2)
      | c :: _ => let r := unescape 1 rest; (c :: r.1, r.2)
  | 0, c :: rest => let r := unescape 0 rest; (c :: r.1, r.2)

/-- `parse_string`. -/
def parseString : Text → Option (Text × Text)
  | '\x22' :: rest => some (unescape 0 rest)
  | _ => none

/-- The digits that a text begins with. -/
def leadingDigits (num : Text) : Text := num.takeWhile Char.isDigit

/-- Digits behind those that `n` has. -/
def accumulate (n : Float.Model) (digits : Text) : Float.Model :=
  digits.foldl (fun n c => n * .ofNat 10 + .ofNat (c.toNat - 48)) n

/-- The exponent that `parse_number` reads, of type `int`, and the text behind it. -/
def parseExponent : Text → Int32 × Text
  | c :: num =>
      if c = 'e' ∨ c = 'E' then
        let signsubscale : Int32 := if num.head? = some '-' then -1 else 1
        let num := if num.head? = some '+' ∨ num.head? = some '-' then num.drop 1 else num
        let digits := leadingDigits num
        let subscale := digits.foldl (fun n c => n * 10 + .ofNat (c.toNat - 48)) (0 : Int32)
        (subscale * signsubscale, num.drop digits.length)
      else (0, c :: num)
  | [] => (0, [])

/-- `parse_number`: the number, and the text behind it. -/
def parseNumber (num : Text) : Float.Model × Text :=
  let sign : Int := if num.head? = some '-' then -1 else 1
  let num := if num.head? = some '-' then num.drop 1 else num
  let num := if num.head? = some '0' then num.drop 1 else num
  let whole :=
    if (num.head?.map fun c => '1' ≤ c && c ≤ '9') = some true then leadingDigits num else []
  let num := num.drop whole.length
  let fraction :=
    match num with
    | '.' :: num => leadingDigits num
    | _ => []
  let num := if fraction = [] then num else num.drop (1 + fraction.length)
  let scale : Int := -fraction.length
  let (subscale, num) := parseExponent num
  let n := accumulate (accumulate (.ofNat 0) whole) fraction
  (.ofInt sign * n * pow10 (scale + subscale.toInt), num)

/-- A number does not come back as it was written. -/
example : printNumber (parseNumber "1.00000000000000000000".toList).1 = "1".toList := by
  decide +kernel

example : printNumber (parseNumber "1e20".toList).1 = "100000000000000000000".toList := by
  decide +kernel

mutual

/-- `parse_value`.  The first argument bounds the depth of the calls; the
length of the text is enough. -/
def parseValue : Nat → Text → Option (Node × Text)
  | 0, _ => none
  | depth + 1, value =>
      if "null".toList.isPrefixOf value then some (.null, value.drop 4)
      else if "false".toList.isPrefixOf value then some (.false, value.drop 5)
      else if "true".toList.isPrefixOf value then some (.true, value.drop 4)
      else
        match value with
        | '\x22' :: rest => let r := unescape 0 rest; some (.string r.1, r.2)
        | '[' :: rest =>
            match skip rest with
            | ']' :: rest => some (.array .nil, rest)
            | rest => (parseItems depth rest).map fun r => (.array r.1, r.2)
        | '\x7b' :: rest =>
            match skip rest with
            | '\x7d' :: rest => some (.object .nil, rest)
            | rest => (parseMembers depth rest).map fun r => (.object r.1, r.2)
        | c :: _ =>
            if c = '-' ∨ c.isDigit then
              let r := parseNumber value
              some (.number r.1, r.2)
            else none
        | [] => none

/-- The entries of `parse_array`, up to the closing bracket. -/
def parseItems : Nat → Text → Option (Items × Text)
  | 0, _ => none
  | depth + 1, value =>
      match parseValue depth (skip value) with
      | none => none
      | some (item, rest) =>
          match skip rest with
          | ',' :: rest => (parseItems depth rest).map fun r => (.cons item r.1, r.2)
          | ']' :: rest => some (.cons item .nil, rest)
          | _ => none

/-- The entries of `parse_object`, up to the closing brace. -/
def parseMembers : Nat → Text → Option (Members × Text)
  | 0, _ => none
  | depth + 1, value =>
      match parseString (skip value) with
      | none => none
      | some (string, rest) =>
          match skip rest with
          | ':' :: rest =>
              match parseValue depth (skip rest) with
              | none => none
              | some (item, rest) =>
                  match skip rest with
                  | ',' :: rest =>
                      (parseMembers depth rest).map fun r => (.cons string item r.1, r.2)
                  | '\x7d' :: rest => some (.cons string item .nil, rest)
                  | _ => none
          | _ => none

end

/-- `cJSON_Parse`: the text ends at its first NUL, and what follows the first
value is not looked at. -/
def cJsonParse (value : Text) : Option Node :=
  let value := value.takeWhile (· != '\x00')
  (parseValue (2 * value.length + 1) (skip value)).map Prod.fst

end CJson
