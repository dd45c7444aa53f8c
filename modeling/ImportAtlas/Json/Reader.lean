import ImportAtlas.Json.Value

/-!
# Reading JSON

A text is cut into tokens, and the tokens are put together on a stack of the
arrays and objects that are still open. The grammar is the strict one: no
comments, no comma at an end, no control characters inside quotes, and a
surrogate only as half of a pair.
-/

namespace ImportAtlas.Json

inductive Token where
  | openArray
  | closeArray
  | openObject
  | closeObject
  | comma
  | colon
  | text (text : String)
  /-- A value that is no text and holds no others. -/
  | atom (value : Value)

/-! ## Texts -/

def hexDigit? (char : Char) : Option Nat :=
  if '0' ≤ char ∧ char ≤ '9' then some (char.toNat - '0'.toNat)
  else if 'a' ≤ char ∧ char ≤ 'f' then some (char.toNat - 'a'.toNat + 10)
  else if 'A' ≤ char ∧ char ≤ 'F' then some (char.toNat - 'A'.toNat + 10)
  else none

/-- The number written by four hexadecimal digits. -/
def hexUnit? (a b c d : Char) : Option Nat := do
  return (((← hexDigit? a) * 16 + (← hexDigit? b)) * 16 + (← hexDigit? c)) * 16 + (← hexDigit? d)

/-- The character a letter after a backslash stands for. -/
def escape? : Char → Option Char
  | '"' => some '"'
  | '\\' => some '\\'
  | '/' => some '/'
  | 'b' => some '\x08'
  | 'f' => some '\x0c'
  | 'n' => some '\n'
  | 'r' => some '\r'
  | 't' => some '\t'
  | _ => none

/-- Half of a character beyond the first plane: the half in front. -/
def isLeading (unit : Nat) : Bool := 0xd800 ≤ unit && unit < 0xdc00

/-- Half of a character beyond the first plane: the half behind. -/
def isTrailing (unit : Nat) : Bool := 0xdc00 ≤ unit && unit < 0xe000

/-- The character two halves stand for. -/
def paired (leading trailing : Nat) : Char :=
  Char.ofNat (0x10000 + (leading - 0xd800) * 0x400 + (trailing - 0xdc00))

/-- Reads up to the closing quote; gives the text and what follows it. -/
def readText (done : Array Char) : List Char → Option (String × List Char)
  | [] => none
  | '"' :: rest => some (String.ofList done.toList, rest)
  | '\\' :: 'u' :: a :: b :: c :: d :: '\\' :: 'u' :: e :: f :: g :: h :: rest => do
    let unit ← hexUnit? a b c d
    if isLeading unit then
      let trailing ← hexUnit? e f g h
      if isTrailing trailing then readText (done.push (paired unit trailing)) rest else none
    else if isTrailing unit then none
    else readText (done.push (Char.ofNat unit)) ('\\' :: 'u' :: e :: f :: g :: h :: rest)
  | '\\' :: 'u' :: a :: b :: c :: d :: rest => do
    let unit ← hexUnit? a b c d
    if isLeading unit || isTrailing unit then none
    else readText (done.push (Char.ofNat unit)) rest
  | '\\' :: char :: rest => do readText (done.push (← escape? char)) rest
  | char :: rest => if char.toNat < 0x20 then none else readText (done.push char) rest
termination_by chars => chars.length

/-! ## Numbers -/

/-- Whether a character may stand in a number. -/
def isNumeral (char : Char) : Bool :=
  char.isDigit || char == '-' || char == '+' || char == '.' || char == 'e' || char == 'E'

/-- Whether these are digits, and at least one. -/
def areDigits (chars : List Char) : Bool :=
  !chars.isEmpty && chars.all Char.isDigit

/-- The digits at the front, and the rest. -/
def spanDigits (chars : List Char) : List Char × List Char :=
  chars.span Char.isDigit

/-- Whether the digits of a whole part are well-formed: no zero in front of others. -/
def isWhole (digits : List Char) : Bool :=
  areDigits digits && (digits.length == 1 || digits.head? != some '0')

/-- Whether this is an exponent, or nothing. -/
def isExponent : List Char → Bool
  | [] => true
  | mark :: rest =>
    (mark == 'e' || mark == 'E') &&
      match rest with
      | '+' :: digits => areDigits digits
      | '-' :: digits => areDigits digits
      | digits => areDigits digits

/-- Whether this is a fraction with an exponent behind it, either of which may be missing. -/
def isFraction : List Char → Bool
  | '.' :: rest => !(spanDigits rest).1.isEmpty && isExponent (spanDigits rest).2
  | rest => isExponent rest

/-- The value of digits. -/
def digitsValue (digits : List Char) : Nat :=
  digits.foldl (fun value digit => value * 10 + (digit.toNat - '0'.toNat)) 0

/-- The number a numeral stands for. A zero with a sign is not an integer. -/
def number? (numeral : List Char) : Option Value :=
  let (negative, body) := match numeral with
    | '-' :: body => (true, body)
    | body => (false, body)
  let (whole, rest) := spanDigits body
  if isWhole whole && isFraction rest then
    let value := digitsValue whole
    if rest.isEmpty && !(negative && value == 0) then
      some (.integer (if negative then -(value : Int) else value))
    else some (.decimal (String.ofList numeral))
  else none

/-! ## Tokens -/

/-- Whether a character may stand between tokens. -/
def isSpace (char : Char) : Bool :=
  char == ' ' || char == '\t' || char == '\n' || char == '\r'

/-- The token at the front, and what follows it; blanks have been dropped. -/
def token? : List Char → Option (Token × List Char)
  | '[' :: rest => some (.openArray, rest)
  | ']' :: rest => some (.closeArray, rest)
  | '\x7b' :: rest => some (.openObject, rest)
  | '\x7d' :: rest => some (.closeObject, rest)
  | ',' :: rest => some (.comma, rest)
  | ':' :: rest => some (.colon, rest)
  | '"' :: rest => (readText #[] rest).map fun (text, rest) => (.text text, rest)
  | 'n' :: 'u' :: 'l' :: 'l' :: rest => some (.atom .null, rest)
  | 't' :: 'r' :: 'u' :: 'e' :: rest => some (.atom (.bool true), rest)
  | 'f' :: 'a' :: 'l' :: 's' :: 'e' :: rest => some (.atom (.bool false), rest)
  | chars =>
    (number? (chars.takeWhile isNumeral)).map fun value => (.atom value, chars.dropWhile isNumeral)

/--
The tokens of a text. Each takes at least one character, so as many rounds as
there are characters are enough.
-/
def tokensIn (rounds : Nat) (done : Array Token) (chars : List Char) : Option (List Token) :=
  match rounds, chars.dropWhile isSpace with
  | _, [] => some done.toList
  | 0, _ => none
  | rounds + 1, chars =>
    match token? chars with
    | some (token, rest) => tokensIn rounds (done.push token) rest
    | none => none

def tokens? (text : String) : Option (List Token) :=
  tokensIn text.toList.length #[] text.toList

/-! ## Values -/

/-- An array or object that is still open. -/
inductive Frame where
  | array (done : Array Value)
  /-- Waits for the value of the member `name`. -/
  | object (done : Array (String × Value)) (name : String)

/-- What may come next. -/
inductive Place where
  | value
  /-- The first item of an array, or its end. -/
  | firstItem
  /-- The name of the next member. -/
  | name (done : Array (String × Value))
  /-- The first name of an object, or its end. -/
  | firstName
  /-- A colon behind a name. -/
  | colon (done : Array (String × Value)) (name : String)
  /-- A value is complete. -/
  | after (value : Value)

structure Progress where
  frames : List Frame
  place : Place

/-- Puts a complete value into the innermost frame and goes on behind a comma. -/
def Progress.next (frames : List Frame) (value : Value) : Option Progress :=
  match frames with
  | [] => none
  | .array done :: frames => some ⟨.array (done.push value) :: frames, .value⟩
  | .object done name :: frames => some ⟨frames, .name (done.push (name, value))⟩

/-- Takes one token. -/
def Progress.take (progress : Progress) (token : Token) : Option Progress :=
  let frames := progress.frames
  match progress.place, token with
  | .firstItem, .closeArray =>
    match frames with
    | .array done :: frames => some ⟨frames, .after (.array done.toList)⟩
    | _ => none
  | .value, .atom value => some ⟨frames, .after value⟩
  | .firstItem, .atom value => some ⟨frames, .after value⟩
  | .value, .text text => some ⟨frames, .after (.string text)⟩
  | .firstItem, .text text => some ⟨frames, .after (.string text)⟩
  | .value, .openArray => some ⟨.array #[] :: frames, .firstItem⟩
  | .firstItem, .openArray => some ⟨.array #[] :: frames, .firstItem⟩
  | .value, .openObject => some ⟨frames, .firstName⟩
  | .firstItem, .openObject => some ⟨frames, .firstName⟩
  | .firstName, .closeObject => some ⟨frames, .after (.object [])⟩
  | .firstName, .text name => some ⟨frames, .colon #[] name⟩
  | .name done, .text name => some ⟨frames, .colon done name⟩
  | .colon done name, .colon => some ⟨.object done name :: frames, .value⟩
  | .after value, .comma => Progress.next frames value
  | .after value, .closeArray =>
    match frames with
    | .array done :: frames => some ⟨frames, .after (.array (done.push value).toList)⟩
    | _ => none
  | .after value, .closeObject =>
    match frames with
    | .object done name :: frames =>
      some ⟨frames, .after (.object (done.push (name, value)).toList)⟩
    | _ => none
  | _, _ => none

/-- Reads a document. -/
def Value.ofText? (text : String) : Option Value := do
  let progress ← (← tokens? text).foldlM Progress.take ⟨[], .value⟩
  match progress with
  | ⟨[], .after value⟩ => some value
  | _ => none

end ImportAtlas.Json
