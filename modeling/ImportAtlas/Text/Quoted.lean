/-!
# Quoted characters

The form in which a one-byte character is shown in a message: between single
quotes, with a backslash form where the character would not be seen.
-/

namespace ImportAtlas.Text

/-- Lower-case hexadecimal digits without leading zeros. -/
def hexDigits (value : Nat) : String :=
  String.ofList (Nat.toDigits 16 value)

/--
Whether a character of the first 256 shows by itself. The two control ranges
do not, and neither do the no-break space and the soft hyphen.
-/
def isVisibleLatin (code : Nat) : Bool :=
  0x20 ≤ code && !(0x7f ≤ code && code ≤ 0xa0) && code != 0xad

/-- A byte as the character with that code, between single quotes. -/
def quotedByte (byte : UInt8) : String :=
  let code := byte.toNat
  let body :=
    if code = 0 then "\\0"
    else if code = 0x09 then "\\t"
    else if code = 0x0a then "\\n"
    else if code = 0x0d then "\\r"
    else if code = 0x27 then "\\'"
    else if code = 0x5c then "\\\\"
    else if isVisibleLatin code then String.singleton (Char.ofNat code)
    else "\\u\x7b" ++ hexDigits code ++ "\x7d"
  "'" ++ body ++ "'"

end ImportAtlas.Text
