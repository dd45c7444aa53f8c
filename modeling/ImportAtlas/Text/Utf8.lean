import ImportAtlas.Bytes.Word

/-!
# UTF-8

Bytes are cut into well-formed sequences and maximal ill-formed parts. Two
readings rest on that one cut: a lossy one, which puts a replacement character
for every ill-formed part, and an exact one, which refuses them.
-/

namespace ImportAtlas.Utf8

/-- The stand-in for a part that encodes no character. -/
def replacement : Char := '�'

/-- A byte that continues a sequence. -/
def isContinuation (b : UInt8) : Bool :=
  0x80 ≤ b && b ≤ 0xbf

/-- The second bytes that may follow the lead byte of a three-byte sequence. -/
def isSecondOfThree (lead b : UInt8) : Bool :=
  if lead == 0xe0 then 0xa0 ≤ b && b ≤ 0xbf
  else if lead == 0xed then 0x80 ≤ b && b ≤ 0x9f
  else isContinuation b

/-- The second bytes that may follow the lead byte of a four-byte sequence. -/
def isSecondOfFour (lead b : UInt8) : Bool :=
  if lead == 0xf0 then 0x90 ≤ b && b ≤ 0xbf
  else if lead == 0xf4 then 0x80 ≤ b && b ≤ 0x8f
  else isContinuation b

/-- The payload of a continuation byte. -/
def low6 (b : UInt8) : Nat := b.toNat % 64

/--
The characters of `bytes` in order, after those already in `done`; `none`
stands for one maximal ill-formed part.
-/
def scalarsFrom (done : Array (Option Char)) : Bytes → Array (Option Char)
  | [] => done
  | a :: afterA =>
    if a < 0x80 then scalarsFrom (done.push (some (Char.ofNat a.toNat))) afterA
    else if 0xc2 ≤ a && a ≤ 0xdf then
      match afterA with
      | b :: afterB =>
        if isContinuation b then
          scalarsFrom (done.push (some (Char.ofNat (a.toNat % 32 * 64 + low6 b)))) afterB
        else scalarsFrom (done.push none) (b :: afterB)
      | [] => done.push none
    else if 0xe0 ≤ a && a ≤ 0xef then
      match afterA with
      | b :: afterB =>
        if isSecondOfThree a b then
          match afterB with
          | c :: afterC =>
            if isContinuation c then
              scalarsFrom
                (done.push (some (Char.ofNat ((a.toNat % 16 * 64 + low6 b) * 64 + low6 c)))) afterC
            else scalarsFrom (done.push none) (c :: afterC)
          | [] => done.push none
        else scalarsFrom (done.push none) (b :: afterB)
      | [] => done.push none
    else if 0xf0 ≤ a && a ≤ 0xf4 then
      match afterA with
      | b :: afterB =>
        if isSecondOfFour a b then
          match afterB with
          | c :: afterC =>
            if isContinuation c then
              match afterC with
              | d :: afterD =>
                if isContinuation d then
                  scalarsFrom
                    (done.push (some (Char.ofNat
                      (((a.toNat % 8 * 64 + low6 b) * 64 + low6 c) * 64 + low6 d)))) afterD
                else scalarsFrom (done.push none) (d :: afterD)
              | [] => done.push none
            else scalarsFrom (done.push none) (c :: afterC)
          | [] => done.push none
        else scalarsFrom (done.push none) (b :: afterB)
      | [] => done.push none
    else scalarsFrom (done.push none) afterA

/-- The characters of `bytes`; `none` stands for one maximal ill-formed part. -/
def scalars (bytes : Bytes) : List (Option Char) :=
  (scalarsFrom #[] bytes).toList

/-- The text of `bytes`, with a replacement character for every ill-formed part. -/
def decodeLossy (bytes : Bytes) : String :=
  String.ofList ((scalars bytes).map (·.getD replacement))

/-- The text of `bytes`, if they are well-formed throughout. -/
def decode? (bytes : Bytes) : Option String :=
  ((scalars bytes).mapM id).map String.ofList

/-- The bytes of a text. -/
def encode (text : String) : Bytes :=
  text.toList.flatMap String.utf8EncodeChar

end ImportAtlas.Utf8
