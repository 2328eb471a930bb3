/-!
# Text from bytes

UTF-8 sequences are read one character at a time. A fault says where the first byte that does not
continue a valid text stands, and how many bytes belong to the broken sequence; a sequence that
the end of the input cuts off is told apart.
-/

namespace ChangeFeed.Text

/-- Why bytes are no text. -/
inductive Utf8Fault where
  | invalid (index length : Nat)
  | incomplete (index : Nat)
  deriving DecidableEq, Repr

/-- The wording of a fault. -/
def Utf8Fault.message : Utf8Fault → String
  | .invalid index length =>
    "invalid utf-8 sequence of " ++ toString length ++ " bytes from index " ++ toString index
  | .incomplete index => "incomplete utf-8 byte sequence from index " ++ toString index

/-- How the bytes after a leading byte continue a character. -/
inductive Sequence where
  | character (c : Char) (length : Nat)
  | broken (length : Nat)
  | cutOff

/-- Whether a byte continues a sequence. -/
def isContinuation (byte : UInt8) : Bool :=
  0x80 ≤ byte && byte ≤ 0xBF

/-- The bytes that may follow a leading byte directly; other values would encode a character in
too many bytes, a surrogate or a number above the last character. -/
def isSecond (lead byte : UInt8) : Bool :=
  if lead == 0xE0 then 0xA0 ≤ byte && byte ≤ 0xBF
  else if lead == 0xED then 0x80 ≤ byte && byte ≤ 0x9F
  else if lead == 0xF0 then 0x90 ≤ byte && byte ≤ 0xBF
  else if lead == 0xF4 then 0x80 ≤ byte && byte ≤ 0x8F
  else isContinuation byte

/-- The six bits that a continuation byte carries. -/
def payload (byte : UInt8) : Nat :=
  byte.toNat % 64

/-- The character that starts with `lead` and goes on with the first bytes of `rest`. -/
def sequenceAt (lead : UInt8) (rest : List UInt8) : Sequence :=
  if lead < 0x80 then .character (Char.ofNat lead.toNat) 1
  else if 0xC2 ≤ lead && lead ≤ 0xDF then
    match rest with
    | [] => .cutOff
    | b :: _ =>
      if isSecond lead b then .character (Char.ofNat (lead.toNat % 32 * 64 + payload b)) 2
      else .broken 1
  else if 0xE0 ≤ lead && lead ≤ 0xEF then
    match rest with
    | [] => .cutOff
    | b :: rest =>
      if !isSecond lead b then .broken 1
      else match rest with
        | [] => .cutOff
        | c :: _ =>
          if isContinuation c then
            .character (Char.ofNat ((lead.toNat % 16 * 64 + payload b) * 64 + payload c)) 3
          else .broken 2
  else if 0xF0 ≤ lead && lead ≤ 0xF4 then
    match rest with
    | [] => .cutOff
    | b :: rest =>
      if !isSecond lead b then .broken 1
      else match rest with
        | [] => .cutOff
        | c :: rest =>
          if !isContinuation c then .broken 2
          else match rest with
            | [] => .cutOff
            | d :: _ =>
              if isContinuation d then
                .character (Char.ofNat
                  (((lead.toNat % 8 * 64 + payload b) * 64 + payload c) * 64 + payload d)) 4
              else .broken 3
  else .broken 1

/-- The characters of `bytes`, the first of which stands at `index`. `fuel` bounds the number of
characters still to come. -/
def charactersFrom : Nat → Nat → List UInt8 → Except Utf8Fault (List Char)
  | _, _, [] => .ok []
  | 0, index, _ :: _ => .error (.incomplete index)
  | fuel + 1, index, lead :: rest =>
    match sequenceAt lead rest with
    | .character c length => do
      let cs ← charactersFrom fuel (index + length) (rest.drop (length - 1))
      return c :: cs
    | .broken length => .error (.invalid index length)
    | .cutOff => .error (.incomplete index)

/-- The text that bytes encode. -/
def ofUtf8 (bytes : List UInt8) : Except Utf8Fault (List Char) :=
  charactersFrom bytes.length 0 bytes

/-- The bytes that encode a text. -/
def toUtf8 (cs : List Char) : List UInt8 :=
  cs.flatMap String.utf8EncodeChar

end ChangeFeed.Text
