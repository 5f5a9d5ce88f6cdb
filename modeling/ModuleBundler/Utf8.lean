import ModuleBundler.Json.Writer

/-!
Strict UTF-8. Reading stops at the first sequence that is no character and tells which of its bytes
are at fault; a sequence that the text cuts off is told apart from one that goes wrong.
-/
namespace ModuleBundler.Utf8

inductive Reason where
  | startByte
  | continuationByte
  | cutOff
  deriving DecidableEq, Repr

def Reason.message : Reason → String
  | startByte => "invalid start byte"
  | continuationByte => "invalid continuation byte"
  | cutOff => "unexpected end of data"

structure Fault where
  reason : Reason
  -- The bytes at fault: the first of them, its offset, and how many there are.
  byte : UInt8
  offset : Nat
  count : Nat
  deriving DecidableEq, Repr

def Fault.message (fault : Fault) : Text :=
  let place :=
    if fault.count = 1 then
      "byte 0x".toList ++ (Json.hex4 fault.byte.toNat).drop 2 ++ " in position ".toList
        ++ Json.natText fault.offset
    else
      "bytes in position ".toList ++ Json.natText fault.offset ++ '-'
        :: Json.natText (fault.offset + fault.count - 1)
  "'utf-8' codec can't decode ".toList ++ place ++ ": ".toList ++ fault.reason.message.toList

def isContinuation (byte : UInt8) : Bool := 0x80 ≤ byte && byte < 0xC0

def payload (byte : UInt8) : Nat := byte.toNat % 64

-- Whether the second byte is allowed behind the first: no overlong forms, no surrogates and
-- nothing past the last code point.
def allowsSecond (first second : UInt8) : Bool :=
  isContinuation second
    && !(first == 0xE0 && second < 0xA0) && !(first == 0xED && 0xA0 ≤ second)
    && !(first == 0xF0 && second < 0x90) && !(first == 0xF4 && 0x90 ≤ second)

inductive Sequence where
  | char (char : Char) (size : Nat)
  | bad (reason : Reason) (count : Nat)
  deriving DecidableEq, Repr

-- The character that begins with the given byte. All bytes of a cut-off sequence are at fault.
def sequence (first : UInt8) (rest : List UInt8) : Sequence :=
  if first < 0x80 then .char (Char.ofNat first.toNat) 1
  else if first < 0xC2 then .bad .startByte 1
  else if first < 0xE0 then
    match rest with
    | second :: _ =>
      if isContinuation second then
        .char (Char.ofNat (first.toNat % 32 * 64 + payload second)) 2
      else .bad .continuationByte 1
    | [] => .bad .cutOff 1
  else if first < 0xF0 then
    match rest with
    | second :: third :: _ =>
      if !allowsSecond first second then .bad .continuationByte 1
      else if !isContinuation third then .bad .continuationByte 2
      else .char (Char.ofNat (first.toNat % 16 * 4096 + payload second * 64 + payload third)) 3
    | [second] => if allowsSecond first second then .bad .cutOff 2 else .bad .continuationByte 1
    | [] => .bad .cutOff 1
  else if first < 0xF5 then
    match rest with
    | second :: third :: fourth :: _ =>
      if !allowsSecond first second then .bad .continuationByte 1
      else if !isContinuation third then .bad .continuationByte 2
      else if !isContinuation fourth then .bad .continuationByte 3
      else
        .char (Char.ofNat (first.toNat % 8 * 262144 + payload second * 4096 + payload third * 64
          + payload fourth)) 4
    | [second, third] =>
      if !allowsSecond first second then .bad .continuationByte 1
      else if !isContinuation third then .bad .continuationByte 2
      else .bad .cutOff 3
    | [second] => if allowsSecond first second then .bad .cutOff 2 else .bad .continuationByte 1
    | [] => .bad .cutOff 1
  else .bad .startByte 1

def decodeFrom (offset : Nat) : List UInt8 → Except Fault Text
  | [] => .ok []
  | byte :: rest =>
    match sequence byte rest with
    | .bad reason count => .error ⟨reason, byte, offset, count⟩
    | .char c size => (decodeFrom (offset + size) (rest.drop (size - 1))).map (c :: ·)
termination_by bytes => bytes.length
decreasing_by simp only [List.length_drop, List.length_cons]; omega

def decode (bytes : List UInt8) : Except Fault Text := decodeFrom 0 bytes

def encodeChar (c : Char) : List UInt8 :=
  let n := c.toNat
  let tail (k : Nat) : UInt8 := UInt8.ofNat (128 + n / k % 64)
  if n < 128 then [UInt8.ofNat n]
  else if n < 2048 then [UInt8.ofNat (192 + n / 64), tail 1]
  else if n < 65536 then [UInt8.ofNat (224 + n / 4096), tail 64, tail 1]
  else [UInt8.ofNat (240 + n / 262144), tail 4096, tail 64, tail 1]

def encode (text : Text) : List UInt8 := text.flatMap encodeChar

end ModuleBundler.Utf8
