import NestClient.Text.Quoted

/-! Texts as bytes in UTF-8, and where bytes are at fault that are none. -/

namespace NestClient

/-- Why bytes are no text. -/
inductive Utf8Problem where
  | invalidStart
  | invalidContinuation
  | unexpectedEnd
  deriving DecidableEq, Repr

def Utf8Problem.text : Utf8Problem → Text
  | invalidStart => "invalid start byte".toList
  | invalidContinuation => "invalid continuation byte".toList
  | unexpectedEnd => "unexpected end of data".toList

/-- A fault in a sequence of bytes: its position, the bytes it covers, and what is wrong. -/
structure Utf8Fault where
  position : Nat
  first : UInt8
  size : Nat
  problem : Utf8Problem
  deriving DecidableEq, Repr

def Utf8Fault.message (f : Utf8Fault) : Text :=
  let place :=
    if f.size = 1 then
      "byte 0x".toList ++ Text.hex 2 f.first.toNat ++ " in position ".toList
        ++ Text.ofNat f.position
    else
      "bytes in position ".toList ++ Text.ofNat f.position ++ "-".toList
        ++ Text.ofNat (f.position + f.size - 1)
  "'utf-8' codec can't decode ".toList ++ place ++ ": ".toList ++ f.problem.text

namespace Utf8

def encodeChar (c : Char) : List UInt8 :=
  let n := c.toNat
  let tail (m : Nat) : UInt8 := UInt8.ofNat (128 + m % 64)
  if n < 128 then [UInt8.ofNat n]
  else if n < 2048 then [UInt8.ofNat (192 + n / 64), tail n]
  else if n < 65536 then [UInt8.ofNat (224 + n / 4096), tail (n / 64), tail n]
  else [UInt8.ofNat (240 + n / 262144), tail (n / 4096), tail (n / 64), tail n]

def encode (t : Text) : List UInt8 := t.flatMap encodeChar

/-- A byte that goes on with a character. -/
def isContinuation (b : UInt8) : Bool := 128 ≤ b && b < 192

/-- The second byte can follow the first of three or four: it leaves no shorter form, no surrogate
and nothing beyond the last code point. -/
def fitsSecond (first second : UInt8) : Bool :=
  isContinuation second
    && (first != 224 || 160 ≤ second) && (first != 237 || second < 160)
    && (first != 240 || 144 ≤ second) && (first != 244 || second < 144)

/-- What a sequence of bytes begins with: a character and its size, or the size of what is at
fault. -/
inductive Lead where
  | char (c : Char) (size : Nat)
  | fault (size : Nat) (problem : Utf8Problem)

/-- The low bits of a byte as a number. -/
def bits (modulus : Nat) (b : UInt8) : Nat := b.toNat % modulus

/-- The first character of bytes that begin with `b`. -/
def lead (b : UInt8) (rest : List UInt8) : Lead :=
  if b < 128 then .char (Char.ofNat b.toNat) 1
  else if b < 194 then .fault 1 .invalidStart
  else if b < 224 then
    match rest with
    | [] => .fault 1 .unexpectedEnd
    | c :: _ =>
      if isContinuation c then .char (Char.ofNat (bits 32 b * 64 + bits 64 c)) 2
      else .fault 1 .invalidContinuation
  else if b < 240 then
    match rest with
    | [] => .fault 1 .unexpectedEnd
    | c :: rest =>
      if !fitsSecond b c then .fault 1 .invalidContinuation
      else
        match rest with
        | [] => .fault 2 .unexpectedEnd
        | d :: _ =>
          if isContinuation d then
            .char (Char.ofNat ((bits 16 b * 64 + bits 64 c) * 64 + bits 64 d)) 3
          else .fault 2 .invalidContinuation
  else if b < 245 then
    match rest with
    | [] => .fault 1 .unexpectedEnd
    | c :: rest =>
      if !fitsSecond b c then .fault 1 .invalidContinuation
      else
        match rest with
        | [] => .fault 2 .unexpectedEnd
        | d :: rest =>
          if !isContinuation d then .fault 2 .invalidContinuation
          else
            match rest with
            | [] => .fault 3 .unexpectedEnd
            | e :: _ =>
              if isContinuation e then
                .char (Char.ofNat
                  (((bits 8 b * 64 + bits 64 c) * 64 + bits 64 d) * 64 + bits 64 e)) 4
              else .fault 3 .invalidContinuation
  else .fault 1 .invalidStart

/-- Reads bytes from a position on, after so many that belong to the last character. -/
def decodeFrom (position pending : Nat) : List UInt8 → Except Utf8Fault Text
  | [] => .ok []
  | b :: rest =>
    match pending with
    | n + 1 => decodeFrom (position + 1) n rest
    | 0 =>
      match lead b rest with
      | .fault size problem => .error ⟨position, b, size, problem⟩
      | .char c size => (c :: ·) <$> decodeFrom (position + 1) (size - 1) rest

def decode (bytes : List UInt8) : Except Utf8Fault Text := decodeFrom 0 0 bytes

/-- The text of bytes in which those at fault are shown by their numbers. -/
def decodeShowing (pending : Nat) : List UInt8 → Text
  | [] => []
  | b :: rest =>
    match pending with
    | n + 1 => decodeShowing n rest
    | 0 =>
      match lead b rest with
      | .fault size _ =>
        (b :: rest.take (size - 1)).flatMap (fun x => '\\' :: 'x' :: Text.hex 2 x.toNat)
          ++ decodeShowing (size - 1) rest
      | .char c size => c :: decodeShowing (size - 1) rest

end Utf8

end NestClient
