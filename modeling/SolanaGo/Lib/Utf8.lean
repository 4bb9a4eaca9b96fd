/-
UTF-8, as RFC 3629 defines it: which byte strings are sequences of characters in the
shortest form, without surrogates and without code points past the last one.
-/
import SolanaGo.Lib.Codec

set_option autoImplicit false

namespace Utf8

open Codec (Bytes)

/-- `UTF8-tail`. -/
def isTail (c : UInt8) : Bool := 0x80 ≤ c && c ≤ 0xBF

/-- The second byte of a character of three or four bytes, given the first. -/
def isSecond (a b : UInt8) : Bool :=
  if a == 0xE0 then 0xA0 ≤ b && b ≤ 0xBF
  else if a == 0xED then 0x80 ≤ b && b ≤ 0x9F
  else if a == 0xF0 then 0x90 ≤ b && b ≤ 0xBF
  else if a == 0xF4 then 0x80 ≤ b && b ≤ 0x8F
  else isTail b

/-- Is the byte string UTF-8? -/
def isUtf8 : Bytes → Bool
  | [] => true
  | a :: rest =>
    if a < 0x80 then isUtf8 rest
    else
      match rest with
      | [] => false
      | b :: rest =>
        if 0xC2 ≤ a && a ≤ 0xDF then isTail b && isUtf8 rest
        else
          match rest with
          | [] => false
          | c :: rest =>
            if 0xE0 ≤ a && a ≤ 0xEF then isSecond a b && isTail c && isUtf8 rest
            else
              match rest with
              | [] => false
              | d :: rest =>
                0xF0 ≤ a && a ≤ 0xF4 && isSecond a b && isTail c && isTail d && isUtf8 rest

end Utf8
