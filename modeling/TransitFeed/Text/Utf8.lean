/-!
# UTF-8 bytes

Files are read as bytes and their fields turned into text only when they are valid
UTF-8: no overlong form, no surrogate, nothing above U+10FFFF. When they are not, the
place of the first byte of the first invalid sequence tells where the fault lies.
-/

namespace TransitFeed.Utf8

/-- Whether a byte continues a sequence. -/
def isContinuation (b : UInt8) : Bool := b.toNat / 64 = 2

/-- The low six bits of a continuation byte. -/
def low (b : UInt8) : Nat := b.toNat % 64

/-- Reads one character from the front of valid UTF-8, with the bytes after it. -/
def decodeOne : List UInt8 → Option (Char × List UInt8)
  | [] => none
  | b :: rest =>
    let n := b.toNat
    if n < 0x80 then some (Char.ofNat n, rest)
    else if n < 0xC2 then none
    else if n < 0xE0 then
      match rest with
      | c :: more => if isContinuation c then some (Char.ofNat ((n % 32) * 64 + low c), more) else none
      | [] => none
    else if n < 0xF0 then
      match rest with
      | c :: d :: more =>
        let lo := if n = 0xE0 then 0xA0 else 0x80
        let hi := if n = 0xED then 0x9F else 0xBF
        if lo ≤ c.toNat ∧ c.toNat ≤ hi ∧ isContinuation d then
          some (Char.ofNat ((n % 16) * 4096 + low c * 64 + low d), more)
        else none
      | _ => none
    else if n < 0xF5 then
      match rest with
      | c :: d :: e :: more =>
        let lo := if n = 0xF0 then 0x90 else 0x80
        let hi := if n = 0xF4 then 0x8F else 0xBF
        if lo ≤ c.toNat ∧ c.toNat ≤ hi ∧ isContinuation d ∧ isContinuation e then
          some (Char.ofNat ((n % 8) * 262144 + low c * 4096 + low d * 64 + low e), more)
        else none
      | _ => none
    else none

/-- Decodes UTF-8 bytes: the text, or the length of the longest valid prefix. -/
def decode (bytes : List UInt8) : Except Nat String :=
  go bytes 0 [] (bytes.length + 1)
where
  go (bytes : List UInt8) (at_ : Nat) (acc : List Char) : Nat → Except Nat String
    | 0 => .ok (String.ofList acc.reverse)
    | fuel + 1 =>
      match bytes with
      | [] => .ok (String.ofList acc.reverse)
      | _ =>
        match decodeOne bytes with
        | some (c, rest) => go rest (at_ + (bytes.length - rest.length)) (c :: acc) fuel
        | none => .error at_

/-- The bytes of a text. -/
def encode (s : String) : List UInt8 := s.toUTF8.toList

/-- The length of the invalid sequence at the front of bytes that do not start with a
character: the longest prefix that some character's encoding starts with, and at least
one byte. -/
def invalidLength : List UInt8 → Nat
  | [] => 0
  | b :: rest =>
    let n := b.toNat
    let (need, lo, hi) :=
      if 0xC2 ≤ n ∧ n < 0xE0 then (1, 0x80, 0xBF)
      else if 0xE0 ≤ n ∧ n < 0xF0 then
        (2, if n = 0xE0 then 0xA0 else 0x80, if n = 0xED then 0x9F else 0xBF)
      else if 0xF0 ≤ n ∧ n < 0xF5 then
        (3, if n = 0xF0 then 0x90 else 0x80, if n = 0xF4 then 0x8F else 0xBF)
      else (0, 0, 0)
    match need, rest with
    | 0, _ => 1
    | _, [] => 1
    | need, c :: more =>
      if lo ≤ c.toNat ∧ c.toNat ≤ hi then
        1 + 1 + ((more.take (need - 1)).takeWhile isContinuation).length
      else 1

/-- Decodes bytes as UTF-8, each invalid sequence standing for one replacement character
`U+FFFD`; an invalid sequence is the longest prefix of some character's encoding, or a
single byte that starts none. -/
def lossy (bytes : List UInt8) : String :=
  go bytes [] (bytes.length + 1)
where
  go (bytes : List UInt8) (acc : List Char) : Nat → String
    | 0 => String.ofList acc.reverse
    | fuel + 1 =>
      match bytes with
      | [] => String.ofList acc.reverse
      | _ =>
        match decodeOne bytes with
        | some (c, rest) => go rest (c :: acc) fuel
        | none => go (bytes.drop (invalidLength bytes)) ('\uFFFD' :: acc) fuel

end TransitFeed.Utf8
