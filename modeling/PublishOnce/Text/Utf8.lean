/-
PublishOnce.Text.Utf8 — reading bytes as text.

What git prints and what a commit says are bytes, and nothing forces them to be
UTF-8. They are read leniently: each maximal ill-formed part, that is each
longest start of a character that cannot be completed, becomes one replacement
character, and reading goes on behind it. A configuration file is read
strictly: one ill-formed part and there is no text.

Both readings share one step, `next`, which takes one character or one
ill-formed part off the front. `encode` writes text as bytes.
-/

namespace PublishOnce.Text.Utf8

/-! ## 1. One character -/

/-- What a first byte promises. -/
inductive Lead where
  /-- A character of its own. -/
  | single
  /-- The payload of the first byte, the range of the second byte, the bytes after that one. -/
  | multiple (payload low high more : Nat)
  /-- No character starts like this. -/
  | none

/-- The first bytes of UTF-8. The second byte of `E0`, `ED`, `F0` and `F4` has a narrower range:
overlong forms, surrogates and values past the last code point are not characters. -/
def lead (byte : Nat) : Lead :=
  if byte < 0x80 then .single
  else if byte < 0xC2 then .none
  else if byte < 0xE0 then .multiple (byte - 0xC0) 0x80 0xBF 0
  else if byte = 0xE0 then .multiple 0 0xA0 0xBF 1
  else if byte = 0xED then .multiple 0x0D 0x80 0x9F 1
  else if byte < 0xF0 then .multiple (byte - 0xE0) 0x80 0xBF 1
  else if byte = 0xF0 then .multiple 0 0x90 0xBF 2
  else if byte < 0xF4 then .multiple (byte - 0xF0) 0x80 0xBF 2
  else if byte = 0xF4 then .multiple 4 0x80 0x8F 2
  else .none

/-- The bytes that complete a character: the next one in `low`–`high`, then `more` plain
continuation bytes. A byte out of range is left for the next character. -/
def complete (payload low high : Nat) : Nat → List UInt8 → Option Char × List UInt8
  | _, [] => (none, [])
  | more, byte :: rest =>
    if low ≤ byte.toNat ∧ byte.toNat ≤ high then
      match more with
      | 0 => (some (Char.ofNat (payload * 64 + byte.toNat % 64)), rest)
      | more + 1 => complete (payload * 64 + byte.toNat % 64) 0x80 0xBF more rest
    else (none, byte :: rest)

/-- The character that starts with `first`, or `none` for an ill-formed part, and what follows. -/
def next (first : UInt8) (rest : List UInt8) : Option Char × List UInt8 :=
  match lead first.toNat with
  | .single => (some (Char.ofNat first.toNat), rest)
  | .multiple payload low high more => complete payload low high more rest
  | .none => (none, rest)

theorem length_complete_le (payload low high more : Nat) (bytes : List UInt8) :
    (complete payload low high more bytes).2.length ≤ bytes.length := by
  induction bytes generalizing payload low high more with
  | nil => simp [complete]
  | cons byte rest ih =>
    unfold complete
    split
    · split
      · simp
      · exact Nat.le_succ_of_le (ih ..)
    · simp

/-- Every step uses up at least the first byte. -/
theorem length_next_le (first : UInt8) (rest : List UInt8) :
    (next first rest).2.length ≤ rest.length := by
  unfold next
  split
  · simp
  · exact length_complete_le ..
  · simp

/-! ## 2. Whole texts -/

/-- What an ill-formed part is read as. -/
def replacement : Char := '\uFFFD'

/-- The characters of a byte string, ill-formed parts marked as `none`. -/
def decode : List UInt8 → List (Option Char)
  | [] => []
  | first :: rest => (next first rest).1 :: decode (next first rest).2
termination_by bytes => bytes.length
decreasing_by exact Nat.lt_succ_of_le (length_next_le first rest)

/-- The lenient reading: every ill-formed part is one replacement character. -/
def decodeLossy (bytes : List UInt8) : String :=
  String.ofList ((decode bytes).map fun c => c.getD replacement)

/-- The strict reading: text only if no part is ill-formed. -/
def decode? (bytes : List UInt8) : Option String :=
  ((decode bytes).mapM id).map String.ofList

def encodeChar (c : Char) : List UInt8 :=
  let n := c.toNat
  let plain (unit : Nat) : UInt8 := UInt8.ofNat (0x80 + n / unit % 0x40)
  if n < 0x80 then [UInt8.ofNat n]
  else if n < 0x800 then [UInt8.ofNat (0xC0 + n / 0x40), plain 1]
  else if n < 0x10000 then [UInt8.ofNat (0xE0 + n / 0x1000), plain 0x40, plain 1]
  else [UInt8.ofNat (0xF0 + n / 0x40000), plain 0x1000, plain 0x40, plain 1]

def encode (s : String) : List UInt8 := s.toList.flatMap encodeChar

end PublishOnce.Text.Utf8
