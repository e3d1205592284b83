/-!
# Reading bytes as text

Every list of bytes can be read as UTF-8. Where it is not, the longest beginning of a character that is there,
or else a single byte, reads as the replacement character.
-/

namespace CodeAtlas.Utf8

/-- The character that stands for what cannot be read. -/
def replacement : Char := '�'

/-- The bounds of a byte inside a character. -/
abbrev Bounds := UInt8 × UInt8

/-- The bounds of a byte that nothing else is required of. -/
def continuation : Bounds := (0x80, 0xBF)

/-- What has been read of a character : its bits so far, and the bounds of the bytes that must follow. If none must
follow, no character is open. -/
structure Opened where
  value : Nat
  bounds : List Bounds
  deriving DecidableEq

/-- Between two characters. -/
def Opened.nothing : Opened := ⟨0, []⟩

/-- What the first byte of a character says : the bits it has of the character, and the bounds of the bytes
that must follow. -/
def lead? (b : UInt8) : Option Opened :=
  let n := b.toNat
  if n < 0x80 then some ⟨n, []⟩
  else if n < 0xC2 then none
  else if n < 0xE0 then some ⟨n - 0xC0, [continuation]⟩
  else if n < 0xF0 then
    some ⟨n - 0xE0, [(if n = 0xE0 then 0xA0 else 0x80, if n = 0xED then 0x9F else 0xBF), continuation]⟩
  else if n < 0xF5 then
    some ⟨n - 0xF0, [(if n = 0xF0 then 0x90 else 0x80, if n = 0xF4 then 0x8F else 0xBF), continuation, continuation]⟩
  else none

/-- A byte that begins a character : the characters that are complete with it, and what is open. -/
def begin (b : UInt8) : List Char × Opened :=
  match lead? b with
  | none => ([replacement], .nothing)
  | some ⟨n, []⟩ => ([Char.ofNat n], .nothing)
  | some o => ([], o)

/-- A byte after what is open. One that cannot follow begins a character of its own. -/
def Opened.next (o : Opened) (b : UInt8) : List Char × Opened :=
  match o.bounds with
  | [] => begin b
  | (low, high) :: others =>
    if low ≤ b ∧ b ≤ high then
      let value := o.value * 64 + (b.toNat - 0x80)
      if others.isEmpty then ([Char.ofNat value], .nothing) else ([], ⟨value, others⟩)
    else
      let (chars, o) := begin b
      (replacement :: chars, o)

/-- Read bytes after what is open. -/
def decodeFrom (o : Opened) : List UInt8 → List Char
  | [] => if o.bounds.isEmpty then [] else [replacement]
  | b :: bs =>
    let (chars, o) := o.next b
    chars ++ decodeFrom o bs

/-- The text of a list of bytes. -/
def decode (bytes : List UInt8) : String := String.ofList (decodeFrom .nothing bytes)

end CodeAtlas.Utf8
