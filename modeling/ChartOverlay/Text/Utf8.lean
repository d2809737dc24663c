/-!
# UTF-8 that may be damaged

Reads every row of bytes as text. Bytes that begin a character and break off, or that no character
begins with, become one replacement character each time.
-/

namespace ChartOverlay.Utf8

/-- A character of which some bytes are still to come: how many, what the ones before say, and between
which bounds the next one lies. -/
structure Begun where
  missing : Nat
  value : Nat
  least : Nat := 0x80
  most : Nat := 0xbf

def replacement : Char := '\ufffd'

/-- What a byte says at the start of a character. -/
def start (b : Nat) : List Char × Option Begun :=
  if b < 0x80 then ([Char.ofNat b], none)
  else if 0xc2 ≤ b ∧ b < 0xe0 then ([], some { missing := 1, value := b - 0xc0 })
  else if b = 0xe0 then ([], some { missing := 2, value := 0, least := 0xa0 })
  else if b = 0xed then ([], some { missing := 2, value := 0xd, most := 0x9f })
  else if 0xe0 < b ∧ b < 0xf0 then ([], some { missing := 2, value := b - 0xe0 })
  else if b = 0xf0 then ([], some { missing := 3, value := 0, least := 0x90 })
  else if b = 0xf4 then ([], some { missing := 3, value := 4, most := 0x8f })
  else if 0xf0 < b ∧ b < 0xf4 then ([], some { missing := 3, value := b - 0xf0 })
  else ([replacement], none)

/-- The characters that a byte completes, and the one that is begun after it. -/
def next (begun : Option Begun) (b : Nat) : List Char × Option Begun :=
  match begun with
  | none => start b
  | some c =>
    if c.least ≤ b ∧ b ≤ c.most then
      let value := 0x40 * c.value + (b - 0x80)
      if c.missing ≤ 1 then ([Char.ofNat value], none) else ([], some { missing := c.missing - 1, value })
    else
      let (chars, begun) := start b
      (replacement :: chars, begun)

/-- The text of bytes after a character that was begun. -/
def decodeFrom (begun : Option Begun) : List UInt8 → List Char
  | [] => if begun.isSome then [replacement] else []
  | b :: rest =>
    let (chars, begun) := next begun b.toNat
    chars ++ decodeFrom begun rest

def decode (bytes : List UInt8) : List Char := decodeFrom none bytes

end ChartOverlay.Utf8
