/-
Text out of bytes that should be UTF-8 but need not be.

The longest run of bytes that could have begun a character and was broken off becomes one
replacement character, and so does a byte that can begin none.  Decoding goes on with the
byte that broke the run.
-/
namespace Dwarf2
namespace Text

def replacement : Char := '\uFFFD'

namespace Utf8

/-- A character begun: the bits so far, how many bytes follow, and the range of the next. -/
structure Begun where
  bits : Nat
  follow : Nat
  low : UInt8
  high : UInt8

/-- The range of the second byte keeps out second spellings of one character, surrogates,
and everything past U+10FFFF. -/
def begin? (lead : UInt8) : Option Begun :=
  let bits := lead.toNat
  if lead < 0xc2 then none
  else if lead < 0xe0 then some ⟨bits - 0xc0, 1, 0x80, 0xbf⟩
  else if lead = 0xe0 then some ⟨bits - 0xe0, 2, 0xa0, 0xbf⟩
  else if lead = 0xed then some ⟨bits - 0xe0, 2, 0x80, 0x9f⟩
  else if lead < 0xf0 then some ⟨bits - 0xe0, 2, 0x80, 0xbf⟩
  else if lead = 0xf0 then some ⟨bits - 0xf0, 3, 0x90, 0xbf⟩
  else if lead < 0xf4 then some ⟨bits - 0xf0, 3, 0x80, 0xbf⟩
  else if lead = 0xf4 then some ⟨bits - 0xf0, 3, 0x80, 0x8f⟩
  else none

structure Decoder where
  text : String
  begun : Option Begun

namespace Decoder

def lead (text : String) (byte : UInt8) : Decoder :=
  if byte < 0x80 then ⟨text.push (Char.ofNat byte.toNat), none⟩
  else match begin? byte with
    | some begun => ⟨text, some begun⟩
    | none => ⟨text.push replacement, none⟩

def step (d : Decoder) (byte : UInt8) : Decoder :=
  match d.begun with
  | none => lead d.text byte
  | some b =>
    if b.low ≤ byte ∧ byte ≤ b.high then
      let bits := b.bits * 64 + (byte.toNat - 0x80)
      if b.follow = 1 then ⟨d.text.push (Char.ofNat bits), none⟩
      else ⟨d.text, some ⟨bits, b.follow - 1, 0x80, 0xbf⟩⟩
    else
      lead (d.text.push replacement) byte

def finish (d : Decoder) : String :=
  if d.begun.isSome then d.text.push replacement else d.text

end Decoder
end Utf8

def ofUtf8 (bytes : Array UInt8) : String :=
  (bytes.foldl Utf8.Decoder.step ⟨"", none⟩).finish

end Text
end Dwarf2
