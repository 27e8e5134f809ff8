/-
Why a section, or a unit in it, cannot be decoded, and the message that says so.
-/
import Dwarf2.Leb128
import Dwarf2.Tag

namespace Dwarf2

inductive SectionKind
  | abbreviations
  | information
  | strings
  | lines
deriving DecidableEq, Repr

def SectionKind.name : SectionKind → String
  | abbreviations => ".debug_abbrev"
  | information => ".debug_info"
  | strings => ".debug_str"
  | lines => ".debug_line"

/-- What a read that reached the end of its section was after. -/
inductive Shortfall
  | number
  | leb128
  | terminator
  | bytes (needed remaining : Nat)
deriving DecidableEq, Repr

def Shortfall.message : Shortfall → String
  | number => "failed to fill whole buffer"
  | leb128 => Leb128.Fault.endOfBuffer.message
  | terminator => "data provided does not contain a nul"
  | bytes needed remaining => s!"needed {needed} bytes, only {remaining} remain"

/-- What is wrong with the data of a section, and where. -/
inductive Fault
  | truncated (position : Nat) (shortfall : Shortfall)
  | numberWidth (width position : Nat)
  | addressSize (size : UInt8) (position : Nat)
  | tableOffset (offset size : Nat)
  | tagTooWide (code : UInt64) (position : Nat)
  | nameTooWide (code : UInt64) (position : Nat)
  | undeclaredCode (entry : Nat) (code : UInt64)
  | noRootEntry (unit : Nat)
  | wideFormat (unit : Nat)
  | zeroLineRange (program : Nat)
  | zeroOpcodeBase (program : Nat)
  | programOffset (offset : Nat)
deriving DecidableEq, Repr

open Text in
def Fault.message : Fault → String
  | truncated position shortfall =>
    "section data ends unexpectedly at offset " ++ hex position ++ ": " ++ shortfall.message
  | numberWidth width position =>
    s!"invalid fixed integer width {width} at offset " ++ hex position
  | addressSize size position =>
    s!"unsupported address size {size} at offset " ++ hex position
  | tableOffset offset size =>
    "table offset " ++ hex offset ++ " is past the end of the section (" ++ hex size ++ " bytes)"
  | tagTooWide code position =>
    s!"abbreviation {code} has an invalid tag at offset " ++ hex position ++ ": "
      ++ Leb128.Fault.tooNarrow.message
  | nameTooWide code position =>
    s!"abbreviation {code} has an invalid attribute name at offset " ++ hex position ++ ": "
      ++ Leb128.Fault.tooNarrow.message
  | undeclaredCode entry code =>
    "entry at " ++ hex entry
      ++ s!" uses abbreviation code {code}, which is not in the table of its unit"
  | noRootEntry unit => "compilation unit at " ++ hex unit ++ " has no root entry"
  | wideFormat unit => "unit at " ++ hex unit ++ " uses the 64-bit format"
  | zeroLineRange program => "line program at " ++ hex program ++ " has a line range of zero"
  | zeroOpcodeBase program => "line program at " ++ hex program ++ " has an opcode base of zero"
  | programOffset offset =>
    "line program offset " ++ hex offset ++ " is past the end of the section"

inductive Error
  | malformed (kind : SectionKind) (fault : Fault)
  | unsupportedVersion (version : UInt16)
  | unexpectedRoot (tag : Tag)
deriving DecidableEq, Repr

def Error.message : Error → String
  | malformed kind fault => "invalid " ++ kind.name ++ " section: " ++ fault.message
  | unsupportedVersion version =>
    s!"DWARF version {version} is not supported, only version 2 is"
  | unexpectedRoot tag =>
    "root entry has tag " ++ Text.hexPadded 4 tag.code.toNat ++ ", expected DW_TAG_compile_unit"

end Dwarf2
