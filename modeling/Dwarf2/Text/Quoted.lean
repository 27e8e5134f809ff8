/-
Names in messages: between double quotes, with everything escaped that could not be told
apart.  A single quote ends nothing there and stands as it is.
-/
import Dwarf2.Text.Hex
import Dwarf2.Text.Hidden

namespace Dwarf2
namespace Text

/-- A character as it stands between quotes. -/
def escaped (c : Char) : String :=
  match c.toNat with
  | 0x00 => "\\0"
  | 0x09 => "\\t"
  | 0x0a => "\\n"
  | 0x0d => "\\r"
  | 0x22 => "\\\""
  | 0x5c => "\\\\"
  | code =>
    if isHidden c then "\\u\x7b" ++ hexDigits code ++ "\x7d" else String.singleton c

def quoted (name : String) : String :=
  "\"" ++ String.join (name.toList.map escaped) ++ "\""

end Text
end Dwarf2
