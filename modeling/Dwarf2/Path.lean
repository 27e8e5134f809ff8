/-
Paths of source files: which directory a name is relative to.
-/
namespace Dwarf2
namespace Path

def isAbsolute (path : String) : Bool :=
  path.toList.head? = some '/'

def endsInSlash (path : String) : Bool :=
  path.toList.getLast? = some '/'

/-- The file `name` in a directory.  An absolute name, and any name without a directory,
stands for itself. -/
def ofFile (directory : Option String) (name : String) : String :=
  match directory with
  | none => name
  | some directory =>
    if isAbsolute name || directory.isEmpty then name
    else if endsInSlash directory then directory ++ name
    else directory ++ "/" ++ name

def dropSlashes (path : String) : String :=
  String.ofList (path.toList.reverse.dropWhile (· = '/')).reverse

/-- An include directory, seen from the directory that the unit was compiled in. -/
def ofDirectory (compDir : Option String) (directory : String) : String :=
  match compDir with
  | none => directory
  | some compDir =>
    if isAbsolute directory then directory else dropSlashes compDir ++ "/" ++ directory

end Path
end Dwarf2
