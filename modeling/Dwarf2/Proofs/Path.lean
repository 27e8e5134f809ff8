/-
Which joined paths are absolute.

A path that is joined to a directory starts as the directory does.  The include directory of a
unit that was compiled nowhere is the exception: the slash that joins the two comes first there.
-/
import Mathlib.Data.List.DropRight
import Dwarf2.Path

namespace Dwarf2
namespace Path

@[simp] theorem isAbsolute_empty : isAbsolute "" = false :=
  rfl

theorem isAbsolute_append {first : String} (nonempty : first ≠ "") (rest : String) :
    isAbsolute (first ++ rest) = isAbsolute first := by
  have nonempty : first.toList ≠ [] := fun h => nonempty (String.toList_eq_nil_iff.1 h)
  rw [isAbsolute, isAbsolute, String.toList_append, List.head?_append_of_ne_nil _ nonempty]

theorem isAbsolute_ofFile (directory : Option String) (name : String) :
    isAbsolute (ofFile directory name) = (isAbsolute name || directory.any isAbsolute) := by
  unfold ofFile
  cases directory with
  | none => simp
  | some directory =>
    by_cases plain : (isAbsolute name || directory.isEmpty) = true
    · simp only [plain, if_true]
      rcases Bool.or_eq_true_iff.1 plain with absolute | empty
      · simp [absolute]
      · rw [String.isEmpty_iff.1 empty]
        simp
    · obtain ⟨relative, nonempty⟩ := not_or.1 (mt Bool.or_eq_true_iff.2 plain)
      have joined (rest : String) : isAbsolute (directory ++ rest) = isAbsolute directory :=
        isAbsolute_append (mt String.isEmpty_iff.2 nonempty) rest
      simp only [relative, nonempty, Bool.or_self, Bool.false_eq_true, if_false, Option.any_some,
        Bool.false_or]
      split
      · exact joined name
      · rw [String.append_assoc]
        exact joined _

theorem toList_dropSlashes (path : String) :
    (dropSlashes path).toList = path.toList.rdropWhile (· = '/') := by
  rw [dropSlashes, String.toList_ofList, List.rdropWhile]

/-- The slash behind a path comes to its front if there is nothing of the path but slashes. -/
theorem isAbsolute_dropSlashes (path rest : String) :
    isAbsolute (dropSlashes path ++ "/" ++ rest) = (isAbsolute path || path.isEmpty) := by
  have kept := toList_dropSlashes path
  by_cases gone : dropSlashes path = ""
  · have slashes : ∀ c ∈ path.toList, c = '/' := by
      rw [gone, String.toList_empty, eq_comm, List.rdropWhile_eq_nil_iff] at kept
      simpa using kept
    have front : isAbsolute ("/" ++ rest) = true := by
      rw [isAbsolute_append (by decide)]
      rfl
    rw [gone, String.empty_append, front]
    cases chars : path.toList with
    | nil => simp [String.toList_eq_nil_iff.1 chars]
    | cons c _ =>
      rw [chars] at slashes
      simp [isAbsolute, chars, slashes c List.mem_cons_self]
  · obtain ⟨tail, parts⟩ : path.toList.rdropWhile (· = '/') <+: path.toList :=
      List.rdropWhile_prefix _ _
    have whole : dropSlashes path ++ String.ofList tail = path := by
      rw [← String.toList_inj, String.toList_append, String.toList_ofList, kept, parts]
    have nonempty : path.isEmpty = false := by
      by_contra empty
      rw [Bool.not_eq_false, String.isEmpty_iff] at empty
      exact gone (by rw [empty]; decide)
    rw [String.append_assoc, isAbsolute_append gone, ← isAbsolute_append gone, whole, nonempty,
      Bool.or_false]

theorem isAbsolute_ofDirectory (compDir : Option String) (directory : String) :
    isAbsolute (ofDirectory compDir directory) =
      (isAbsolute directory || compDir.any fun path => isAbsolute path || path.isEmpty) := by
  unfold ofDirectory
  cases compDir with
  | none => simp
  | some compDir =>
    dsimp only
    split
    · rename_i absolute
      simp [absolute]
    · rename_i relative
      rw [isAbsolute_dropSlashes]
      simp [relative]

end Path
end Dwarf2
