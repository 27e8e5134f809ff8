/-
Tags: what kind of thing an entry describes.
-/
import Dwarf2.Text.Hex

namespace Dwarf2

structure Tag where
  code : UInt16
deriving DecidableEq, Repr

namespace Tag

@[match_pattern] def arrayType : Tag := ⟨1⟩
@[match_pattern] def classType : Tag := ⟨2⟩
@[match_pattern] def enumerationType : Tag := ⟨4⟩
@[match_pattern] def formalParameter : Tag := ⟨5⟩
@[match_pattern] def label : Tag := ⟨10⟩
@[match_pattern] def lexicalBlock : Tag := ⟨11⟩
@[match_pattern] def member : Tag := ⟨13⟩
@[match_pattern] def pointerType : Tag := ⟨15⟩
@[match_pattern] def referenceType : Tag := ⟨16⟩
@[match_pattern] def compileUnit : Tag := ⟨17⟩
@[match_pattern] def structureType : Tag := ⟨19⟩
@[match_pattern] def subroutineType : Tag := ⟨21⟩
@[match_pattern] def typedef : Tag := ⟨22⟩
@[match_pattern] def unionType : Tag := ⟨23⟩
@[match_pattern] def inlinedSubroutine : Tag := ⟨29⟩
@[match_pattern] def subrangeType : Tag := ⟨33⟩
@[match_pattern] def baseType : Tag := ⟨36⟩
@[match_pattern] def constType : Tag := ⟨38⟩
@[match_pattern] def enumerator : Tag := ⟨40⟩
@[match_pattern] def subprogram : Tag := ⟨46⟩
@[match_pattern] def var : Tag := ⟨52⟩
@[match_pattern] def volatileType : Tag := ⟨53⟩

/-- The tags of version 2.  Reserved codes and the bounds of the user range have no name. -/
def names : List (UInt16 × String) :=
  [(1, "DW_TAG_array_type"), (2, "DW_TAG_class_type"), (3, "DW_TAG_entry_point"),
   (4, "DW_TAG_enumeration_type"), (5, "DW_TAG_formal_parameter"),
   (8, "DW_TAG_imported_declaration"), (10, "DW_TAG_label"), (11, "DW_TAG_lexical_block"),
   (13, "DW_TAG_member"), (15, "DW_TAG_pointer_type"), (16, "DW_TAG_reference_type"),
   (17, "DW_TAG_compile_unit"), (18, "DW_TAG_string_type"), (19, "DW_TAG_structure_type"),
   (21, "DW_TAG_subroutine_type"), (22, "DW_TAG_typedef"), (23, "DW_TAG_union_type"),
   (24, "DW_TAG_unspecified_parameters"), (25, "DW_TAG_variant"), (26, "DW_TAG_common_block"),
   (27, "DW_TAG_common_inclusion"), (28, "DW_TAG_inheritance"), (29, "DW_TAG_inlined_subroutine"),
   (30, "DW_TAG_module"), (31, "DW_TAG_ptr_to_member_type"), (32, "DW_TAG_set_type"),
   (33, "DW_TAG_subrange_type"), (34, "DW_TAG_with_stmt"), (35, "DW_TAG_access_declaration"),
   (36, "DW_TAG_base_type"), (37, "DW_TAG_catch_block"), (38, "DW_TAG_const_type"),
   (39, "DW_TAG_constant"), (40, "DW_TAG_enumerator"), (41, "DW_TAG_file_type"),
   (42, "DW_TAG_friend"), (43, "DW_TAG_namelist"), (44, "DW_TAG_namelist_item"),
   (45, "DW_TAG_packed_type"), (46, "DW_TAG_subprogram"), (47, "DW_TAG_template_type_param"),
   (48, "DW_TAG_template_value_param"), (49, "DW_TAG_thrown_type"), (50, "DW_TAG_try_block"),
   (51, "DW_TAG_variant_part"), (52, "DW_TAG_variable"), (53, "DW_TAG_volatile_type")]

/-- The name of the tag, if version 2 gives it one. -/
def name? (tag : Tag) : Option String :=
  names.lookup tag.code

def text (tag : Tag) : String :=
  tag.name?.getD ("tag " ++ Text.hex tag.code.toNat)

end Tag
end Dwarf2
