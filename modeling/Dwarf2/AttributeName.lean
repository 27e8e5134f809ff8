/-
Attribute names: what a value of an entry says about it.
-/
import Dwarf2.Text.Hex

namespace Dwarf2

structure AttributeName where
  code : UInt16
deriving DecidableEq, Repr

namespace AttributeName

def sibling : AttributeName := ⟨1⟩
def location : AttributeName := ⟨2⟩
def name : AttributeName := ⟨3⟩
def byteSize : AttributeName := ⟨11⟩
def bitOffset : AttributeName := ⟨12⟩
def bitSize : AttributeName := ⟨13⟩
def lineProgram : AttributeName := ⟨16⟩
def lowPc : AttributeName := ⟨17⟩
def highPc : AttributeName := ⟨18⟩
def compDir : AttributeName := ⟨27⟩
def constValue : AttributeName := ⟨28⟩
def lowerBound : AttributeName := ⟨34⟩
def upperBound : AttributeName := ⟨47⟩
def count : AttributeName := ⟨55⟩
def memberLocation : AttributeName := ⟨56⟩
def declaration : AttributeName := ⟨60⟩
def encoding : AttributeName := ⟨62⟩
def external : AttributeName := ⟨63⟩
def frameBase : AttributeName := ⟨64⟩
def type : AttributeName := ⟨73⟩

/-- The attribute names of version 2.  The bounds of the user range have no name. -/
def names : List (UInt16 × String) :=
  [(1, "DW_AT_sibling"), (2, "DW_AT_location"), (3, "DW_AT_name"), (9, "DW_AT_ordering"),
   (11, "DW_AT_byte_size"), (12, "DW_AT_bit_offset"), (13, "DW_AT_bit_size"),
   (16, "DW_AT_stmt_list"), (17, "DW_AT_low_pc"), (18, "DW_AT_high_pc"), (19, "DW_AT_language"),
   (21, "DW_AT_discr"), (22, "DW_AT_discr_value"), (23, "DW_AT_visibility"), (24, "DW_AT_import"),
   (25, "DW_AT_string_length"), (26, "DW_AT_common_reference"), (27, "DW_AT_comp_dir"),
   (28, "DW_AT_const_value"), (29, "DW_AT_containing_type"), (30, "DW_AT_default_value"),
   (32, "DW_AT_inline"), (33, "DW_AT_is_optional"), (34, "DW_AT_lower_bound"),
   (37, "DW_AT_producer"), (39, "DW_AT_prototyped"), (42, "DW_AT_return_addr"),
   (44, "DW_AT_start_scope"), (46, "DW_AT_stride_size"), (47, "DW_AT_upper_bound"),
   (49, "DW_AT_abstract_origin"), (50, "DW_AT_accessibility"), (51, "DW_AT_address_class"),
   (52, "DW_AT_artificial"), (53, "DW_AT_base_types"), (54, "DW_AT_calling_convention"),
   (55, "DW_AT_count"), (56, "DW_AT_data_member_location"), (57, "DW_AT_decl_column"),
   (58, "DW_AT_decl_file"), (59, "DW_AT_decl_line"), (60, "DW_AT_declaration"),
   (61, "DW_AT_discr_list"), (62, "DW_AT_encoding"), (63, "DW_AT_external"),
   (64, "DW_AT_frame_base"), (65, "DW_AT_friend"), (66, "DW_AT_identifier_case"),
   (67, "DW_AT_macro_info"), (68, "DW_AT_namelist_item"), (69, "DW_AT_priority"),
   (70, "DW_AT_segment"), (71, "DW_AT_specification"), (72, "DW_AT_static_link"),
   (73, "DW_AT_type"), (74, "DW_AT_use_location"), (75, "DW_AT_variable_parameter"),
   (76, "DW_AT_virtuality"), (77, "DW_AT_vtable_elem_location")]

/-- The name behind the code, if version 2 gives it one. -/
def name? (self : AttributeName) : Option String :=
  names.lookup self.code

def text (self : AttributeName) : String :=
  self.name?.getD ("attribute " ++ Text.hex self.code.toNat)

end AttributeName
end Dwarf2
