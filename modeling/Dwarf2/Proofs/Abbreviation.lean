/-
The grammar of abbreviation tables.

`DeclaresAll` says what the bytes of a table are, without a word about how they are read: numbers go
by what their groups spell, however they are padded.  A table is read where the bytes at its offset
are of the grammar and nowhere else, and it knows the last declaration of each code:
`read_iff_declares`.
-/
import Dwarf2.Abbreviation
import Dwarf2.Proofs.Section.Taken

namespace Dwarf2
namespace Abbreviation

open Leb128 (Saturates Spells)

/-- A name and a form that are not both zero. -/
inductive Specifies : List UInt8 → AttributeSpec → Prop
  | intro {name form : List UInt8} {n : UInt16} {f : UInt64} (named : Spells name n.toNat)
      (formed : Saturates form f) (pair : ¬(n = 0 ∧ f = 0)) :
      Specifies (name ++ form) ⟨⟨n⟩, Form.ofCode f⟩

/-- The attributes of a declaration, up to the pair of zeros that ends them. -/
inductive Lists : List UInt8 → List AttributeSpec → Prop
  | done {name form : List UInt8} (named : Spells name 0) (formed : Spells form 0) :
      Lists (name ++ form) []
  | cons {front rest : List UInt8} {spec : AttributeSpec} {specs : List AttributeSpec}
      (specified : Specifies front spec) (more : Lists rest specs) :
      Lists (front ++ rest) (spec :: specs)

/-- A declaration: its code, the tag, a byte that is zero if there are no children, and the
attributes. -/
inductive Declares : List UInt8 → Abbreviation → Prop
  | intro {code tag attributes : List UInt8} {c : UInt64} {t : UInt16} {child : UInt8}
      {specs : List AttributeSpec} (coded : Saturates code c) (nonzero : c ≠ 0)
      (tagged : Spells tag t.toNat) (listed : Lists attributes specs) :
      Declares (code ++ (tag ++ ([child] ++ attributes))) ⟨c, ⟨t⟩, child ≠ 0, specs⟩

/-- Declarations up to a null code, whatever comes behind it, or up to the end of the bytes. -/
inductive DeclaresAll : List UInt8 → List Abbreviation → Prop
  | done : DeclaresAll [] []
  | null {code rest : List UInt8} (coded : Spells code 0) : DeclaresAll (code ++ rest) []
  | cons {front rest : List UInt8} {a : Abbreviation} {declarations : List Abbreviation}
      (declared : Declares front a) (more : DeclaresAll rest declarations) :
      DeclaresAll (front ++ rest) (a :: declarations)

variable {s : Section} {code : UInt64} {bytes : List UInt8} {start stop : Nat}

/-! ## What is written is read -/

theorem reads_null {name form : List UInt8} (named : Spells name 0) (formed : Spells form 0) :
    s.Reads (readAttribute? s code) none (name ++ form) := by
  have zeros : (Leb128.isZero name && Leb128.isZero form) = true :=
    Bool.and_eq_true_iff.2 ⟨(Leb128.isZero_iff name).2 named.2, (Leb128.isZero_iff form).2 formed.2⟩
  refine .behind_position fun start => ?_
  refine (Section.reads_leb128 named.1).bind ((Section.reads_leb128 formed.1).ending ?_)
  rw [if_pos zeros]
  exact .pure none

theorem reads_attribute {spec : AttributeSpec} (specified : Specifies bytes spec) :
    s.Reads (readAttribute? s code) (some spec) bytes := by
  obtain @⟨name, form, n, f, named, formed, pair⟩ := specified
  have some : ¬(Leb128.isZero name && Leb128.isZero form) = true := by
    rw [Bool.and_eq_true, Leb128.isZero_iff, Leb128.isZero_iff, named.2, ← formed.eq_zero_iff]
    rwa [← UInt16.toNat_inj] at pair
  refine .behind_position fun start => ?_
  refine (Section.reads_leb128 named.1).bind ((Section.reads_leb128 formed.1).ending ?_)
  rw [if_neg some, Leb128.uint16?_eq_some_iff.2 named.2, (Leb128.saturates_iff.1 formed).2]
  exact .pure _

theorem reads_readAttributes {specs : List AttributeSpec} (listed : Lists bytes specs) :
    s.Reads (readAttributes s code) specs bytes := by
  induction listed with
  | done named formed => exact (reads_null named formed).many_done
  | cons specified more ih => exact (reads_attribute specified).many_more ih

theorem reads_read? {a : Abbreviation} (declared : Declares bytes a) :
    s.Reads (read? s) (some a) bytes := by
  cases declared with
  | intro coded nonzero tagged listed =>
    refine (Section.reads_saturated coded).bind ?_
    rw [if_neg nonzero]
    refine Section.Reads.then_pure ?_ some
    refine .behind_position fun start => (Section.reads_leb128 tagged.1).bind ?_
    rw [Leb128.uint16?_eq_some_iff.2 tagged.2]
    exact (Section.reads_byte _).bind ((reads_readAttributes listed).then_pure _)

theorem reads_read?_null {code : List UInt8} (coded : Spells code 0) :
    s.Reads (read? s) none code :=
  (Section.reads_saturated (n := 0) coded.saturates).ending (.pure none)

theorem run_readAll {declarations : List Abbreviation} (declared : DeclaresAll bytes declarations)
    (there : start ≤ s.bytes.size) (rest : s.bytes.rest start = bytes) :
    ∃ stop, (readAll s).run start = .ok (declarations, stop) := by
  induction declared generalizing start with
  | done =>
    have ended : s.bytes.size ≤ start := Bytes.rest_eq_nil_iff.1 rest
    refine ⟨start, ?_⟩
    rw [readAll, Read.run_many, Section.run_untilEnd, if_pos ended]
  | @null code back coded =>
    have run := reads_read?_null coded start (Bytes.holds_of_rest there rest)
    -- Something has been read, so that the section does not end here.
    have begun : ¬s.bytes.size ≤ start := Nat.not_le.2 (read?_progresses s start _ _ run).1
    refine ⟨start + code.length, ?_⟩
    rw [readAll, Read.run_many, Section.run_untilEnd, if_neg begun, run]
  | @cons front back a declarations declared more ih =>
    have holds := Bytes.holds_of_rest there rest
    have run := reads_read? declared start holds
    have begun : ¬s.bytes.size ≤ start := Nat.not_le.2 (read?_progresses s start _ _ run).1
    obtain ⟨stop, tail⟩ := ih holds.le_size (Bytes.rest_add rest)
    refine ⟨stop, ?_⟩
    rw [readAll, Read.run_many, Section.run_untilEnd, if_neg begun, run]
    dsimp only
    rw [← readAll, tail]
    rfl

/-! ## What is read is written -/

theorem finds_readAttribute? (s : Section) (code : UInt64) : s.Finds (readAttribute? s code) fun
    | none, bytes => Lists bytes []
    | some spec, bytes => Specifies bytes spec := by
  refine .behind_position fun start => (Section.finds_leb128 s).bind ?_
  rintro name _ ⟨rfl, named⟩
  refine (Section.finds_leb128 s).bind ?_
  rintro form _ ⟨rfl, formed⟩
  split
  · rename_i zeros
    rw [Bool.and_eq_true, Leb128.isZero_iff, Leb128.isZero_iff] at zeros
    refine .pure ?_
    rw [List.append_nil]
    exact .done ⟨named, zeros.1⟩ ⟨formed, zeros.2⟩
  · rename_i some
    split
    · rename_i n narrow
      refine .pure ?_
      rw [List.append_nil]
      have spelled := Leb128.uint16?_eq_some_iff.1 narrow
      have saturated := Leb128.saturates_iff.2 ⟨formed, rfl⟩
      refine .intro ⟨named, spelled⟩ saturated fun ⟨name, form⟩ => some ?_
      rw [Bool.and_eq_true, Leb128.isZero_iff, Leb128.isZero_iff]
      exact ⟨spelled.trans (congrArg UInt16.toNat name), saturated.eq_zero_iff.1 form⟩
    · exact .fail _

theorem finds_readAttributes (s : Section) (code : UInt64) :
    s.Finds (readAttributes s code) fun specs bytes => Lists bytes specs :=
  (finds_readAttribute? s code).many (fun _ => id) fun _ _ _ _ => .cons

theorem finds_readBody (s : Section) {code : UInt64} (nonzero : code ≠ 0) :
    s.Finds (readBody s code) fun a bytes =>
      ∀ groups, Saturates groups code → Declares (groups ++ bytes) a := by
  refine .behind_position fun start => (Section.finds_leb128 s).bind ?_
  rintro tag _ ⟨rfl, closed⟩
  split
  · exact .fail _
  · rename_i t narrow
    refine (Section.takes_byte s).finds.bind ?_
    rintro child _ rfl
    refine (finds_readAttributes s code).then_pure _ fun specs attributes listed groups coded => ?_
    exact .intro coded nonzero ⟨closed, Leb128.uint16?_eq_some_iff.1 narrow⟩ listed

theorem finds_read? (s : Section) : s.Finds (read? s) fun
    | none, bytes => Spells bytes 0
    | some a, bytes => Declares bytes a := by
  refine (Section.takes_unsigned s).finds.bind fun c code coded => ?_
  split
  · rename_i null
    refine .pure ?_
    rw [List.append_nil]
    exact ⟨coded.1, coded.eq_zero_iff.1 null⟩
  · rename_i nonzero
    exact (finds_readBody s nonzero).then_pure some fun a bytes declared => declared code coded

theorem declares_of_readAll {declarations : List Abbreviation}
    (run : (readAll s).run start = .ok (declarations, stop)) (there : start ≤ s.bytes.size) :
    DeclaresAll (s.bytes.rest start) declarations := by
  refine Read.many_induction (P := fun start declarations _ => start ≤ s.bytes.size →
    DeclaresAll (s.bytes.rest start) declarations) ?_ ?_ run there
  · intro start stop run there
    rw [Section.run_untilEnd] at run
    split at run
    · rename_i ended
      rw [Bytes.rest_eq_nil_iff.2 ended]
      exact .done
    · obtain ⟨inside, null⟩ := finds_read? s _ _ _ there run
      rw [← Bytes.between_append_rest (Read.le_of_run run) inside]
      exact .null null
  · intro start a next declarations stop run ih there
    rw [Section.run_untilEnd] at run
    split at run
    · cases run
    · obtain ⟨inside, declared⟩ := finds_read? s _ _ _ there run
      rw [← Bytes.between_append_rest (Read.le_of_run run) inside]
      exact .cons declared (ih inside)

namespace Table

theorem get?_ofDeclarations (declarations : List Abbreviation) (code : UInt64) :
    (ofDeclarations declarations).get? code =
      (declarations.filter (·.code = code)).getLast? := by
  induction declarations using List.reverseRecOn with
  | nil => exact Std.HashMap.getElem?_empty
  | append_singleton front a ih =>
    rw [ofDeclarations, get?] at ih ⊢
    rw [List.foldl_append, List.foldl_cons, List.foldl_nil, Std.HashMap.getElem?_insert,
      List.filter_append, List.getLast?_append, ih]
    by_cases same : a.code = code <;> simp [same]

theorem read_of_run {declarations : List Abbreviation} (there : start ≤ s.bytes.size)
    (run : (readAll s).run start = .ok (declarations, stop)) :
    read s start = .ok (ofDeclarations declarations) := by
  rw [read, if_neg (Nat.not_lt.2 there), Read.value, run]
  rfl

theorem exists_run_of_read {t : Table} (h : read s start = .ok t) :
    start ≤ s.bytes.size ∧
      ∃ declarations stop, (readAll s).run start = .ok (declarations, stop) := by
  rw [read] at h
  split at h
  · cases h
  · rename_i inside
    refine ⟨Nat.not_lt.1 inside, ?_⟩
    rw [Read.value] at h
    cases run : (readAll s).run start with
    | error e =>
      rw [run] at h
      cases h
    | ok r => exact ⟨r.1, r.2, rfl⟩

/-- A table is read just where its grammar has the bytes up to a null code or the end of the
section, and it has the last declaration of each code. -/
theorem read_iff_declares (s : Section) (offset : Nat) :
    ((∃ t, read s offset = .ok t) ↔ offset ≤ s.bytes.size ∧
        ∃ declarations, DeclaresAll (s.bytes.rest offset) declarations) ∧
      ∀ t declarations, read s offset = .ok t →
        DeclaresAll (s.bytes.rest offset) declarations →
          ∀ code, t.get? code = (declarations.filter (·.code = code)).getLast? := by
  refine ⟨⟨?_, ?_⟩, ?_⟩
  · rintro ⟨t, h⟩
    obtain ⟨there, declarations, stop, run⟩ := exists_run_of_read h
    exact ⟨there, declarations, declares_of_readAll run there⟩
  · rintro ⟨there, declarations, declared⟩
    obtain ⟨stop, run⟩ := run_readAll declared there rfl
    exact ⟨_, read_of_run there run⟩
  · intro t declarations h declared code
    have there := (exists_run_of_read h).1
    obtain ⟨stop, run⟩ := run_readAll declared there rfl
    rw [read_of_run there run] at h
    cases h
    exact get?_ofDeclarations declarations code

/-- The code is declared again, by padded groups, and the section ends behind it. -/
theorem read_declared_twice :
    let s : Section := ⟨.abbreviations, .little, #[0xff,
      0x01, 0x11, 0x01, 0x03, 0x08, 0x00, 0x00,
      0x81, 0x00, 0x34, 0x02, 0x49, 0x13, 0x80, 0x00, 0x00]⟩
    let first : Abbreviation := ⟨1, ⟨0x11⟩, true, [⟨⟨0x03⟩, .string⟩]⟩
    let second : Abbreviation := ⟨1, ⟨0x34⟩, true, [⟨⟨0x49⟩, .ref4⟩]⟩
    DeclaresAll (s.bytes.rest 1) [first, second] ∧
      ∃ t, read s 1 = .ok t ∧ t.get? 1 = some second ∧ t.get? 2 = none := by
  intro s first second
  have single (group : UInt8) (last : Leb128.isLast group = true) :
      Spells [group] (group.toNat % 128) := ⟨.single last, by simp [Leb128.value_cons]⟩
  have padded : Leb128.Closed [0x80, 0x00] := .cons (by decide) (.single (by decide))
  have padded' : Leb128.Closed [0x81, 0x00] := .cons (by decide) (.single (by decide))
  have zero : Spells [0x00] 0 := single 0x00 (by decide)
  have string : Specifies [0x03, 0x08] ⟨⟨0x03⟩, .string⟩ :=
    @Specifies.intro [0x03] [0x08] 0x03 0x08 (single 0x03 (by decide))
      (single 0x08 (by decide)).saturates (by decide)
  have ref4 : Specifies [0x49, 0x13] ⟨⟨0x49⟩, .ref4⟩ :=
    @Specifies.intro [0x49] [0x13] 0x49 0x13 (single 0x49 (by decide))
      (single 0x13 (by decide)).saturates (by decide)
  have declared : Declares [0x01, 0x11, 0x01, 0x03, 0x08, 0x00, 0x00] first :=
    @Declares.intro [0x01] [0x11] _ 1 0x11 0x01 _ (single 0x01 (by decide)).saturates (by decide)
      (single 0x11 (by decide)) (.cons string (.done zero zero))
  have again : Declares [0x81, 0x00, 0x34, 0x02, 0x49, 0x13, 0x80, 0x00, 0x00] second :=
    @Declares.intro [0x81, 0x00] [0x34] _ 1 0x34 0x02 _ ⟨padded', by decide⟩ (by decide)
      (single 0x34 (by decide)) (.cons ref4 (.done ⟨padded, by decide⟩ zero))
  have all : DeclaresAll (s.bytes.rest 1) [first, second] := .cons declared (.cons again .done)
  obtain ⟨accepts, knows⟩ := read_iff_declares s 1
  obtain ⟨t, h⟩ := accepts.2 ⟨by decide, _, all⟩
  exact ⟨all, t, h, knows t _ h all 1, knows t _ h all 2⟩

end Table

end Abbreviation
end Dwarf2
