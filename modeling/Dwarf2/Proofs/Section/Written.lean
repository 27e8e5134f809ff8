/-
What the reads of a section make of bytes that were written into it.

The bytes stand anywhere in the section, between any others.  `Reads` says that a read gives
the value that they were written for and takes not a byte more, and `Reads.bind` joins the
parts of a record without a word about positions.
-/
import Dwarf2.Proofs.Number
import Dwarf2.Section

namespace Dwarf2

variable {α β : Type}

namespace Bytes

/-- The bytes stand at `start`, with others before and after them. -/
def Holds (bytes : Bytes) (start : Nat) (written : List UInt8) : Prop :=
  ∃ before after, before.length = start ∧ bytes.toList = before ++ written ++ after

namespace Holds

variable {bytes : Bytes} {start : Nat} {byte : UInt8} {front back written : List UInt8}

theorem left (h : bytes.Holds start (front ++ back)) : bytes.Holds start front := by
  obtain ⟨before, after, length, eq⟩ := h
  exact ⟨before, back ++ after, length, by simp [eq]⟩

theorem right (h : bytes.Holds start (front ++ back)) :
    bytes.Holds (start + front.length) back := by
  obtain ⟨before, after, length, eq⟩ := h
  exact ⟨before ++ front, after, by simp [length], by simp [eq]⟩

theorem le_size (h : bytes.Holds start written) : start + written.length ≤ bytes.size := by
  obtain ⟨before, after, length, eq⟩ := h
  have := congrArg List.length eq
  simp only [Array.length_toList, List.length_append] at this
  omega

theorem extract_eq (h : bytes.Holds start written) :
    bytes.extract start (start + written.length) = written.toArray := by
  obtain ⟨before, after, rfl, eq⟩ := h
  apply Array.toList_inj.1
  rw [Array.toList_extract, eq, List.extract_eq_take_drop]
  simp

theorem head (h : bytes.Holds start (byte :: written)) :
    ∃ inside : start < bytes.size, bytes[start] = byte := by
  have inside : start < bytes.size := by
    have := h.le_size
    simp only [List.length_cons] at this
    omega
  obtain ⟨before, after, rfl, eq⟩ := h
  refine ⟨inside, ?_⟩
  simp [← Array.getElem_toList, eq]

theorem tail (h : bytes.Holds start (byte :: written)) : bytes.Holds (start + 1) written := by
  have split : bytes.Holds start ([byte] ++ written) := h
  exact split.right

end Holds

/-- A search passes the bytes that are not accepted. -/
theorem indexFrom?_of_holds {bytes : Bytes} {p : UInt8 → Bool} {front : List UInt8}
    {last : UInt8} {start : Nat} (h : bytes.Holds start (front ++ [last]))
    (before : ∀ byte ∈ front, p byte = false) (found : p last = true) :
    bytes.indexFrom? p start = some (start + front.length) := by
  induction front generalizing start with
  | nil =>
    obtain ⟨inside, eq⟩ := h.head
    rw [indexFrom?, dif_pos inside, eq, if_pos found]
    rfl
  | cons byte front ih =>
    obtain ⟨inside, eq⟩ := h.head
    have passed : ¬p byte = true := by
      rw [before byte List.mem_cons_self]
      exact Bool.false_ne_true
    rw [indexFrom?, dif_pos inside, eq, if_neg passed,
      ih h.tail fun other mem => before other (List.mem_cons_of_mem byte mem), List.length_cons]
    congr 1
    omega

theorem indexFrom?_eq_none {bytes : Bytes} {p : UInt8 → Bool} {start : Nat}
    (never : ∀ byte ∈ bytes.toList.drop start, p byte = false) :
    bytes.indexFrom? p start = none := by
  fun_induction indexFrom? bytes p start with
  | case1 start inside accepted =>
    have mem : bytes[start] ∈ bytes.toList.drop start := by
      rw [List.drop_eq_getElem_cons (by simpa using inside)]
      exact List.mem_cons_self
    rw [never _ mem] at accepted
    cases accepted
  | case2 start inside _ ih =>
    apply ih
    intro byte mem
    apply never
    rw [← List.drop_drop] at mem
    exact List.mem_of_mem_drop mem
  | case3 => rfl

end Bytes

namespace Section

variable {s : Section}

/-- Wherever the bytes stand in the section, the read gives the value and ends behind them. -/
def Reads (s : Section) (x : Read α) (a : α) (written : List UInt8) : Prop :=
  ∀ start, s.bytes.Holds start written → x.run start = .ok (a, start + written.length)

namespace Reads

theorem pure (a : α) : s.Reads (Pure.pure a) a [] :=
  fun _ _ => rfl

theorem bind {x : Read α} {f : α → Read β} {a : α} {b : β} {front back : List UInt8}
    (first : s.Reads x a front) (second : s.Reads (f a) b back) :
    s.Reads (x >>= f) b (front ++ back) := by
  intro start h
  rw [Read.run_bind_eq_ok]
  refine ⟨a, start + front.length, first start h.left, ?_⟩
  rw [second _ h.right, List.length_append, Nat.add_assoc]

theorem map {x : Read α} {a : α} {written : List UInt8} (h : s.Reads x a written) (f : α → β) :
    s.Reads (f <$> x) (f a) written := by
  intro start holds
  rw [Read.run_map, h start holds]
  rfl

theorem then_pure {x : Read α} {a : α} {written : List UInt8} (h : s.Reads x a written)
    (f : α → β) : s.Reads (x >>= fun a => Pure.pure (f a)) (f a) written :=
  h.map f

end Reads

theorem reads_take {written : List UInt8} {count : Nat} (length : written.length = count)
    (shortfall : Nat → Shortfall) : s.Reads (s.take count shortfall) written.toArray written := by
  intro start h
  subst length
  rw [take, Read.run_ofRun, if_pos h.le_size, h.extract_eq]

theorem reads_block {written : List UInt8} {count : Nat} (length : written.length = count) :
    s.Reads (s.block count) written.toArray written := by
  intro start h
  exact reads_take length _ start h

theorem reads_skip {written : List UInt8} {count : Nat} (length : written.length = count) :
    s.Reads (s.skip count) () written :=
  (reads_block length).map _

theorem reads_number {written : List UInt8} {width : Nat} (length : written.length = width) :
    s.Reads (s.number width) (s.order.number written) written :=
  (reads_take length _).map _

/-- A number is what its bytes spell, given that they are no more than a word has. -/
theorem reads_spelled {written : List UInt8} {width : Nat} {n : UInt64}
    (length : written.length = width) (short : width ≤ 8)
    (spelled : s.order.value written = n.toNat) : s.Reads (s.number width) n written := by
  have eq : s.order.number written = n := by
    apply UInt64.toNat.inj
    rw [s.order.toNat_number (length ▸ short), spelled]
  exact eq ▸ reads_number length

theorem reads_address {size : UInt8} {written : List UInt8} {n : UInt64}
    (addressable : 1 ≤ size ∧ size ≤ 8) (width : written.length = size.toNat)
    (spelled : s.order.value written = n.toNat) : s.Reads (s.address size) n written := by
  rw [address, if_pos addressable]
  exact reads_spelled width addressable.2 spelled

/-- A number that is read into a narrow word loses nothing. -/
theorem reads_narrowed {width : Nat} {narrow : UInt64 → α} {toNat : α → Nat}
    (narrows : ∀ n, toNat (narrow n) = n.toNat % 256 ^ width) (short : width ≤ 8)
    {written : List UInt8} (length : written.length = width) :
    ∃ n, toNat n = s.order.value written ∧ s.Reads (narrow <$> s.number width) n written := by
  subst length
  refine ⟨_, ?_, (reads_number rfl).map _⟩
  rw [narrows, s.order.toNat_number short]
  exact Nat.mod_eq_of_lt (s.order.value_lt written)

theorem reads_uint8 {written : List UInt8} (length : written.length = 1) :
    ∃ n : UInt8, n.toNat = s.order.value written ∧ s.Reads s.uint8 n written :=
  reads_narrowed UInt64.toNat_toUInt8 (by decide) length

theorem reads_byte (byte : UInt8) : s.Reads s.uint8 byte [byte] := by
  obtain ⟨n, value, reads⟩ := s.reads_uint8 (show [byte].length = 1 from rfl)
  have same : n = byte := by
    apply UInt8.toNat.inj
    rw [value]
    cases s.order <;> simp [ByteOrder.value]
  exact same ▸ reads

theorem reads_uint16 {written : List UInt8} (length : written.length = 2) :
    ∃ n : UInt16, n.toNat = s.order.value written ∧ s.Reads s.uint16 n written :=
  reads_narrowed UInt64.toNat_toUInt16 (by decide) length

theorem reads_uint32 {written : List UInt8} (length : written.length = 4) :
    ∃ n : UInt32, n.toNat = s.order.value written ∧ s.Reads s.uint32 n written :=
  reads_narrowed UInt64.toNat_toUInt32 (by decide) length

theorem reads_leb128 {groups : List UInt8} (closed : Leb128.Closed groups) :
    s.Reads s.leb128 groups groups := by
  obtain ⟨front, last, rfl, before, found⟩ := closed
  intro start h
  have index : Leb128.last? s.bytes start = some (start + front.length) :=
    Bytes.indexFrom?_of_holds h before found
  have extract := h.extract_eq
  rw [List.length_append, List.length_singleton] at extract ⊢
  simp only [leb128, Read.run_ofRun, index]
  rw [Nat.add_assoc, extract]

theorem reads_unsigned {groups : List UInt8} {n : UInt64}
    (spelled : Leb128.Spells groups n.toNat) : s.Reads s.unsigned n groups :=
  Leb128.unsigned_of_spells spelled ▸ (reads_leb128 spelled.1).map _

theorem reads_signed {groups : List UInt8} {n : Int64}
    (spelled : Leb128.SpellsSigned groups n.toInt) : s.Reads s.signed n groups :=
  Leb128.signed_of_spells spelled ▸ (reads_leb128 spelled.1).map _

theorem reads_string {text : List UInt8} (inner : 0 ∉ text) :
    s.Reads s.string text.toArray (text ++ [0]) := by
  intro start h
  have before : ∀ byte ∈ text, decide (byte = 0) = false := by
    intro byte mem
    exact decide_eq_false fun zero => inner (zero ▸ mem)
  have index := Bytes.indexFrom?_of_holds h before (decide_eq_true rfl)
  simp only [string, Read.run_ofRun, index, h.left.extract_eq]
  rw [List.length_append, List.length_singleton, Nat.add_assoc]

end Section
end Dwarf2
