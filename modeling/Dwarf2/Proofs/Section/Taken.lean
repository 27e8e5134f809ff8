/-
What stands where a read has been.

`Reads` goes from what is written to what is read.  `Takes` is the way back: the bytes that a read
takes are written as a format has it, and where the read fails, something of the format is begun
and not brought to its end.
-/
import Dwarf2.Proofs.Number.Spelling
import Dwarf2.Proofs.Section.Carried

namespace Dwarf2

variable {α β : Type}

namespace Bytes

variable {bytes : Bytes} {start stop : Nat}

theorem rest_eq_cons (inside : start < bytes.size) :
    bytes.rest start = bytes[start] :: bytes.rest (start + 1) := by
  rw [← between_append_rest (Nat.le_succ start) inside,
    between_eq_cons inside (Nat.lt_succ_self start), between_self]
  rfl

theorem indexFrom?_eq_none_iff {p : UInt8 → Bool} :
    bytes.indexFrom? p start = none ↔ ∀ byte ∈ bytes.rest start, p byte = false := by
  refine ⟨fun none => ?_, indexFrom?_eq_none⟩
  fun_induction indexFrom? bytes p start with
  | case1 => cases none
  | case2 start inside passed ih =>
    rw [rest_eq_cons inside]
    intro byte mem
    rcases List.mem_cons.1 mem with rfl | mem
    · exact Bool.eq_false_iff.2 passed
    · exact ih none byte mem
  | case3 start outside =>
    rw [rest_eq_nil_iff.2 (Nat.not_lt.1 outside)]
    exact fun _ mem => absurd mem List.not_mem_nil

theorem length_rest (inside : start ≤ bytes.size) :
    start + (bytes.rest start).length = bytes.size := by
  rw [rest, List.length_drop, Array.length_toList]
  omega

end Bytes

namespace Section

variable {s : Section}

/-- What is done with a value takes no more bytes. -/
theorem Reads.ending {x : Read α} {f : α → Read β} {a : α} {b : β} {written : List UInt8}
    (h : s.Reads x a written) (rest : s.Reads (f a) b []) : s.Reads (x >>= f) b written :=
  List.append_nil written ▸ h.bind rest

/-- Where a read begins does not count among the bytes. -/
theorem Reads.behind_position {f : Nat → Read α} {a : α} {written : List UInt8}
    (h : ∀ position, s.Reads (f position) a written) :
    s.Reads (Read.position >>= f) a written :=
  fun start holds => (Read.run_bind ..).trans (h start start holds)

/-- Where nothing more is to be read, the items end. -/
theorem Reads.many_done {x : Read (Option α)} {size : Nat} {progress : x.ItemsProgress size}
    {written : List UInt8} (h : s.Reads x none written) :
    s.Reads (Read.many x size progress) [] written := by
  intro start holds
  rw [Read.run_many, h start holds]

theorem Reads.many_more {x : Read (Option α)} {size : Nat} {progress : x.ItemsProgress size}
    {a : α} {items : List α} {front back : List UInt8} (first : s.Reads x (some a) front)
    (more : s.Reads (Read.many x size progress) items back) :
    s.Reads (Read.many x size progress) (a :: items) (front ++ back) := by
  intro start holds
  rw [Read.run_many, first start holds.left]
  dsimp only
  rw [more _ holds.right, List.length_append, ← Nat.add_assoc]
  rfl

/-- What the read takes is written as the format has it. -/
def Finds (s : Section) (x : Read α) (format : α → List UInt8 → Prop) : Prop :=
  ∀ start a stop, start ≤ s.bytes.size → x.run start = .ok (a, stop) →
    stop ≤ s.bytes.size ∧ format a (s.bytes.between start stop)

/-- The read fails only where the section ends inside of something that is written as the format
has it. -/
def BreaksOff (s : Section) (x : Read α) (format : α → List UInt8 → Prop) : Prop :=
  ∀ start e, start ≤ s.bytes.size → x.run start = .error e →
    ∃ a back, back ≠ [] ∧ format a (s.bytes.rest start ++ back)

structure Takes (s : Section) (x : Read α) (format : α → List UInt8 → Prop) : Prop where
  finds : s.Finds x format
  breaksOff : s.BreaksOff x format

namespace Finds

variable {format : α → List UInt8 → Prop} {format' : β → List UInt8 → Prop} {x : Read α}

theorem pure {a : α} (empty : format a []) : s.Finds (Pure.pure a) format := by
  intro start b stop inside run
  cases run
  rw [Bytes.between_self]
  exact ⟨inside, empty⟩

theorem fail (e : Error) : s.Finds (Read.fail e) format :=
  fun _ _ _ _ run => nomatch run

theorem bind {f : α → Read β} (first : s.Finds x format)
    (second : ∀ a front, format a front → s.Finds (f a) fun b back => format' b (front ++ back)) :
    s.Finds (x >>= f) format' := by
  intro start b stop inside run
  obtain ⟨a, middle, run, run'⟩ := Read.run_bind_eq_ok.1 run
  obtain ⟨inside, front⟩ := first start a middle inside run
  rw [← Bytes.between_append (Read.le_of_run run) (Read.le_of_run run')]
  exact second a _ front middle b stop inside run'

theorem behind_position {f : Nat → Read α} (h : ∀ position, s.Finds (f position) format) :
    s.Finds (Read.position >>= f) format :=
  fun start a stop inside run => h start start a stop inside ((Read.run_bind ..).symm.trans run)

theorem then_pure (h : s.Finds x format) (f : α → β)
    (imp : ∀ a bytes, format a bytes → format' (f a) bytes) :
    s.Finds (x >>= fun a => Pure.pure (f a)) format' :=
  h.bind fun a front written => .pure (by rw [List.append_nil]; exact imp a front written)

/-- Items one after another, the last of them told by what stands behind it. -/
theorem many {x : Read (Option α)} {size : Nat} {progress : x.ItemsProgress size}
    {item : Option α → List UInt8 → Prop} {format : List α → List UInt8 → Prop}
    (each : s.Finds x item) (done : ∀ bytes, item none bytes → format [] bytes)
    (more : ∀ a items front back, item (some a) front → format items back →
      format (a :: items) (front ++ back)) : s.Finds (Read.many x size progress) format := by
  intro start items stop inside run
  refine Read.many_induction (P := fun start items stop => start ≤ s.bytes.size →
    start ≤ stop ∧ stop ≤ s.bytes.size ∧ format items (s.bytes.between start stop))
    ?_ ?_ run inside |>.right
  · intro start stop run inside
    exact ⟨Read.le_of_run run, (each _ _ _ inside run).imp_right (done _)⟩
  · intro start a next items stop run ih inside
    obtain ⟨inside, front⟩ := each _ _ _ inside run
    obtain ⟨le, inside, back⟩ := ih inside
    refine ⟨(Read.le_of_run run).trans le, inside, ?_⟩
    rw [← Bytes.between_append (Read.le_of_run run) le]
    exact more _ _ _ _ front back

end Finds

namespace Takes

variable {format : α → List UInt8 → Prop} {format' : β → List UInt8 → Prop} {x : Read α}

theorem pure {a : α} (empty : format a []) : s.Takes (Pure.pure a) format :=
  ⟨.pure empty, fun _ _ _ run => nomatch run⟩

theorem imp {format' : α → List UInt8 → Prop} (h : s.Takes x format)
    (imp : ∀ a bytes, format a bytes → format' a bytes) : s.Takes x format' := by
  constructor
  · intro start a stop inside run
    exact (h.finds start a stop inside run).imp_right (imp a _)
  · intro start e inside run
    obtain ⟨a, back, more, written⟩ := h.breaksOff start e inside run
    exact ⟨a, back, more, imp a _ written⟩

theorem then_pure (h : s.Takes x format) (f : α → β)
    (imp : ∀ a bytes, format a bytes → format' (f a) bytes) :
    s.Takes (x >>= fun a => Pure.pure (f a)) format' := by
  refine ⟨h.finds.then_pure f imp, fun start e inside run => ?_⟩
  rw [Read.run_bind] at run
  cases first : x.run start with
  | error e =>
    obtain ⟨a, back, more, written⟩ := h.breaksOff start e inside first
    exact ⟨f a, back, more, imp a _ written⟩
  | ok r =>
    rw [first] at run
    cases run

end Takes

/-! ## Numbers -/

theorem finds_leb128 (s : Section) :
    s.Finds s.leb128 fun groups bytes => bytes = groups ∧ Leb128.Closed bytes := by
  intro start groups stop inside run
  have inside := s.le_size_of_leb128 ⟨groups, run⟩
  rw [leb128, Read.run_ofRun] at run
  split at run
  · rename_i last found
    cases run
    obtain ⟨last, parts, before, marked⟩ := Bytes.between_of_indexFrom? found
    exact ⟨inside, rfl, _, last, parts, before, marked⟩
  · cases run

theorem error_leb128_iff {start : Nat} :
    (∃ e, s.leb128.run start = .error e) ↔
      ∀ group ∈ s.bytes.rest start, Leb128.isLast group = false := by
  rw [← Bytes.indexFrom?_eq_none_iff, leb128, Read.run_ofRun, Leb128.last?]
  cases s.bytes.indexFrom? Leb128.isLast start <;> simp

/-- Groups that do not end are ended by another one. -/
theorem breaksOff_leb128 (s : Section) : s.BreaksOff s.leb128 fun groups bytes =>
    bytes = groups ∧ Leb128.Closed bytes := by
  intro start e inside run
  have unended := error_leb128_iff.1 ⟨e, run⟩
  exact ⟨_, [0], List.cons_ne_nil 0 [], rfl, _, 0, rfl, unended, rfl⟩

theorem takes_unsigned (s : Section) :
    s.Takes s.unsigned fun n bytes => Leb128.Saturates bytes n :=
  Takes.then_pure ⟨finds_leb128 s, breaksOff_leb128 s⟩ Leb128.unsigned
    fun _ _ ⟨same, closed⟩ => Leb128.saturates_iff.2 ⟨closed, congrArg Leb128.unsigned same⟩

theorem takes_signed (s : Section) : s.Takes s.signed fun n bytes => Leb128.Wraps bytes n :=
  Takes.then_pure ⟨finds_leb128 s, breaksOff_leb128 s⟩ Leb128.signed
    fun _ _ ⟨same, closed⟩ => Leb128.wraps_iff.2 ⟨closed, congrArg Leb128.signed same⟩

theorem reads_saturated {groups : List UInt8} {n : UInt64} (spelled : Leb128.Saturates groups n) :
    s.Reads s.unsigned n groups := by
  obtain ⟨closed, rfl⟩ := Leb128.saturates_iff.1 spelled
  exact (reads_leb128 closed).map _

theorem reads_wrapped {groups : List UInt8} {n : Int64} (spelled : Leb128.Wraps groups n) :
    s.Reads s.signed n groups := by
  obtain ⟨closed, rfl⟩ := Leb128.wraps_iff.1 spelled
  exact (reads_leb128 closed).map _

theorem takes_take (s : Section) (count : Nat) (shortfall : Nat → Shortfall) :
    s.Takes (s.take count shortfall) fun taken bytes =>
      bytes.length = count ∧ taken = bytes.toArray := by
  constructor
  · intro start taken stop inside run
    rw [take, Read.run_ofRun] at run
    split at run
    · rename_i enough
      cases run
      have length := Bytes.length_between (Nat.le_add_right start count) enough
      exact ⟨enough, Nat.add_left_cancel length, rfl⟩
    · cases run
  · intro start e inside run
    rw [take, Read.run_ofRun] at run
    split at run
    · cases run
    · rename_i short
      have length := Bytes.length_rest inside
      have missing : (s.bytes.rest start).length < count := by omega
      refine ⟨_, List.replicate (count - (s.bytes.rest start).length) 0, ?_, ?_, rfl⟩
      · rw [Ne, List.replicate_eq_nil_iff]
        omega
      · rw [List.length_append, List.length_replicate]
        omega

theorem takes_number (s : Section) {width : Nat} (short : width ≤ 8) :
    s.Takes (s.number width) fun n bytes =>
      bytes.length = width ∧ s.order.value bytes = n.toNat := by
  refine Takes.then_pure (takes_take s width _) (fun bytes => s.order.number bytes.toList) ?_
  rintro taken bytes ⟨length, rfl⟩
  exact ⟨length, (s.order.toNat_number (length ▸ short)).symm⟩

/-- A number that is read into a narrow word. -/
theorem takes_narrowed (s : Section) {width : Nat} (short : width ≤ 8) {narrow : UInt64 → α}
    {toNat : α → Nat} (narrows : ∀ n, toNat (narrow n) = n.toNat % 256 ^ width) :
    s.Takes (narrow <$> s.number width) fun a bytes =>
      bytes.length = width ∧ s.order.value bytes = toNat a := by
  refine Takes.then_pure (takes_number s short) narrow ?_
  rintro n bytes ⟨length, spelled⟩
  refine ⟨length, ?_⟩
  rw [narrows, ← spelled, Nat.mod_eq_of_lt (length ▸ s.order.value_lt bytes)]

theorem takes_uint8 (s : Section) :
    s.Takes s.uint8 fun n bytes => bytes.length = 1 ∧ s.order.value bytes = n.toNat :=
  takes_narrowed s (by decide) UInt64.toNat_toUInt8

theorem takes_byte (s : Section) : s.Takes s.uint8 fun byte bytes => bytes = [byte] := by
  refine (takes_uint8 s).imp ?_
  rintro byte bytes ⟨length, spelled⟩
  obtain ⟨other, rfl⟩ := List.length_eq_one_iff.1 length
  rw [ByteOrder.value_single, UInt8.toNat_inj] at spelled
  rw [spelled]

theorem takes_int8 (s : Section) :
    s.Takes s.int8 fun n bytes => ∃ byte, bytes = [byte] ∧ byte.toInt8 = n :=
  Takes.then_pure (takes_byte s) UInt8.toInt8 fun byte _ same => ⟨byte, same, rfl⟩

theorem takes_uint16 (s : Section) :
    s.Takes s.uint16 fun n bytes => bytes.length = 2 ∧ s.order.value bytes = n.toNat :=
  takes_narrowed s (by decide) UInt64.toNat_toUInt16

theorem takes_uint32 (s : Section) :
    s.Takes s.uint32 fun n bytes => bytes.length = 4 ∧ s.order.value bytes = n.toNat :=
  takes_narrowed s (by decide) UInt64.toNat_toUInt32

theorem takes_address (s : Section) {size : UInt8} (addressable : 1 ≤ size ∧ size ≤ 8) :
    s.Takes (s.address size) fun n bytes =>
      bytes.length = size.toNat ∧ s.order.value bytes = n.toNat := by
  rw [address, if_pos addressable]
  exact takes_number s addressable.2

/-- An address is read only in a unit that has addresses. -/
theorem finds_address (s : Section) (size : UInt8) :
    s.Finds (s.address size) fun n bytes =>
      (1 ≤ size ∧ size ≤ 8) ∧ bytes.length = size.toNat ∧ s.order.value bytes = n.toNat := by
  intro start n stop inside run
  by_cases addressable : 1 ≤ size ∧ size ≤ 8
  · obtain ⟨inside, found⟩ := (takes_address s addressable).finds start n stop inside run
    exact ⟨inside, addressable, found⟩
  · rw [address, if_neg addressable, Read.run_bind] at run
    cases run

theorem finds_string (s : Section) :
    s.Finds s.string fun _ bytes => ∃ text : List UInt8, 0 ∉ text ∧ bytes = text ++ [0] := by
  intro start text stop inside run
  have inside := s.le_size_of_string ⟨text, run⟩
  rw [string, Read.run_ofRun] at run
  split at run
  · rename_i last found
    cases run
    obtain ⟨byte, parts, before, accepted⟩ := Bytes.between_of_indexFrom? found
    refine ⟨inside, s.bytes.between start last, fun mem => ?_, parts.trans ?_⟩
    · simpa using before 0 mem
    · simpa using accepted
  · cases run

theorem finds_skip (s : Section) (count : Nat) :
    s.Finds (s.skip count) fun _ bytes => bytes.length = count :=
  (takes_take s count _).finds.then_pure (fun _ => ()) fun _ _ taken => taken.1

end Section
end Dwarf2
