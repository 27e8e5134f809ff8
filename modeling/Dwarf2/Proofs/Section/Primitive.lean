/-
The steps that all other reads are made of.

`Exact` is what they can be relied on for, wherever in a section they are taken, or behind it.
-/
import Dwarf2.Proofs.Section.Cursor

namespace Dwarf2
namespace Cursor

variable {α β : Type}

/-- All that is read in one step. -/
inductive Primitive : Type → Type
  | uint8 : Primitive UInt8
  | int8 : Primitive Int8
  | uint16 : Primitive UInt16
  | uint32 : Primitive UInt32
  | uint64 : Primitive UInt64
  | fixed (width : UInt64) : Primitive UInt64
  | address (size : UInt8) : Primitive UInt64
  | leb128 : Primitive (List UInt8)
  | unsigned : Primitive UInt64
  | signed : Primitive Int64
  | string : Primitive Bytes
  | block (count : UInt64) : Primitive Bytes
  | skip (count : UInt64) : Primitive Unit

namespace Primitive

def step (s : Section) (stray : UInt64 → UInt64) : Primitive α → Cursor α
  | uint8 => Cursor.uint8 s stray
  | int8 => Cursor.int8 s stray
  | uint16 => Cursor.uint16 s stray
  | uint32 => Cursor.uint32 s stray
  | uint64 => Cursor.uint64 s stray
  | fixed width => Cursor.fixed s stray width
  | address size => Cursor.address s stray size
  | leb128 => Cursor.leb128 s
  | unsigned => Cursor.unsigned s
  | signed => Cursor.signed s
  | string => Cursor.string s
  | block count => Cursor.block s count
  | skip count => Cursor.skip s count

def read (s : Section) : Primitive α → Read α
  | uint8 => s.uint8
  | int8 => s.int8
  | uint16 => s.uint16
  | uint32 => s.uint32
  | uint64 => s.uint64
  | fixed width => s.fixed width.toNat
  | address size => s.address size
  | leb128 => s.leb128
  | unsigned => s.unsigned
  | signed => s.signed
  | string => s.string
  | block count => s.block count.toNat
  | skip count => s.skip count.toNat

variable {s s' : Section} {start stop : Nat}

theorem mirrors (m : Loaded) (stray : UInt64 → UInt64) (r : Primitive α) :
    Mirrors (r.step m.toSection stray) (r.read m.toSection) := by
  cases r with
  | uint8 => exact (mirrors_number m stray (by decide)).map _
  | int8 => exact ((mirrors_number m stray (by decide)).map _).map _
  | uint16 => exact (mirrors_number m stray (by decide)).map _
  | uint32 => exact (mirrors_number m stray (by decide)).map _
  | uint64 => exact mirrors_number m stray (by decide)
  | fixed width => exact mirrors_fixed m stray width
  | address size => exact mirrors_address m stray size
  | leb128 => exact mirrors_leb128 m
  | unsigned => exact (mirrors_leb128 m).map _
  | signed => exact (mirrors_leb128 m).map _
  | string => exact mirrors_string m
  | block count => exact mirrors_block m count
  | skip count => exact (mirrors_block m count).map _

theorem carries (same : s'.order = s.order) (r : Primitive α) :
    s.Carries s' (r.read s) (r.read s') := by
  cases r with
  | uint8 => exact Section.carries_uint8 same
  | int8 => exact Section.carries_int8 same
  | uint16 => exact Section.carries_uint16 same
  | uint32 => exact Section.carries_uint32 same
  | uint64 => exact Section.carries_number same 8
  | fixed width => exact Section.carries_fixed same width.toNat
  | address size => exact Section.carries_address same size
  | leb128 => exact Section.carries_leb128 s s'
  | unsigned => exact Section.carries_unsigned s s'
  | signed => exact Section.carries_signed s s'
  | string => exact Section.carries_string s s'
  | block count => exact Section.carries_block s s' count.toNat
  | skip count => exact Section.carries_skip s s' count.toNat

theorem le_size (r : Primitive α) (lands : (r.read s).Lands start stop) :
    stop ≤ s.bytes.size := by
  have number {width : Nat} (lands : (s.number width).Lands start stop) : stop ≤ s.bytes.size :=
    ((s.lands_number ..).1 lands).2
  cases r with
  | uint8 | uint16 | uint32 => exact number ((Read.lands_map ..).1 lands)
  | int8 => exact number ((Read.lands_map ..).1 ((Read.lands_map ..).1 lands))
  | uint64 => exact number lands
  | fixed width =>
    by_cases known : width.toNat = 1 ∨ width.toNat = 2 ∨ width.toNat = 4 ∨ width.toNat = 8
    · exact ((s.lands_fixed known ..).1 lands).2
    · rw [read, Section.fixed, if_neg known] at lands
      exact absurd lands (s.not_lands_fault _ start stop)
  | address size => exact ((s.lands_address ..).1 lands).1.2
  | leb128 => exact s.le_size_of_leb128 lands
  | unsigned | signed => exact s.le_size_of_leb128 ((Read.lands_map ..).1 lands)
  | string => exact s.le_size_of_string lands
  | block count => exact ((s.lands_block ..).1 lands).2
  | skip count => exact ((s.lands_skip ..).1 lands).2

/-- Whether a step that fails leaves the position alone. -/
def steady : Primitive α → Bool
  | leb128 | unsigned | signed | string | block _ | skip _ => true
  | _ => false

end Primitive

section Loaded

variable (m : Loaded) (stray : UInt64 → UInt64)

/-- Where a step fails, the position is what it was. -/
def Steady (x : Cursor α) : Prop :=
  ∀ start e stop, x start = (.error e, stop) → stop = start

theorem Steady.map {x : Cursor α} (h : Steady x) (f : α → β) : Steady (f <$> x) := by
  intro start e stop run
  rw [map_apply] at run
  match first : x start with
  | (.error _, stop') =>
    rw [first] at run
    cases run
    exact h start _ _ first
  | (.ok a, stop') =>
    rw [first] at run
    cases run

theorem steady_leb128 (s : Section) : Steady (leb128 s) := by
  intro start e stop run
  rw [leb128_eq] at run
  split at run <;> cases run
  rfl

theorem steady_string (s : Section) : Steady (string s) := by
  intro start e stop run
  rw [string_eq] at run
  split at run <;> cases run
  rfl

theorem steady_block (count : UInt64) : Steady (block m.toSection count) := by
  intro start e stop run
  rw [block_eq] at run
  split at run <;> cases run
  rfl

theorem Primitive.steady_step (r : Primitive α) (steady : r.steady = true) :
    Steady (r.step m.toSection stray) := by
  cases r with
  | leb128 => exact steady_leb128 m.toSection
  | unsigned | signed => exact (steady_leb128 m.toSection).map _
  | string => exact steady_string m.toSection
  | block count => exact steady_block m count
  | skip count => exact (steady_block m count).map _
  | _ => cases steady

/-- The bytes that the step takes are all that it goes by. -/
theorem Primitive.step_elsewhere {m m' : Loaded} {stray stray' : UInt64 → UInt64} (r : Primitive α)
    {start start' stop : UInt64} {a : α} (run : r.step m.toSection stray start = (.ok a, stop))
    (same : m'.order = m.order)
    (holds : m'.bytes.Holds start'.toNat (m.bytes.between start.toNat stop.toNat)) :
    r.step m'.toSection stray' start' = (.ok a, start' + (stop - start)) := by
  rw [(r.mirrors m stray).eq_ok_iff] at run
  have le := Read.le_of_run run
  have inside := r.le_size ⟨a, run⟩
  obtain ⟨-, reads⟩ := r.carries same _ a _ (le.trans inside) run
  have read := reads start'.toNat holds
  have length := Bytes.length_between le inside
  have size := holds.le_size
  have behind : (start' + (stop - start)).toNat = start'.toNat + (stop.toNat - start.toNat) := by
    have forward : start ≤ stop := le
    have taken := UInt64.toNat_sub_of_le _ _ forward
    rw [UInt64.toNat_add, taken, Nat.mod_eq_of_lt]
    have room : m'.bytes.size < 2 ^ 64 := m'.addressable
    omega
  rw [(r.mirrors m' stray').eq_ok_iff, read, behind]
  congr 2
  omega

theorem run_number (s : Section) (width start : Nat) : (s.number width).run start =
    if start + width ≤ s.bytes.size then
      .ok (s.order.number (s.bytes.between start (start + width)), start + width)
    else .error (.malformed s.kind (.truncated start .number)) := by
  rw [Section.number, Read.run_map, Section.take, Read.run_ofRun]
  split <;> rfl

/-- There are so many bytes, and they spell the number. -/
def Loaded.HasNumber (m : Loaded) (width : Nat) (start stop n : UInt64) : Prop :=
  start.toNat + width ≤ m.bytes.size ∧ stop.toNat = start.toNat + width ∧
    n.toNat = m.order.value (m.bytes.between start.toNat (start.toNat + width))

theorem number_eq_ok_iff {width : Nat} (pos : 1 ≤ width) (short : width ≤ 8)
    {start stop n : UInt64} :
    number m.toSection stray width start = (.ok n, stop) ↔ m.HasNumber width start stop n := by
  rw [(mirrors_number m stray pos).eq_ok_iff, run_number, Loaded.HasNumber]
  split
  · rename_i inside
    have length : (m.bytes.between start.toNat (start.toNat + width)).length = width :=
      Nat.add_left_cancel (Bytes.length_between (Nat.le_add_right ..) inside)
    rw [← m.order.toNat_number (length.trans_le short), UInt64.toNat_inj]
    simp only [Except.ok.injEq, Prod.mk.injEq, inside, true_and]
    exact ⟨fun ⟨value, behind⟩ => ⟨behind.symm, value.symm⟩,
      fun ⟨behind, value⟩ => ⟨value.symm, behind.symm⟩⟩
  · rename_i outside
    exact iff_of_false nofun fun h => outside h.1

/-- What is peeked at is how far a step over the number goes, whatever it makes of the groups. -/
theorem peek_iff (f : List UInt8 → β) {start : UInt64} {n : Nat} :
    peekLeb128 m.toSection start = (.ok n, start) ↔
      ∃ b stop, (f <$> leb128 m.toSection) start = (.ok b, stop) ∧
        stop.toNat = start.toNat + n := by
  rw [peekLeb128, map_apply, map_apply, groups_eq, leb128_eq]
  split
  · rename_i groups found
    have moved := toNat_add_of_le m (le_size_of_groups? found)
    constructor
    · rintro ⟨⟩
      exact ⟨f groups, _, rfl, moved⟩
    · rintro ⟨b, stop, ⟨⟩, behind⟩
      have same : groups.length = n := Nat.add_left_cancel (moved.symm.trans behind)
      rw [← same]
      rfl
  · refine iff_of_false nofun ?_
    rintro ⟨b, stop, ⟨⟩, -⟩

theorem mirrors_peek : Mirrors (peekLeb128 m.toSection) m.peekLeb128 := by
  intro start
  rw [peekLeb128, map_apply, groups_eq, Section.peekLeb128, Read.run_ofRun, Read.value, run_leb128]
  split <;> rfl

/-! ## What the steps can be relied on for -/

/-- What holds of the steps on a section, from any position that a word can be. -/
structure Exact : Prop where
  /-- A step makes the same of the data as the read does that everything is decoded by. -/
  reads {α : Type} (r : Primitive α) (start : UInt64) :
    told (r.step m.toSection stray start) = (r.read m.toSection).run start.toNat
  /-- What is taken lies in the data. -/
  inside {α : Type} (r : Primitive α) (start stop : UInt64) (a : α) :
    r.step m.toSection stray start = (.ok a, stop) →
      start.toNat ≤ stop.toNat ∧ stop.toNat ≤ m.bytes.size
  /-- Nothing but what is taken counts. -/
  elsewhere {α : Type} (r : Primitive α) (start stop : UInt64) (a : α) :
    r.step m.toSection stray start = (.ok a, stop) →
      ∀ (m' : Loaded) (stray' : UInt64 → UInt64) (start' : UInt64), m'.order = m.order →
        m'.bytes.Holds start'.toNat (m.bytes.between start.toNat stop.toNat) →
          r.step m'.toSection stray' start' = (.ok a, start' + (stop - start))
  fixed_iff (width start stop n : UInt64) :
    fixed m.toSection stray width start = (.ok n, stop) ↔
      (width = 1 ∨ width = 2 ∨ width = 4 ∨ width = 8) ∧ m.HasNumber width.toNat start stop n
  address_iff (size : UInt8) (start stop n : UInt64) :
    address m.toSection stray size start = (.ok n, stop) ↔
      (1 ≤ size ∧ size ≤ 8) ∧ m.HasNumber size.toNat start stop n
  fixed_eq_address (size : UInt8) (start : UInt64) :
    size = 1 ∨ size = 2 ∨ size = 4 ∨ size = 8 →
      fixed m.toSection stray size.toUInt64 start = address m.toSection stray size start
  /-- In the other order, the bytes spell the number from their other end. -/
  reversed (size : UInt8) (bytes : List UInt8) (start : UInt64) :
    1 ≤ size ∧ size ≤ 8 → bytes.length = size.toNat → m.order = .big →
      m.bytes.Holds start.toNat bytes →
        ∀ (m' : Loaded) (stray' : UInt64 → UInt64) (start' : UInt64), m'.order = .little →
          m'.bytes.Holds start'.toNat bytes.reverse →
            ∃ n stop stop', address m.toSection stray size start = (.ok n, stop) ∧
              address m'.toSection stray' size start' = (.ok n, stop')
  peek_unsigned (start : UInt64) (n : Nat) :
    peekLeb128 m.toSection start = (.ok n, start) ↔
      ∃ value stop, unsigned m.toSection start = (.ok value, stop) ∧
        stop.toNat = start.toNat + n
  peek_signed (start : UInt64) (n : Nat) :
    peekLeb128 m.toSection start = (.ok n, start) ↔
      ∃ value stop, signed m.toSection start = (.ok value, stop) ∧
        stop.toNat = start.toNat + n
  peek_stays (start : UInt64) : (peekLeb128 m.toSection start).2 = start
  peek_reads (start : UInt64) :
    told (peekLeb128 m.toSection start) = m.peekLeb128.run start.toNat
  fails_in_place {α : Type} (r : Primitive α) (start stop : UInt64) (e : Error) :
    r.steady = true → r.step m.toSection stray start = (.error e, stop) → stop = start

theorem fixed_iff (width start stop n : UInt64) :
    fixed m.toSection stray width start = (.ok n, stop) ↔
      (width = 1 ∨ width = 2 ∨ width = 4 ∨ width = 8) ∧ m.HasNumber width.toNat start stop n := by
  by_cases known : width = 1 ∨ width = 2 ∨ width = 4 ∨ width = 8
  · have widths := (known_iff width).1 known
    rw [fixed_eq_number stray m.toSection known, and_iff_right known]
    exact number_eq_ok_iff m stray (by omega) (by omega)
  · rw [fixed_eq_fault stray m.toSection known]
    exact iff_of_false nofun fun h => known h.1

theorem address_iff (size : UInt8) (start stop n : UInt64) :
    address m.toSection stray size start = (.ok n, stop) ↔
      (1 ≤ size ∧ size ≤ 8) ∧ m.HasNumber size.toNat start stop n := by
  unfold address
  split
  · rename_i known
    rw [and_iff_right known]
    exact number_eq_ok_iff m stray known.1 known.2
  · rename_i unknown
    exact iff_of_false nofun fun h => unknown h.1

theorem fixed_eq_address {size : UInt8} (known : size = 1 ∨ size = 2 ∨ size = 4 ∨ size = 8) :
    fixed m.toSection stray size.toUInt64 = address m.toSection stray size := by
  rcases known with rfl | rfl | rfl | rfl
  all_goals exact fixed_eq_number stray m.toSection (by decide)

theorem address_of_holds {size : UInt8} {bytes : List UInt8} {start : UInt64}
    (known : 1 ≤ size ∧ size ≤ 8) (length : bytes.length = size.toNat)
    (holds : m.bytes.Holds start.toNat bytes) :
    address m.toSection stray size start =
      (.ok (m.order.number bytes), start + UInt64.ofNat size.toNat) := by
  have inside : start.toNat + size.toNat ≤ m.bytes.size := length ▸ holds.le_size
  have short : bytes.length ≤ 8 := length.trans_le known.2
  rw [address_iff, Loaded.HasNumber, ← length, Bytes.between_of_holds holds,
    m.order.toNat_number short, length]
  exact ⟨known, inside, toNat_add_of_le m inside, rfl⟩

/-- No step takes a byte that is not there, or goes by one that it does not take.  Nothing is asked
of `stray`, so nothing depends on where a number that breaks off leaves the position. -/
theorem steps_exact : Exact m stray where
  reads r start := r.mirrors m stray start
  inside r start stop a run := by
    rw [(r.mirrors m stray).eq_ok_iff] at run
    exact ⟨Read.le_of_run run, r.le_size ⟨a, run⟩⟩
  elsewhere r start stop a run m' stray' start' same holds := r.step_elsewhere run same holds
  fixed_iff := fixed_iff m stray
  address_iff := address_iff m stray
  fixed_eq_address size start known := congrFun (fixed_eq_address m stray known) start
  reversed size bytes start known length big holds m' stray' start' little holds' := by
    have swapped : m'.order.number bytes.reverse = m.order.number bytes := by
      rw [big, little]
      rfl
    have there := address_of_holds m' stray' known (bytes.length_reverse.trans length) holds'
    rw [swapped] at there
    exact ⟨_, _, _, address_of_holds m stray known length holds, there⟩
  peek_unsigned start n := peek_iff m Leb128.unsigned
  peek_signed start n := peek_iff m Leb128.signed
  peek_stays start := by
    rw [peekLeb128, map_apply, groups_eq]
    split <;> rfl
  peek_reads := mirrors_peek m
  fails_in_place r start stop e steady run := r.steady_step m stray steady start e stop run

end Loaded
end Cursor
end Dwarf2
