/-
The data of one section, and the reads that take it apart.

Positions may lie past the end; a read there fails like any other that runs out of bytes.
-/
import Dwarf2.Read.Repeat

namespace Dwarf2

structure Section where
  kind : SectionKind
  order : ByteOrder
  bytes : Bytes

namespace Section

variable (s : Section)

def fault {α : Type} (fault : Fault) : Read α :=
  Read.fail (.malformed s.kind fault)

/-- The next `count` bytes, or else a fault that says what is short. -/
def take (count : Nat) (shortfall : Nat → Shortfall) : Read Bytes :=
  .ofRun
    (fun start =>
      if start + count ≤ s.bytes.size then
        .ok (s.bytes.extract start (start + count), start + count)
      else
        .error (.malformed s.kind (.truncated start (shortfall start))))
    fun _ _ _ eq => by
      split at eq
      · cases eq; exact Nat.le_add_right ..
      · cases eq

/-- A number of `width` bytes, at most eight. -/
def number (width : Nat) : Read UInt64 :=
  (fun bytes => s.order.number bytes.toList) <$> s.take width fun _ => .number

def uint8 : Read UInt8 := UInt64.toUInt8 <$> s.number 1
def uint16 : Read UInt16 := UInt64.toUInt16 <$> s.number 2
def uint32 : Read UInt32 := UInt64.toUInt32 <$> s.number 4
def uint64 : Read UInt64 := s.number 8
def int8 : Read Int8 := UInt8.toInt8 <$> s.uint8

/-- An unsigned number of one of the widths that forms use. -/
def fixed (width : Nat) : Read UInt64 :=
  if width = 1 ∨ width = 2 ∨ width = 4 ∨ width = 8 then s.number width
  else do s.fault (.numberWidth width (← Read.position))

/-- A target address of one to eight bytes. -/
def address (size : UInt8) : Read UInt64 :=
  if 1 ≤ size ∧ size ≤ 8 then s.number size.toNat
  else do s.fault (.addressSize size (← Read.position))

/-- The groups of a LEB128 number. -/
def leb128 : Read (List UInt8) :=
  .ofRun
    (fun start =>
      match Leb128.last? s.bytes start with
      | some last => .ok ((s.bytes.extract start (last + 1)).toList, last + 1)
      | none => .error (.malformed s.kind (.truncated start .leb128)))
    fun _ _ _ eq => by
      split at eq
      · rename_i found
        cases eq
        exact Nat.le_succ_of_le (Bytes.indexFrom?_eq_some found).1
      · cases eq

def unsigned : Read UInt64 := Leb128.unsigned <$> s.leb128
def signed : Read Int64 := Leb128.signed <$> s.leb128

/-- How many groups the LEB128 number at the position has.  The position stays. -/
def peekLeb128 : Read Nat :=
  .ofRun (fun start => (s.leb128.value start).map fun groups => (groups.length, start))
    fun start _ _ eq => by
      cases groups : s.leb128.value start <;> rw [groups] at eq <;> cases eq
      exact Nat.le_refl _

/-- The bytes up to the next zero, which is consumed but not part of them. -/
def string : Read Bytes :=
  .ofRun
    (fun start =>
      match s.bytes.indexFrom? (· = 0) start with
      | some stop => .ok (s.bytes.extract start stop, stop + 1)
      | none => .error (.malformed s.kind (.truncated start .terminator)))
    fun _ _ _ eq => by
      split at eq
      · rename_i found
        cases eq
        exact Nat.le_succ_of_le (Bytes.indexFrom?_eq_some found).1
      · cases eq

def remaining (position : Nat) : Nat :=
  s.bytes.size - position

def block (count : Nat) : Read Bytes :=
  s.take count fun start => .bytes count (s.remaining start)

def skip (count : Nat) : Read Unit :=
  (fun _ => ()) <$> s.block count

/-- Gives none at the end of the data. -/
def untilEnd {α : Type} (x : Read (Option α)) : Read (Option α) :=
  .ofRun (fun start => if s.bytes.size ≤ start then .ok (none, start) else x.run start)
    fun _ _ _ eq => by
      split at eq
      · cases eq; exact Nat.le_refl _
      · exact Read.le_of_run eq

theorem take_progresses {count : Nat} (h : 0 < count) (shortfall : Nat → Shortfall) :
    (s.take count shortfall).Progresses s.bytes.size := by
  intro start a stop eq
  rw [take, Read.run_ofRun] at eq
  split at eq
  · cases eq; omega
  · cases eq

theorem number_progresses {width : Nat} (h : 0 < width) :
    (s.number width).Progresses s.bytes.size :=
  (s.take_progresses h _).map _

theorem uint8_progresses : s.uint8.Progresses s.bytes.size :=
  (s.number_progresses Nat.one_pos).map _

theorem leb128_progresses : s.leb128.Progresses s.bytes.size := by
  intro start a stop eq
  rw [leb128, Read.run_ofRun] at eq
  split at eq
  · rename_i found
    have := Bytes.indexFrom?_eq_some found
    cases eq
    omega
  · cases eq

theorem unsigned_progresses : s.unsigned.Progresses s.bytes.size :=
  s.leb128_progresses.map _

theorem string_progresses : s.string.Progresses s.bytes.size := by
  intro start a stop eq
  rw [string, Read.run_ofRun] at eq
  split at eq
  · rename_i found
    have := Bytes.indexFrom?_eq_some found
    cases eq
    omega
  · cases eq

theorem run_untilEnd {α : Type} (x : Read (Option α)) (start : Nat) :
    (s.untilEnd x).run start = if s.bytes.size ≤ start then .ok (none, start) else x.run start := by
  rw [untilEnd, Read.run_ofRun]

theorem untilEnd_itemsProgress {α : Type} {x : Read (Option α)}
    (h : x.Progresses s.bytes.size) : (s.untilEnd x).ItemsProgress s.bytes.size := by
  intro start a stop ha
  rw [run_untilEnd] at ha
  split at ha
  · cases ha
  · exact h start (some a) stop ha

end Section
end Dwarf2
