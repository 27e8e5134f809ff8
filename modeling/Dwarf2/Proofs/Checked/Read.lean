/-
Reading with steps that may panic.

A checked read is a read whose positions are sizes of a machine, whose slices have to lie in
their data, and whose loops may not go on for ever.  One follows a read from a position if it
takes all its steps and ends as the read does.
-/
import Dwarf2.Proofs.Checked.Number
import Dwarf2.Proofs.Section.Landing

namespace Dwarf2
namespace Checked

variable {α β : Type}

def Reader (α : Type) : Type :=
  (start : Nat) → Checked (Except Error (α × Nat))

namespace Reader

/-- Reads on behind what has been read. -/
def andThen (r : Checked (Except Error (α × Nat))) (f : α → Reader β) :
    Checked (Except Error (β × Nat)) :=
  match r with
  | .error panic => .error panic
  | .ok (.error e) => .ok (.error e)
  | .ok (.ok (a, middle)) => f a middle

instance : Monad Reader where
  pure a := fun start => .ok (.ok (a, start))
  bind x f := fun start => andThen (x start) f

def fail (e : Error) : Reader α :=
  fun _ => .ok (.error e)

def position : Reader Nat :=
  fun start => .ok (.ok (start, start))

def advanceTo (target : Nat) : Reader Unit :=
  fun start => .ok (.ok ((), max start target))

/-- A step that reads nothing. -/
def step (x : Checked α) : Reader α :=
  fun start => x.map fun a => .ok (a, start)

/-- All items up to the first read that gives none. -/
def many (x : Reader (Option α)) : (rounds : Nat) → Reader (List α)
  | 0 => step (.error .endless)
  | rounds + 1 => do
    match ← x with
    | none => return []
    | some a => return a :: (← many x rounds)

/-- All items up to the first read that gives none or fails.  A failure leaves the items read
before it. -/
def collect (x : Reader (Option α)) : (rounds start : Nat) → Checked (List α × Except Error Nat)
  | 0, _ => .error .endless
  | rounds + 1, start => do
    match ← x start with
    | .error e => return ([], .error e)
    | .ok (none, stop) => return ([], .ok stop)
    | .ok (some a, next) =>
      let (items, ending) ← collect x rounds next
      return (a :: items, ending)

theorem run_bind (x : Reader α) (f : α → Reader β) (start : Nat) :
    (x >>= f) start = andThen (x start) f :=
  rfl

/-- The steps are all taken, and the end is that of the read. -/
def Follows (x : Reader α) (y : Read α) (start : Nat) : Prop :=
  x start = .ok (y.run start)

namespace Follows

variable {x : Reader α} {y : Read α} {start : Nat}

theorem run_eq (h : Follows x y start) : x start = .ok (y.run start) :=
  h

theorem pure (a : α) (start : Nat) : Follows (pure a) (pure a) start :=
  rfl

theorem position (start : Nat) : Follows position .position start :=
  rfl

theorem advanceTo (target start : Nat) : Follows (advanceTo target) (.advanceTo target) start :=
  rfl

/-- The second part need only follow from where the first has ended, and with what it has
read. -/
theorem bind {f : α → Reader β} {g : α → Read β} (first : Follows x y start)
    (second : ∀ a stop, y.run start = .ok (a, stop) → Follows (f a) (g a) stop) :
    Follows (x >>= f) (y >>= g) start := by
  unfold Follows
  rw [run_bind, first.run_eq, Read.run_bind]
  match run : y.run start with
  | .error e => rfl
  | .ok (a, middle) => exact second a middle run

theorem map (f : α → β) (h : Follows x y start) : Follows (f <$> x) (f <$> y) start :=
  h.bind fun a stop _ => .pure (f a) stop

theorem step {c : Checked β} {b : β} {f : β → Reader α} (taken : c = .ok b)
    (h : Follows (f b) y start) : Follows (Reader.step c >>= f) y start := by
  rw [taken]
  exact h

/-- What has been read is worked on in steps that are all taken. -/
theorem convert {c : α → Checked β} {f : α → β} (h : Follows x y start)
    (taken : ∀ a, c a = .ok (f a)) :
    Follows (do Reader.step (c (← x))) (f <$> y) start := by
  refine h.bind (g := fun a => Pure.pure (f a)) fun a stop _ => ?_
  unfold Follows Reader.step
  rw [taken]
  rfl

/-- The position is asked for where the read does not need it. -/
theorem positioned {f : Nat → Reader α} (h : Follows (f start) y start) :
    Follows (Reader.position >>= f) y start :=
  h

theorem ite {p : Prop} [Decidable p] {x' : Reader α} {y' : Read α}
    (h : p → Follows x y start) (h' : ¬p → Follows x' y' start) :
    Follows (if p then x else x') (if p then y else y') start := by
  split
  · rename_i holds
    exact h holds
  · rename_i fails
    exact h' fails

/-- There are no more rounds than there are bytes left, and one to find the end. -/
theorem many {x : Reader (Option α)} {y : Read (Option α)} {size : Nat}
    (progress : y.ItemsProgress size) {rounds start : Nat} (enough : size - start < rounds)
    (h : ∀ position, start ≤ position → Follows x y position) :
    Follows (Reader.many x rounds) (Read.many y size progress) start := by
  induction rounds generalizing start with
  | zero => omega
  | succ rounds ih =>
    have first := h start (Nat.le_refl start)
    unfold Follows
    rw [Reader.many, run_bind, first.run_eq, Read.run_many]
    match run : y.run start with
    | .error e => rfl
    | .ok (none, stop) => rfl
    | .ok (some a, next) =>
      have := progress start a next run
      have rest : Follows (Reader.many x rounds) (Read.many y size progress) next :=
        ih (by omega) fun position le => h position (by omega)
      have whole := (rest.map (a :: ·)).run_eq
      rwa [Read.run_map] at whole

end Follows

theorem collect_eq {x : Reader (Option α)} {y : Read (Option α)} {size : Nat}
    (progress : y.ItemsProgress size) (h : ∀ position, Follows x y position) {rounds start : Nat}
    (enough : size - start < rounds) :
    collect x rounds start = .ok (Read.collect y size progress start) := by
  induction rounds generalizing start with
  | zero => omega
  | succ rounds ih =>
    rw [collect, (h start).run_eq, ok_bind, Read.collect_eq]
    match run : y.run start with
    | .error e => rfl
    | .ok (none, stop) => rfl
    | .ok (some a, next) =>
      have := progress start a next run
      dsimp only
      rw [ih (by omega)]
      rfl

end Reader

/-! ## Sections -/

/-- The positions in the section have room in a size of the machine. -/
def Addressable (s : Section) : Prop :=
  s.bytes.size < 2 ^ 64

/-- What goes wrong when bytes are copied. -/
inductive InputError
  | endOfData
  | other
deriving DecidableEq, Repr

namespace Section

open Reader (Follows)

variable (s : Section)

def fault (f : Fault) : Reader α :=
  .fail (.malformed s.kind f)

/-- Copies bytes; the only thing that goes wrong is that there are too few. -/
def copy (start count : Nat) : Except InputError Bytes :=
  if start + count ≤ s.bytes.size then .ok (s.bytes.extract start (start + count))
  else .error .endOfData

/-- An end of data is an error in the section.  There is no such error for anything else. -/
def shortfall (start : Nat) : InputError → Checked Error
  | .endOfData => return .malformed s.kind (.truncated start .number)
  | .other => .error .unreadable

/-- A number is copied to a buffer of eight bytes, and has at least one. -/
def number (width : Nat) : Reader UInt64 := fun start => do
  guarded (1 ≤ width ∧ width ≤ 8) .bounds ()
  match copy s start width with
  | .error e => return .error (← shortfall s start e)
  | .ok bytes => return .ok (s.order.number bytes.toList, ← addSize start width)

def uint8 : Reader UInt8 := UInt64.toUInt8 <$> number s 1
def uint16 : Reader UInt16 := UInt64.toUInt16 <$> number s 2
def uint32 : Reader UInt32 := UInt64.toUInt32 <$> number s 4
def int8 : Reader Int8 := UInt8.toInt8 <$> uint8 s

def fixed (width : Nat) : Reader UInt64 :=
  if width = 1 ∨ width = 2 ∨ width = 4 ∨ width = 8 then number s width
  else do fault s (.numberWidth width (← .position))

def address (size : UInt8) : Reader UInt64 :=
  if 1 ≤ size ∧ size ≤ 8 then number s size.toNat
  else do fault s (.addressSize size (← .position))

def leb128 : Reader (List UInt8) := fun start =>
  match Dwarf2.Leb128.last? s.bytes start with
  | none => return .error (.malformed s.kind (.truncated start .leb128))
  | some last => do
    let groups ← slice s.bytes start (last + 1)
    return .ok (groups.toList, ← addSize start groups.size)

def unsigned : Reader UInt64 := do .step (Leb128.unsigned (← leb128 s))
def signed : Reader Int64 := do .step (Leb128.signed (← leb128 s))

def string : Reader Bytes := fun start =>
  match s.bytes.indexFrom? (· = 0) start with
  | none => return .error (.malformed s.kind (.truncated start .terminator))
  | some stop => do
    let bytes ← slice s.bytes start stop
    return .ok (bytes, ← addSize start (bytes.size + 1))

def block (count : Nat) : Reader Bytes := fun start =>
  if start + count ≤ s.bytes.size then do
    let bytes ← slice s.bytes start (start + count)
    return .ok (bytes, ← addSize start count)
  else
    return .error (.malformed s.kind (.truncated start (.bytes count (s.remaining start))))

def skip (count : Nat) : Reader Unit :=
  (fun _ => ()) <$> block s count

/-- Gives none at the end of the data. -/
def untilEnd (x : Reader (Option α)) : Reader (Option α) := fun start =>
  if s.bytes.size ≤ start then return .ok (none, start) else x start

variable {s} {start : Nat}

theorem follows_fault (f : Fault) (start : Nat) :
    Follows (fault s f : Reader α) (s.fault f) start :=
  rfl

theorem follows_number (h : Addressable s) {width : Nat} (low : 1 ≤ width) (high : width ≤ 8)
    (start : Nat) : Follows (number s width) (s.number width) start := by
  unfold Follows number copy
  rw [Dwarf2.Section.number, Read.run_map, Dwarf2.Section.take, Read.run_ofRun,
    guarded_of ⟨low, high⟩]
  by_cases inside : start + width ≤ s.bytes.size
  · have room : start + width < 2 ^ 64 := Nat.lt_of_le_of_lt inside h
    simp only [ok_bind, if_pos inside, addSize, guarded_of room]
    rfl
  · simp only [ok_bind, if_neg inside, shortfall]
    rfl

theorem follows_uint8 (h : Addressable s) (start : Nat) : Follows (uint8 s) s.uint8 start :=
  (follows_number h (by decide) (by decide) start).map _

theorem follows_uint16 (h : Addressable s) (start : Nat) : Follows (uint16 s) s.uint16 start :=
  (follows_number h (by decide) (by decide) start).map _

theorem follows_uint32 (h : Addressable s) (start : Nat) : Follows (uint32 s) s.uint32 start :=
  (follows_number h (by decide) (by decide) start).map _

theorem follows_int8 (h : Addressable s) (start : Nat) : Follows (int8 s) s.int8 start :=
  (follows_uint8 h start).map _

theorem follows_fixed (h : Addressable s) (width start : Nat) :
    Follows (fixed s width) (s.fixed width) start := by
  refine .ite (fun known => ?_) fun _ =>
    .bind (.position start) fun _ stop _ => follows_fault _ stop
  exact follows_number h (by omega) (by omega) start

theorem follows_address (h : Addressable s) (size : UInt8) (start : Nat) :
    Follows (address s size) (s.address size) start := by
  refine .ite (fun ⟨low, high⟩ => ?_) fun _ =>
    .bind (.position start) fun _ stop _ => follows_fault _ stop
  exact follows_number h (UInt8.le_iff_toNat_le.1 low) (UInt8.le_iff_toNat_le.1 high) start

/-- A slice that was found by a search lies in the data, and so does the position behind it. -/
theorem slice_of_le {bytes : Bytes} {start stop : Nat} (le : start ≤ stop)
    (inside : stop ≤ bytes.size) :
    slice bytes start stop = .ok (bytes.extract start stop) ∧
      (bytes.extract start stop).size = stop - start := by
  refine ⟨guarded_of ⟨le, inside⟩ _ _, ?_⟩
  rw [Array.size_extract, Nat.min_eq_left inside]

theorem follows_leb128 (h : Addressable s) (start : Nat) : Follows (leb128 s) s.leb128 start := by
  unfold Follows leb128
  rw [Dwarf2.Section.leb128, Read.run_ofRun]
  split
  · rename_i found
    rw [found]
    rfl
  · rename_i last found
    obtain ⟨le, inside⟩ := Bytes.indexFrom?_eq_some found
    obtain ⟨sliced, size⟩ := slice_of_le (Nat.le_succ_of_le le) inside
    have behind : start + (last + 1 - start) = last + 1 := by omega
    have room : last + 1 < 2 ^ 64 := Nat.lt_of_le_of_lt inside h
    rw [found, sliced, ok_bind, size, addSize, behind, guarded_of room]
    rfl

theorem follows_unsigned (h : Addressable s) (start : Nat) :
    Follows (unsigned s) s.unsigned start :=
  (follows_leb128 h start).convert Leb128.unsigned_eq

theorem follows_signed (h : Addressable s) (start : Nat) : Follows (signed s) s.signed start :=
  (follows_leb128 h start).convert Leb128.signed_eq

theorem follows_string (h : Addressable s) (start : Nat) : Follows (string s) s.string start := by
  unfold Follows string
  rw [Dwarf2.Section.string, Read.run_ofRun]
  split
  · rename_i found
    rw [found]
    rfl
  · rename_i stop found
    obtain ⟨le, inside⟩ := Bytes.indexFrom?_eq_some found
    obtain ⟨sliced, size⟩ := slice_of_le le (Nat.le_of_lt inside)
    have behind : start + (stop - start + 1) = stop + 1 := by omega
    have room : stop + 1 < 2 ^ 64 := Nat.lt_of_le_of_lt inside h
    rw [found, sliced, ok_bind, size, addSize, behind, guarded_of room]
    rfl

theorem follows_block (h : Addressable s) (count start : Nat) :
    Follows (block s count) (s.block count) start := by
  unfold Follows block
  rw [Dwarf2.Section.block, Dwarf2.Section.take, Read.run_ofRun]
  split
  · rename_i inside
    rw [(slice_of_le (Nat.le_add_right ..) inside).1, ok_bind, addSize,
      guarded_of (Nat.lt_of_le_of_lt inside h)]
    rfl
  · rfl

theorem follows_skip (h : Addressable s) (count start : Nat) :
    Follows (skip s count) (s.skip count) start :=
  (follows_block h count start).map _

theorem follows_untilEnd {x : Reader (Option α)} {y : Read (Option α)}
    (h : Follows x y start) : Follows (untilEnd s x) (s.untilEnd y) start := by
  unfold Follows untilEnd
  rw [Dwarf2.Section.run_untilEnd]
  split
  · rfl
  · exact h

end Section
end Checked
end Dwarf2
