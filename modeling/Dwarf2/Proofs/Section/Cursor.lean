/-
Reads that keep their position.

A read of a section tells where it ends only if it succeeds.  A machine keeps the position in a
word and moves it as it goes, so a step that fails may have moved it before.  `Mirrors` says that
a step makes of the data what a read makes of it, and moves to where the read ends.
-/
import Dwarf2.Proofs.Checked.Read
import Dwarf2.Proofs.Number.Padding

namespace Dwarf2

variable {α β : Type}

/-- A step from a position, and the position behind it, whether it succeeds or not. -/
def Cursor (α : Type) : Type :=
  (start : UInt64) → Except Error α × UInt64

namespace Cursor

instance : Monad Cursor where
  pure a := fun start => (.ok a, start)
  bind x f := fun start =>
    match x start with
    | (.error e, stop) => (.error e, stop)
    | (.ok a, middle) => f a middle

def fail (e : Error) : Cursor α :=
  fun start => (.error e, start)

def position : Cursor UInt64 :=
  fun start => (.ok start, start)

def moveTo (target : UInt64) : Cursor Unit :=
  fun _ => (.ok (), target)

theorem bind_apply (x : Cursor α) (f : α → Cursor β) (start : UInt64) : (x >>= f) start =
    match x start with
    | (.error e, stop) => (.error e, stop)
    | (.ok a, middle) => f a middle :=
  rfl

theorem position_bind (f : UInt64 → Cursor α) (start : UInt64) :
    (position >>= f) start = f start start :=
  rfl

theorem map_apply (f : α → β) (x : Cursor α) (start : UInt64) :
    (f <$> x) start = ((x start).1.map f, (x start).2) := by
  change (match x start with
    | (.error e, stop) => (Except.error e, stop)
    | (.ok a, stop) => (Except.ok (f a), stop)) = _
  match x start with
  | (.error e, stop) => rfl
  | (.ok a, stop) => rfl

section Steps

variable (s : Section) (stray : UInt64 → UInt64)

def fault (f : Fault) : Cursor α :=
  fail (.malformed s.kind f)

/-- Copies bytes.  If there are too few, nothing is known of the position: `stray` tells where it
goes. -/
def copy (width : Nat) : Cursor Bytes := do
  let start ← position
  if width ≤ s.remaining start.toNat then
    moveTo (start + UInt64.ofNat width)
    return s.bytes.extract start.toNat (start.toNat + width)
  else
    moveTo (stray start)
    fault s (.truncated start.toNat .number)

def number (width : Nat) : Cursor UInt64 :=
  (fun bytes => s.order.number bytes.toList) <$> copy s stray width

def uint8 : Cursor UInt8 := UInt64.toUInt8 <$> number s stray 1
def uint16 : Cursor UInt16 := UInt64.toUInt16 <$> number s stray 2
def uint32 : Cursor UInt32 := UInt64.toUInt32 <$> number s stray 4
def uint64 : Cursor UInt64 := number s stray 8
def int8 : Cursor Int8 := UInt8.toInt8 <$> uint8 s stray

def fixed (width : UInt64) : Cursor UInt64 :=
  if width = 1 then UInt8.toUInt64 <$> uint8 s stray
  else if width = 2 then UInt16.toUInt64 <$> uint16 s stray
  else if width = 4 then UInt32.toUInt64 <$> uint32 s stray
  else if width = 8 then uint64 s stray
  else do fault s (.numberWidth width.toNat (← position).toNat)

def address (size : UInt8) : Cursor UInt64 :=
  if 1 ≤ size ∧ size ≤ 8 then number s stray size.toNat
  else do fault s (.addressSize size (← position).toNat)

/-- The groups of the number at the position, which stays. -/
def groups : Cursor (List UInt8) := do
  let start ← position
  match Leb128.groups? s.bytes start.toNat with
  | some groups => return groups
  | none => fault s (.truncated start.toNat .leb128)

def peekLeb128 : Cursor Nat := List.length <$> groups s

def leb128 : Cursor (List UInt8) := do
  let groups ← groups s
  moveTo ((← position) + UInt64.ofNat groups.length)
  return groups

def unsigned : Cursor UInt64 := Leb128.unsigned <$> leb128 s
def signed : Cursor Int64 := Leb128.signed <$> leb128 s

def string : Cursor Bytes := do
  let start ← position
  match s.bytes.indexFrom? (· = 0) start.toNat with
  | some stop =>
    let text := s.bytes.extract start.toNat stop
    moveTo (start + UInt64.ofNat (text.size + 1))
    return text
  | none => fault s (.truncated start.toNat .terminator)

/-- The sum of two sizes, if it is one. -/
def checkedAdd (a b : UInt64) : Option UInt64 :=
  if a.toNat + b.toNat < 2 ^ 64 then some (a + b) else none

def slice? (bytes : Bytes) (start stop : UInt64) : Option Bytes :=
  if start ≤ stop ∧ stop.toNat ≤ bytes.size then some (bytes.extract start.toNat stop.toNat)
  else none

def block (count : UInt64) : Cursor Bytes := do
  let start ← position
  match checkedAdd start count >>= slice? s.bytes start with
  | some bytes =>
    moveTo (start + count)
    return bytes
  | none => fault s (.truncated start.toNat (.bytes count.toNat (s.remaining start.toNat)))

def skip (count : UInt64) : Cursor Unit := (fun _ => ()) <$> block s count

end Steps

/-! ## Steps and reads -/

/-- What a step tells if it ends well, and where that is. -/
def told : Except Error α × UInt64 → Except Error (α × Nat)
  | (.ok a, stop) => .ok (a, stop.toNat)
  | (.error e, _) => .error e

def Mirrors (x : Cursor α) (y : Read α) : Prop :=
  ∀ start : UInt64, told (x start) = y.run start.toNat

namespace Mirrors

variable {x : Cursor α} {y : Read α}

theorem map (h : Mirrors x y) (f : α → β) : Mirrors (f <$> x) (f <$> y) := by
  intro start
  rw [Read.run_map, ← h start, map_apply]
  match x start with
  | (.error e, stop) => rfl
  | (.ok a, stop) => rfl

/-- A step ends well exactly where the read does. -/
theorem eq_ok_iff (h : Mirrors x y) {start stop : UInt64} {a : α} :
    x start = (.ok a, stop) ↔ y.run start.toNat = .ok (a, stop.toNat) := by
  rw [← h start]
  match x start with
  | (.error e, stop') => simp [told]
  | (.ok b, stop') => simp [told, UInt64.toNat_inj]

theorem positioned {f : UInt64 → Cursor α} {g : Nat → Read α}
    (h : ∀ start : UInt64, told (f start start) = (g start.toNat).run start.toNat) :
    Mirrors (Cursor.position >>= f) (Read.position >>= g) := by
  intro start
  rw [Read.run_bind]
  exact h start

end Mirrors

theorem run_leb128 (s : Section) (start : Nat) : s.leb128.run start =
    match Leb128.groups? s.bytes start with
    | some groups => .ok (groups, start + groups.length)
    | none => .error (.malformed s.kind (.truncated start .leb128)) := by
  rw [Section.leb128, Read.run_ofRun, Leb128.groups?]
  cases found : Leb128.last? s.bytes start with
  | none => rfl
  | some last =>
    obtain ⟨le, inside⟩ := Bytes.indexFrom?_eq_some found
    have length := Bytes.length_between (Nat.le_succ_of_le le) inside
    exact congrArg (fun stop => Except.ok (_, stop)) length.symm

/-- A section in memory, where positions are words. -/
structure Loaded extends Section where
  addressable : Checked.Addressable toSection

section Loaded

variable (m : Loaded) (stray : UInt64 → UInt64)

/-- A position in the data is not lost when it is moved. -/
theorem toNat_add_of_le {start : UInt64} {count : Nat} (inside : start.toNat + count ≤ m.bytes.size) :
    (start + UInt64.ofNat count).toNat = start.toNat + count := by
  have room : start.toNat + count < 2 ^ 64 := Nat.lt_of_le_of_lt inside m.addressable
  rw [UInt64.toNat_add, UInt64.toNat_ofNat']
  omega

/-! ### Numbers -/

theorem copy_eq (s : Section) (width : Nat) (start : UInt64) : copy s stray width start =
    if width ≤ s.remaining start.toNat then
      (.ok (s.bytes.extract start.toNat (start.toNat + width)), start + UInt64.ofNat width)
    else (.error (.malformed s.kind (.truncated start.toNat .number)), stray start) := by
  rw [copy, position_bind]
  split <;> rfl

theorem mirrors_copy {width : Nat} (pos : 1 ≤ width) :
    Mirrors (copy m.toSection stray width) (m.take width fun _ => .number) := by
  intro start
  have enough : width ≤ m.remaining start.toNat ↔ start.toNat + width ≤ m.bytes.size := by
    unfold Section.remaining
    omega
  simp only [copy_eq, enough]
  rw [Section.take, Read.run_ofRun]
  split
  · rename_i inside
    rw [told, toNat_add_of_le m inside]
  · rfl

theorem mirrors_number {width : Nat} (pos : 1 ≤ width) :
    Mirrors (number m.toSection stray width) (m.number width) :=
  (mirrors_copy m stray pos).map _

/-- A number loses nothing in a word that has as many bytes. -/
theorem widen_number {γ : Type} (s : Section) (width : Nat) (short : width ≤ 8)
    {narrow : UInt64 → γ} {widen : γ → UInt64}
    (same : ∀ n : UInt64, n.toNat < 256 ^ width → widen (narrow n) = n) :
    widen <$> narrow <$> number s stray width = number s stray width := by
  funext start
  simp only [number, map_apply, copy_eq]
  split
  · rename_i enough
    generalize taken : s.bytes.extract start.toNat (start.toNat + width) = bytes
    have length : bytes.toList.length = width := by
      rw [← taken, Array.length_toList, Array.size_extract]
      unfold Section.remaining at enough
      omega
    have fits : (s.order.number bytes.toList).toNat < 256 ^ width := by
      rw [s.order.toNat_number (length ▸ short), ← length]
      exact s.order.value_lt bytes.toList
    exact congrArg (fun n => (Except.ok n, _)) (same _ fits)
  · rfl

theorem fixed_eq_number (s : Section) {width : UInt64}
    (known : width = 1 ∨ width = 2 ∨ width = 4 ∨ width = 8) :
    fixed s stray width = number s stray width.toNat := by
  rcases known with rfl | rfl | rfl | rfl
  · refine widen_number stray s 1 (by decide) fun n small => UInt64.toNat.inj ?_
    rw [UInt8.toNat_toUInt64, UInt64.toNat_toUInt8]
    exact Nat.mod_eq_of_lt small
  · refine widen_number stray s 2 (by decide) fun n small => UInt64.toNat.inj ?_
    rw [UInt16.toNat_toUInt64, UInt64.toNat_toUInt16]
    exact Nat.mod_eq_of_lt small
  · refine widen_number stray s 4 (by decide) fun n small => UInt64.toNat.inj ?_
    rw [UInt32.toNat_toUInt64, UInt64.toNat_toUInt32]
    exact Nat.mod_eq_of_lt small
  · rfl

theorem fixed_eq_fault (s : Section) {width : UInt64}
    (unknown : ¬(width = 1 ∨ width = 2 ∨ width = 4 ∨ width = 8)) :
    fixed s stray width =
      position >>= fun start => fault s (.numberWidth width.toNat start.toNat) := by
  simp only [not_or] at unknown
  obtain ⟨one, two, four, eight⟩ := unknown
  rw [fixed, if_neg one, if_neg two, if_neg four, if_neg eight]

theorem known_iff (width : UInt64) : (width = 1 ∨ width = 2 ∨ width = 4 ∨ width = 8) ↔
    (width.toNat = 1 ∨ width.toNat = 2 ∨ width.toNat = 4 ∨ width.toNat = 8) := by
  simp only [← UInt64.toNat_inj]
  rfl

theorem mirrors_fixed (width : UInt64) :
    Mirrors (fixed m.toSection stray width) (m.fixed width.toNat) := by
  by_cases known : width = 1 ∨ width = 2 ∨ width = 4 ∨ width = 8
  · have widths := (known_iff width).1 known
    rw [fixed_eq_number stray m.toSection known, Section.fixed, if_pos widths]
    exact mirrors_number m stray (by omega)
  · rw [fixed_eq_fault stray m.toSection known, Section.fixed, if_neg (by rwa [← known_iff])]
    exact .positioned fun _ => rfl

theorem mirrors_address (size : UInt8) :
    Mirrors (address m.toSection stray size) (m.address size) := by
  unfold address Section.address
  split
  · rename_i known
    exact mirrors_number m stray known.1
  · exact .positioned fun _ => rfl

/-! ### Groups, strings and blocks -/

theorem groups_eq (s : Section) (start : UInt64) : groups s start =
    match Leb128.groups? s.bytes start.toNat with
    | some groups => (.ok groups, start)
    | none => (.error (.malformed s.kind (.truncated start.toNat .leb128)), start) := by
  rw [groups, position_bind]
  cases Leb128.groups? s.bytes start.toNat <;> rfl

theorem leb128_eq (s : Section) (start : UInt64) : leb128 s start =
    match Leb128.groups? s.bytes start.toNat with
    | some groups => (.ok groups, start + UInt64.ofNat groups.length)
    | none => (.error (.malformed s.kind (.truncated start.toNat .leb128)), start) := by
  rw [leb128, bind_apply, groups_eq]
  cases Leb128.groups? s.bytes start.toNat <;> rfl

theorem le_size_of_groups? {bytes : Bytes} {start : Nat} {groups : List UInt8}
    (found : Leb128.groups? bytes start = some groups) : start + groups.length ≤ bytes.size := by
  obtain ⟨closed, fits⟩ := Leb128.groups?_eq_some_iff.1 found
  have some := closed.length_pos
  have short := fits.length_le
  rw [Bytes.rest, List.length_drop] at short
  change groups.length ≤ bytes.size - start at short
  omega

theorem mirrors_leb128 : Mirrors (leb128 m.toSection) m.leb128 := by
  intro start
  rw [leb128_eq, run_leb128]
  split
  · rename_i groups found
    rw [told, toNat_add_of_le m (le_size_of_groups? found)]
  · rfl

theorem string_eq (s : Section) (start : UInt64) : string s start =
    match s.bytes.indexFrom? (· = 0) start.toNat with
    | some stop =>
      (.ok (s.bytes.extract start.toNat stop),
        start + UInt64.ofNat ((s.bytes.extract start.toNat stop).size + 1))
    | none => (.error (.malformed s.kind (.truncated start.toNat .terminator)), start) := by
  rw [string, position_bind]
  cases s.bytes.indexFrom? (· = 0) start.toNat <;> rfl

theorem mirrors_string : Mirrors (string m.toSection) m.string := by
  intro start
  rw [string_eq, Section.string, Read.run_ofRun]
  cases found : m.bytes.indexFrom? (· = 0) start.toNat with
  | none => rfl
  | some stop =>
    obtain ⟨le, inside⟩ := Bytes.indexFrom?_eq_some found
    have size : start.toNat + ((m.bytes.extract start.toNat stop).size + 1) = stop + 1 := by
      rw [Array.size_extract]
      omega
    change Except.ok (_, (start + UInt64.ofNat _).toNat) = _
    rw [toNat_add_of_le m (size.trans_le inside), size]

/-- The end of a block is beyond every word only if it is beyond the data. -/
theorem checkedAdd_slice? (start count : UInt64) :
    checkedAdd start count >>= slice? m.bytes start =
      if start.toNat + count.toNat ≤ m.bytes.size then
        some (m.bytes.extract start.toNat (start.toNat + count.toNat))
      else none := by
  have addressable : m.bytes.size < 2 ^ 64 := m.addressable
  by_cases room : start.toNat + count.toNat < 2 ^ 64
  · have sum : (start + count).toNat = start.toNat + count.toNat := by
      rw [UInt64.toNat_add, Nat.mod_eq_of_lt room]
    have ahead : start ≤ start + count := by
      rw [UInt64.le_iff_toNat_le, sum]
      exact Nat.le_add_right ..
    rw [checkedAdd, if_pos room]
    change slice? m.bytes start (start + count) = _
    simp only [slice?, sum, ahead, true_and]
  · rw [checkedAdd, if_neg room, if_neg (by omega)]
    rfl

theorem block_eq (count start : UInt64) : block m.toSection count start =
    if start.toNat + count.toNat ≤ m.bytes.size then
      (.ok (m.bytes.extract start.toNat (start.toNat + count.toNat)), start + count)
    else
      (.error (.malformed m.kind
        (.truncated start.toNat (.bytes count.toNat (m.remaining start.toNat)))), start) := by
  rw [block, position_bind, checkedAdd_slice?]
  split <;> rfl

theorem mirrors_block (count : UInt64) :
    Mirrors (block m.toSection count) (m.block count.toNat) := by
  intro start
  rw [block_eq, Section.block, Section.take, Read.run_ofRun]
  split
  · rename_i inside
    have moved := toNat_add_of_le m inside
    rw [UInt64.ofNat_toNat] at moved
    rw [told, moved]
  · rfl

end Loaded

end Cursor
end Dwarf2
