/-
Steps that have no result on some operands.

Everything that is decoded is decoded by total functions: the type of a header keeps a zero out
of the divisions by its line range, a place in a list is searched for and not counted out, and
so on.  A machine takes many of these steps with an operation that stops the program when its
operands are out of range.  Here are these operations.  A computation that is made of them and
comes to a result has kept all of them in their ranges.
-/
import Mathlib.Algebra.Group.Int.Defs
import Mathlib.Algebra.Group.Nat.Defs
import Dwarf2.Bytes

namespace Dwarf2

/-- Why a step has no result. -/
inductive Panic
  /-- The difference of two numbers is below zero. -/
  | underflow
  /-- A number has no room in its type. -/
  | overflow
  | divisionByZero
  /-- A word is shifted by all of its bits, or more. -/
  | shift
  /-- A slice ends before it starts, or behind its data. -/
  | bounds
  /-- A binary search in a list that is not in order. -/
  | unordered
  /-- Data cannot be read, and not because it ends. -/
  | unreadable
  /-- A loop goes on for longer than there is data. -/
  | endless
deriving DecidableEq, Repr

abbrev Checked (α : Type) := Except Panic α

namespace Checked

/-- The result of a step that is taken only if its operands allow it. -/
def guarded {α : Type} (p : Prop) [Decidable p] (panic : Panic) (result : α) : Checked α :=
  if p then .ok result else .error panic

@[simp] theorem ok_bind {α β : Type} (a : α) (f : α → Checked β) : (Except.ok a >>= f) = f a :=
  rfl

@[simp] theorem guarded_of {α : Type} {p : Prop} [Decidable p] (h : p) (panic : Panic)
    (result : α) : guarded p panic result = .ok result :=
  if_pos h

theorem forM_eq {α : Type} {f : α → Checked Unit} (h : ∀ a, f a = .ok ()) (l : List α) :
    l.forM f = .ok () := by
  induction l with
  | nil => rfl
  | cons a rest ih =>
    change (f a >>= fun _ => rest.forM f) = _
    rw [h, ok_bind, ih]

/-- A fold whose steps are all taken.  What a step needs may depend on the items to come. -/
theorem foldlM_eq {α β : Type} {f : β → α → Checked β} {g : β → α → β} (P : List α → β → Prop)
    (step : ∀ a rest b, P (a :: rest) b → f b a = .ok (g b a) ∧ P rest (g b a))
    {l : List α} {b : β} (start : P l b) : l.foldlM f b = .ok (l.foldl g b) := by
  induction l generalizing b with
  | nil => rfl
  | cons a rest ih =>
    obtain ⟨taken, kept⟩ := step a rest b start
    rw [List.foldlM_cons, taken, ok_bind, ih kept, List.foldl_cons]

def sub {α : Type} [Sub α] [LE α] [DecidableLE α] (a b : α) : Checked α :=
  guarded (b ≤ a) .underflow (a - b)

/-- The sum of two sizes or positions. -/
def addSize (a b : Nat) : Checked Nat :=
  guarded (a + b < 2 ^ 64) .overflow (a + b)

def addShort (a b : UInt16) : Checked UInt16 :=
  guarded (a.toNat + b.toNat < 2 ^ 16) .overflow (a + b)

def addSigned (a b : Int64) : Checked Int64 :=
  guarded (-2 ^ 63 ≤ a.toInt + b.toInt ∧ a.toInt + b.toInt < 2 ^ 63) .overflow (a + b)

def mulWord (a b : UInt64) : Checked UInt64 :=
  guarded (a.toNat * b.toNat < 2 ^ 64) .overflow (a * b)

def divByte (a b : UInt8) : Checked UInt8 :=
  guarded (b ≠ 0) .divisionByZero (a / b)

def modByte (a b : UInt8) : Checked UInt8 :=
  guarded (b ≠ 0) .divisionByZero (a % b)

def shiftLeft (word : UInt64) (amount : Nat) : Checked UInt64 :=
  guarded (amount < 64) .shift (word <<< UInt64.ofNat amount)

def shiftRight (word : UInt64) (amount : Nat) : Checked UInt64 :=
  guarded (amount < 64) .shift (word >>> UInt64.ofNat amount)

def slice (bytes : Bytes) (start stop : Nat) : Checked Bytes :=
  guarded (start ≤ stop ∧ stop ≤ bytes.size) .bounds (bytes.extract start stop)

end Checked
end Dwarf2
