/-
Reading items one after another until a read gives none.

`collect_eq` and `run_many` tell what that means without the list that the items are
gathered in: the first item, and then what reading on from behind it gives.
-/
import Dwarf2.Read

namespace Dwarf2
namespace Read

variable {α : Type}

/-- Every item takes at least one byte, and starts inside `size` bytes. -/
def ItemsProgress (x : Read (Option α)) (size : Nat) : Prop :=
  ∀ start a stop, x.run start = .ok (some a, stop) → start < size ∧ start < stop

theorem Progresses.items {x : Read (Option α)} {size : Nat} (h : x.Progresses size) :
    x.ItemsProgress size :=
  fun start a stop ha => h start (some a) stop ha

/-- Items that were read, the last first, and where or why the reading ended. -/
def collectOnto (x : Read (Option α)) (size : Nat) (h : x.ItemsProgress size)
    (items : List α) (start : Nat) : List α × Except Error Nat :=
  match eq : x.run start with
  | .error e => (items, .error e)
  | .ok (none, stop) => (items, .ok stop)
  | .ok (some a, next) =>
    have := h start a next eq
    collectOnto x size h (a :: items) next
termination_by size - start

/-- All items up to the first read that gives none or fails, in order.  A failure leaves
the items read before it. -/
def collect (x : Read (Option α)) (size : Nat) (h : x.ItemsProgress size) (start : Nat) :
    List α × Except Error Nat :=
  let r := collectOnto x size h [] start
  (r.1.reverse, r.2)

section

variable {x : Read (Option α)} {size : Nat} (h : x.ItemsProgress size)

theorem collectOnto_error {items : List α} {start : Nat} {e : Error}
    (eq : x.run start = .error e) : collectOnto x size h items start = (items, .error e) := by
  rw [collectOnto]
  split <;> simp_all

theorem collectOnto_none {items : List α} {start stop : Nat}
    (eq : x.run start = .ok (none, stop)) :
    collectOnto x size h items start = (items, .ok stop) := by
  rw [collectOnto]
  split <;> simp_all

theorem collectOnto_some {items : List α} {start next : Nat} {a : α}
    (eq : x.run start = .ok (some a, next)) :
    collectOnto x size h items start = collectOnto x size h (a :: items) next := by
  rw [collectOnto]
  split <;> simp_all

theorem collectOnto_append (items : List α) (start : Nat) :
    collectOnto x size h items start =
      ((collectOnto x size h [] start).1 ++ items, (collectOnto x size h [] start).2) :=
  match eq : x.run start with
  | .error e => by simp [collectOnto_error h eq]
  | .ok (none, stop) => by simp [collectOnto_none h eq]
  | .ok (some a, next) => by
    have := h start a next eq
    rw [collectOnto_some h eq, collectOnto_some h eq, collectOnto_append (a :: items) next,
      collectOnto_append [a] next]
    simp
termination_by size - start

theorem collect_eq (start : Nat) :
    collect x size h start =
      match x.run start with
      | .error e => ([], .error e)
      | .ok (none, stop) => ([], .ok stop)
      | .ok (some a, next) => (a :: (collect x size h next).1, (collect x size h next).2) := by
  match eq : x.run start with
  | .error e => simp [collect, collectOnto_error h eq]
  | .ok (none, stop) => simp [collect, collectOnto_none h eq]
  | .ok (some a, next) =>
    simp only [collect]
    rw [collectOnto_some h eq, collectOnto_append h [a] next]
    simp

theorem le_of_collect {start stop : Nat} (eq : (collect x size h start).2 = .ok stop) :
    start ≤ stop := by
  rw [collect_eq] at eq
  match run : x.run start with
  | .error e => simp [run] at eq
  | .ok (none, stop') =>
    simp only [run, Except.ok.injEq] at eq
    exact eq ▸ le_of_run run
  | .ok (some a, next) =>
    have := h start a next run
    simp only [run] at eq
    exact Nat.le_trans (le_of_run run) (le_of_collect eq)
termination_by size - start

end

/-- Forgets the items before a failure. -/
def complete : List α × Except Error Nat → Except Error (List α × Nat)
  | (_, .error e) => .error e
  | (items, .ok stop) => .ok (items, stop)

/-- All items up to the first read that gives none. -/
def many (x : Read (Option α)) (size : Nat) (h : x.ItemsProgress size) : Read (List α) :=
  ofRun (fun start => complete (collect x size h start)) fun start _ _ eq => by
    match all : collect x size h start with
    | (_, .error e) => rw [all] at eq; cases eq
    | (items, .ok stop) => rw [all] at eq; cases eq; exact le_of_collect h (by rw [all])

theorem run_many {x : Read (Option α)} {size : Nat} (h : x.ItemsProgress size) (start : Nat) :
    (many x size h).run start =
      match x.run start with
      | .error e => .error e
      | .ok (none, stop) => .ok ([], stop)
      | .ok (some a, next) =>
        ((many x size h).run next).map fun r => (a :: r.1, r.2) := by
  simp only [many, run_ofRun]
  rw [collect_eq]
  match x.run start with
  | .error e => rfl
  | .ok (none, stop) => rfl
  | .ok (some a, next) =>
    dsimp only
    generalize collect x size h next = r
    obtain ⟨items, e | stop⟩ := r <;> rfl

/-- What holds of a list of no items, and of one more item in front, holds of all that is
read. -/
theorem many_induction {x : Read (Option α)} {size : Nat} {h : x.ItemsProgress size}
    {P : Nat → List α → Nat → Prop}
    (done : ∀ start stop, x.run start = .ok (none, stop) → P start [] stop)
    (more : ∀ start a next rest stop, x.run start = .ok (some a, next) → P next rest stop →
      P start (a :: rest) stop)
    {start : Nat} {items : List α} {stop : Nat}
    (eq : (many x size h).run start = .ok (items, stop)) : P start items stop := by
  rw [run_many] at eq
  match run : x.run start with
  | .error e => rw [run] at eq; cases eq
  | .ok (none, stop') =>
    rw [run] at eq
    cases eq
    exact done _ _ run
  | .ok (some a, next) =>
    have := h start a next run
    simp only [run] at eq
    match tail : (many x size h).run next with
    | .error e => rw [tail] at eq; cases eq
    | .ok (rest, stop') =>
      rw [tail] at eq
      cases eq
      exact more _ _ _ _ _ run (many_induction done more tail)
termination_by size - start

end Read
end Dwarf2
