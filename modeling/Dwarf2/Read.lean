/-
Reading at a position: from where it starts, a read either fails or gives a value and the
position behind it.

No read moves backwards.  The type says so, and loops over a section end for that reason.
-/
import Dwarf2.Error

namespace Dwarf2

def Read (α : Type) : Type :=
  (start : Nat) → Except Error { r : α × Nat // start ≤ r.2 }

namespace Read

variable {α β : Type}

instance : Monad Read where
  pure a := fun start => .ok ⟨(a, start), Nat.le_refl start⟩
  bind x f := fun start =>
    match x start with
    | .error e => .error e
    | .ok ⟨(a, middle), h⟩ =>
      match f a middle with
      | .error e => .error e
      | .ok ⟨r, h'⟩ => .ok ⟨r, Nat.le_trans h h'⟩

def fail (e : Error) : Read α :=
  fun _ => .error e

def position : Read Nat :=
  fun start => .ok ⟨(start, start), Nat.le_refl start⟩

/-- Goes to a position that lies ahead.  One that lies behind is not gone back to. -/
def advanceTo (target : Nat) : Read Unit :=
  fun start => .ok ⟨((), max start target), Nat.le_max_left start target⟩

/-- The value and the end position, without the order of the positions. -/
def run (x : Read α) (start : Nat) : Except Error (α × Nat) :=
  match x start with
  | .error e => .error e
  | .ok r => .ok r.1

def value (x : Read α) (start : Nat) : Except Error α :=
  (x.run start).map Prod.fst

/-- A read that is known not to move backwards. -/
def ofRun (f : Nat → Except Error (α × Nat))
    (forward : ∀ start a stop, f start = .ok (a, stop) → start ≤ stop) : Read α :=
  fun start =>
    match eq : f start with
    | .error e => .error e
    | .ok (a, stop) => .ok ⟨(a, stop), forward start a stop eq⟩

@[simp] theorem run_ofRun (f : Nat → Except Error (α × Nat))
    (forward : ∀ start a stop, f start = .ok (a, stop) → start ≤ stop) (start : Nat) :
    (ofRun f forward).run start = f start := by
  unfold run ofRun
  split
  · rename_i e eq
    split at eq
    · rename_i failed
      rw [failed]
      cases eq
      rfl
    · cases eq
  · rename_i r eq
    split at eq
    · cases eq
    · rename_i done
      rw [done]
      cases eq
      rfl

theorem le_of_run {x : Read α} {start : Nat} {a : α} {stop : Nat}
    (h : x.run start = .ok (a, stop)) : start ≤ stop := by
  unfold run at h
  match hx : x start with
  | .error e => rw [hx] at h; cases h
  | .ok ⟨r, le⟩ => rw [hx] at h; cases h; exact le

@[simp] theorem run_pure (a : α) (start : Nat) : (pure a : Read α).run start = .ok (a, start) :=
  rfl

@[simp] theorem run_position (start : Nat) : position.run start = .ok (start, start) :=
  rfl

@[simp] theorem run_bind (x : Read α) (f : α → Read β) (start : Nat) :
    (x >>= f).run start = (x.run start).bind fun r => (f r.1).run r.2 := by
  simp only [run, bind]
  cases x start with
  | error e => rfl
  | ok r =>
    obtain ⟨⟨a, middle⟩, h⟩ := r
    simp only [Except.bind]
    cases f a middle <;> rfl

/-- A read of two parts succeeds where the second succeeds behind the first. -/
theorem run_bind_eq_ok {x : Read α} {f : α → Read β} {start stop : Nat} {b : β} :
    (x >>= f).run start = .ok (b, stop) ↔
      ∃ a middle, x.run start = .ok (a, middle) ∧ (f a).run middle = .ok (b, stop) := by
  rw [run_bind]
  cases x.run start with
  | error e => simp [Except.bind]
  | ok r =>
    obtain ⟨a, middle⟩ := r
    constructor
    · intro h
      exact ⟨a, middle, rfl, h⟩
    · rintro ⟨a', middle', h, h'⟩
      cases h
      exact h'

@[simp] theorem run_map (f : α → β) (x : Read α) (start : Nat) :
    (f <$> x).run start = (x.run start).map fun r => (f r.1, r.2) := by
  change (x >>= fun a => pure (f a)).run start = _
  rw [run_bind]
  cases x.run start <;> rfl

/-- Takes at least one byte, and starts inside `size` bytes, whenever it succeeds. -/
def Progresses (x : Read α) (size : Nat) : Prop :=
  ∀ start a stop, x.run start = .ok (a, stop) → start < size ∧ start < stop

theorem Progresses.bind {x : Read α} {size : Nat} (h : x.Progresses size) (f : α → Read β) :
    (x >>= f).Progresses size := by
  intro start b stop hb
  rw [run_bind] at hb
  match hx : x.run start with
  | .error e => rw [hx] at hb; cases hb
  | .ok (a, middle) =>
    rw [hx] at hb
    have := h start a middle hx
    have := le_of_run (show (f a).run middle = .ok (b, stop) from hb)
    omega

theorem Progresses.after {x : Read α} {f : α → Read β} {size : Nat}
    (h : ∀ a, (f a).Progresses size) : (x >>= f).Progresses size := by
  intro start b stop hb
  rw [run_bind] at hb
  match hx : x.run start with
  | .error e => rw [hx] at hb; cases hb
  | .ok (a, middle) =>
    rw [hx] at hb
    have := le_of_run hx
    have := h a middle b stop hb
    omega

theorem Progresses.map {x : Read α} {size : Nat} (h : x.Progresses size) (f : α → β) :
    (f <$> x).Progresses size :=
  h.bind fun a => pure (f a)

end Read
end Dwarf2
