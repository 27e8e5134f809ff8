/-
Where the reads of a section end.

`Lands` asks for nothing else.  Two reads that take the same bytes land alike, whatever they
make of the bytes and whatever they say when there are too few.
-/
import Dwarf2.Section

namespace Dwarf2

variable {α β : Type}

namespace Read

/-- The read succeeds and ends at `stop`. -/
def Lands (x : Read α) (start stop : Nat) : Prop :=
  ∃ a, x.run start = .ok (a, stop)

@[simp] theorem lands_pure (a : α) (start stop : Nat) :
    (pure a : Read α).Lands start stop ↔ stop = start := by
  simp [Lands, eq_comm]

@[simp] theorem not_lands_fail (e : Error) (start stop : Nat) :
    ¬(fail e : Read α).Lands start stop := by
  rintro ⟨a, eq⟩
  cases eq

@[simp] theorem lands_map (f : α → β) (x : Read α) (start stop : Nat) :
    (f <$> x).Lands start stop ↔ x.Lands start stop := by
  constructor
  · rintro ⟨b, eq⟩
    rw [run_map] at eq
    cases h : x.run start with
    | error e =>
      rw [h] at eq
      cases eq
    | ok r =>
      rw [h] at eq
      cases eq
      exact ⟨_, h⟩
  · rintro ⟨a, eq⟩
    exact ⟨f a, by rw [run_map, eq]; rfl⟩

@[simp] theorem lands_bind_pure (f : α → β) (x : Read α) (start stop : Nat) :
    (x >>= fun a => pure (f a)).Lands start stop ↔ x.Lands start stop :=
  lands_map f x start stop

theorem lands_bind {x : Read α} {f : α → Read β} {start stop : Nat} :
    (x >>= f).Lands start stop ↔
      ∃ a middle, x.run start = .ok (a, middle) ∧ (f a).Lands middle stop := by
  simp only [Lands, run_bind_eq_ok]
  constructor
  · rintro ⟨b, a, middle, first, second⟩
    exact ⟨a, middle, first, b, second⟩
  · rintro ⟨a, middle, first, b, second⟩
    exact ⟨b, a, middle, first, second⟩

end Read

namespace Section

variable (s : Section)

@[simp] theorem lands_take (count : Nat) (shortfall : Nat → Shortfall) (start stop : Nat) :
    (s.take count shortfall).Lands start stop ↔ stop = start + count ∧ stop ≤ s.bytes.size := by
  simp only [Read.Lands, take, Read.run_ofRun]
  split
  · rename_i enough
    constructor
    · rintro ⟨a, eq⟩
      cases eq
      exact ⟨rfl, enough⟩
    · rintro ⟨rfl, -⟩
      exact ⟨_, rfl⟩
  · rename_i short
    constructor
    · rintro ⟨a, eq⟩
      cases eq
    · rintro ⟨rfl, enough⟩
      exact absurd enough short

@[simp] theorem lands_number (width start stop : Nat) :
    (s.number width).Lands start stop ↔ stop = start + width ∧ stop ≤ s.bytes.size := by
  rw [number, Read.lands_map, lands_take]

theorem lands_fixed {width : Nat} (known : width = 1 ∨ width = 2 ∨ width = 4 ∨ width = 8)
    (start stop : Nat) :
    (s.fixed width).Lands start stop ↔ stop = start + width ∧ stop ≤ s.bytes.size := by
  rw [fixed, if_pos known, lands_number]

/-- A fault that tells its position lands nowhere. -/
theorem not_lands_fault (f : Nat → Fault) (start stop : Nat) :
    ¬(Read.position >>= fun position => s.fault (f position) : Read α).Lands start stop := by
  intro lands
  obtain ⟨position, middle, -, lands⟩ := Read.lands_bind.1 lands
  exact Read.not_lands_fail _ _ _ lands

/-- The size of an address is checked before any byte is taken. -/
theorem lands_address (size : UInt8) (start stop : Nat) :
    (s.address size).Lands start stop ↔
      (stop = start + size.toNat ∧ stop ≤ s.bytes.size) ∧ 1 ≤ size ∧ size ≤ 8 := by
  unfold address
  split
  · rename_i known
    rw [lands_number, and_iff_left known]
  · rename_i unknown
    exact iff_of_false (s.not_lands_fault _ start stop) fun ⟨_, known⟩ => unknown known

@[simp] theorem lands_block (count start stop : Nat) :
    (s.block count).Lands start stop ↔ stop = start + count ∧ stop ≤ s.bytes.size :=
  s.lands_take count _ start stop

@[simp] theorem lands_skip (count start stop : Nat) :
    (s.skip count).Lands start stop ↔ stop = start + count ∧ stop ≤ s.bytes.size := by
  rw [skip, Read.lands_map, lands_block]

/-- A block behind its length is taken or passed over alike, whatever the length is read by. -/
theorem lands_block_behind (x : Read α) (count : α → Nat) (f : Bytes → β) (start stop : Nat) :
    (x >>= fun a => s.block (count a) >>= fun bytes => pure (f bytes)).Lands start stop ↔
      (x >>= fun a => s.skip (count a)).Lands start stop := by
  rw [Read.lands_bind, Read.lands_bind]
  refine exists_congr fun a => exists_congr fun middle => and_congr_right fun _ => ?_
  rw [Read.lands_bind_pure, lands_block, lands_skip]

theorem le_size_of_leb128 {start stop : Nat} (h : s.leb128.Lands start stop) :
    stop ≤ s.bytes.size := by
  obtain ⟨groups, eq⟩ := h
  rw [leb128, Read.run_ofRun] at eq
  split at eq
  · rename_i found
    cases eq
    exact (Bytes.indexFrom?_eq_some found).2
  · cases eq

theorem le_size_of_string {start stop : Nat} (h : s.string.Lands start stop) :
    stop ≤ s.bytes.size := by
  obtain ⟨bytes, eq⟩ := h
  rw [string, Read.run_ofRun] at eq
  split at eq
  · rename_i found
    cases eq
    exact (Bytes.indexFrom?_eq_some found).2
  · cases eq

end Section
end Dwarf2
