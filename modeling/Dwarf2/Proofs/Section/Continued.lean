/-
What is read from the end of a section on when there is more of it.

A section that is cut off is the same as the whole one up to where it is cut.  A read that stays
before the cut cannot tell them apart, and one that comes to it runs out of bytes in the one and
goes on in the other.  `Continued` says that there is no third case: a read fails in the cut section
for want of bytes, or it is the same in both, faults and positions included.
-/
import Dwarf2.Proofs.Section.Carried

namespace Dwarf2

variable {α β : Type}

/-- The read has failed because there were too few bytes. -/
def RanOut (r : Except Error α) : Prop :=
  ∃ kind position shortfall, r = .error (.malformed kind (.truncated position shortfall))

namespace RanOut

theorem not_ok (a : α) : ¬RanOut (.ok a : Except Error α) := by
  rintro ⟨_, _, _, ⟨⟩⟩

/-- It does not matter what would have been read. -/
theorem error {e : Error} (h : RanOut (.error e : Except Error α)) :
    RanOut (.error e : Except Error β) := by
  obtain ⟨kind, position, shortfall, ⟨⟩⟩ := h
  exact ⟨kind, position, shortfall, rfl⟩

theorem map_iff {r : Except Error α} (f : α → β) : RanOut (r.map f) ↔ RanOut r := by
  cases r with
  | ok a => exact iff_of_false (not_ok _) (not_ok a)
  | error e => exact ⟨error, error⟩

theorem bind {r : Except Error α} (h : RanOut r) (f : α → Except Error β) : RanOut (r.bind f) := by
  obtain ⟨kind, position, shortfall, rfl⟩ := h
  exact ⟨kind, position, shortfall, rfl⟩

end RanOut

namespace Read

variable {low : Nat}

/-- From the position on, the second read does what the first does where that does not run out of
bytes. -/
def Continued (low : Nat) (x x' : Read α) : Prop :=
  ∀ start, low ≤ start → RanOut (x.run start) ∨ x'.run start = x.run start

namespace Continued

theorem refl (low : Nat) (x : Read α) : Continued low x x :=
  fun _ _ => .inr rfl

theorem bind {x x' : Read α} {f f' : α → Read β} (first : Continued low x x')
    (second : ∀ a, Continued low (f a) (f' a)) : Continued low (x >>= f) (x' >>= f') := by
  intro start le
  rw [run_bind, run_bind]
  rcases first start le with short | same
  · exact .inl (short.bind _)
  rw [same]
  match run : x.run start with
  | .error e => exact .inr rfl
  | .ok (a, middle) => exact second a middle (Nat.le_trans le (le_of_run run))

theorem map {x x' : Read α} (h : Continued low x x') (f : α → β) :
    Continued low (f <$> x) (f <$> x') :=
  h.bind fun a => .refl low (pure (f a))

theorem ite {c : Prop} [Decidable c] {x x' y y' : Read α} (yes : c → Continued low x x')
    (no : ¬c → Continued low y y') :
    Continued low (if c then x else y) (if c then x' else y') := by
  split
  · exact yes ‹_›
  · exact no ‹_›

theorem run_eq {x x' : Read α} (h : Continued low x x') {start : Nat} (le : low ≤ start)
    (enough : ¬RanOut (x.run start)) : x'.run start = x.run start :=
  (h start le).resolve_left enough

/-- A read that fails for want of bytes alone. -/
theorem of_carries {s s' : Section} (agrees : s.Agrees s' low s.bytes.size) {x x' : Read α}
    (carries : s.Carries s' x x') (within : ∀ start stop, x.Lands start stop → stop ≤ s.bytes.size)
    (short : ∀ start e, x.run start = .error e → RanOut (.error e : Except Error α)) :
    Continued low x x' := by
  intro start le
  match run : x.run start with
  | .error e => exact .inl (short start e run).error
  | .ok (a, stop) =>
    obtain ⟨_, same, rfl⟩ :=
      Read.Agrees.of_carries agrees carries start a stop le run (within start stop ⟨a, run⟩)
    exact .inr same

end Continued

end Read

namespace Section

variable {s s' : Section} {low : Nat}

theorem continued_take (agrees : s.Agrees s' low s.bytes.size) (count : Nat)
    (shortfall shortfall' : Nat → Shortfall) :
    (s.take count shortfall).Continued low (s'.take count shortfall') := by
  refine .of_carries agrees (carries_take s s' count _ _) (fun start stop lands => ?_)
    fun start e run => ?_
  · exact ((s.lands_take count shortfall start stop).1 lands).2
  · rw [take, Read.run_ofRun] at run
    split at run
    · cases run
    · cases run
      exact ⟨_, _, _, rfl⟩

theorem continued_leb128 (agrees : s.Agrees s' low s.bytes.size) :
    s.leb128.Continued low s'.leb128 := by
  refine .of_carries agrees (carries_leb128 s s') (fun _ _ => s.le_size_of_leb128) ?_
  intro start e run
  rw [leb128, Read.run_ofRun] at run
  split at run
  · cases run
  · cases run
    exact ⟨_, _, _, rfl⟩

theorem continued_string (agrees : s.Agrees s' low s.bytes.size) :
    s.string.Continued low s'.string := by
  refine .of_carries agrees (carries_string s s') (fun _ _ => s.le_size_of_string) ?_
  intro start e run
  rw [string, Read.run_ofRun] at run
  split at run
  · cases run
  · cases run
    exact ⟨_, _, _, rfl⟩

theorem continued_unsigned (agrees : s.Agrees s' low s.bytes.size) :
    s.unsigned.Continued low s'.unsigned :=
  (continued_leb128 agrees).map _

theorem continued_signed (agrees : s.Agrees s' low s.bytes.size) :
    s.signed.Continued low s'.signed :=
  (continued_leb128 agrees).map _

theorem continued_number (agrees : s.Agrees s' low s.bytes.size) (width : Nat) :
    (s.number width).Continued low (s'.number width) := by
  unfold number
  rw [agrees.order]
  exact (continued_take agrees width _ _).map _

theorem continued_uint8 (agrees : s.Agrees s' low s.bytes.size) :
    s.uint8.Continued low s'.uint8 :=
  (continued_number agrees 1).map _

theorem continued_uint16 (agrees : s.Agrees s' low s.bytes.size) :
    s.uint16.Continued low s'.uint16 :=
  (continued_number agrees 2).map _

theorem continued_uint32 (agrees : s.Agrees s' low s.bytes.size) :
    s.uint32.Continued low s'.uint32 :=
  (continued_number agrees 4).map _

theorem continued_block (agrees : s.Agrees s' low s.bytes.size) (count : Nat) :
    (s.block count).Continued low (s'.block count) :=
  continued_take agrees count _ _

theorem continued_skip (agrees : s.Agrees s' low s.bytes.size) (count : Nat) :
    (s.skip count).Continued low (s'.skip count) :=
  (continued_block agrees count).map _

theorem continued_fault (kind : s'.kind = s.kind) (fault : Fault) :
    (s.fault fault : Read α).Continued low (s'.fault fault) := by
  unfold Section.fault
  rw [kind]
  exact .refl low _

theorem continued_fixed (agrees : s.Agrees s' low s.bytes.size) (kind : s'.kind = s.kind)
    (width : Nat) : (s.fixed width).Continued low (s'.fixed width) :=
  .ite (fun _ => continued_number agrees width) fun _ =>
    (Read.Continued.refl low Read.position).bind fun _ => continued_fault kind _

theorem continued_address (agrees : s.Agrees s' low s.bytes.size) (kind : s'.kind = s.kind)
    (size : UInt8) : (s.address size).Continued low (s'.address size) :=
  .ite (fun _ => continued_number agrees _) fun _ =>
    (Read.Continued.refl low Read.position).bind fun _ => continued_fault kind _

end Section
end Dwarf2
