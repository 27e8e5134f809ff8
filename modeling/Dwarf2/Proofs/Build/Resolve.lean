/-
Resolving an entry, at any depth and in any circle.

Every request into an entry that has not been asked for marks it first.  So the steps that
are left always suffice for the entries that are left, and by induction on them the resolver
`Answers`.
-/
import Dwarf2.Proofs.Build.Function
import Dwarf2.Proofs.Build.Type

namespace Dwarf2
namespace Build

variable {src : Source} {budget : Nat} {resolve : Resolver} {e : Entry} {s s' : State}

/-- Every entry is built into what is due to its tag. -/
theorem AtWork.built (h : AtWork src budget e s) (pending : slot s e.offset = .pending none)
    (answers : Answers src budget resolve) {r : Option SymbolId}
    (eq : (build src resolve e).run s = (r, s')) : Built src e s s' r := by
  unfold build at eq
  split at eq <;> rename_i tag
  · obtain ⟨id, run, rfl⟩ := run_map_eq.1 eq
    exact built_baseType pending tag run
  · obtain ⟨id, run, rfl⟩ := run_map_eq.1 eq
    exact h.built_typedef pending answers tag run
  · obtain ⟨id, run, rfl⟩ := run_map_eq.1 eq
    exact h.built_pointer pending answers (.inl tag) run
  · obtain ⟨id, run, rfl⟩ := run_map_eq.1 eq
    exact h.built_pointer pending answers (.inr tag) run
  · obtain ⟨id, run, rfl⟩ := run_map_eq.1 eq
    exact h.built_aggregate pending answers (.inl ⟨tag, rfl⟩) run
  · obtain ⟨id, run, rfl⟩ := run_map_eq.1 eq
    exact h.built_aggregate pending answers (.inr (.inl ⟨tag, rfl⟩)) run
  · obtain ⟨id, run, rfl⟩ := run_map_eq.1 eq
    exact h.built_aggregate pending answers (.inr (.inr ⟨tag, rfl⟩)) run
  · exact h.built_array pending answers tag eq
  · exact h.built_qualifier pending answers (.inl tag) eq
  · exact h.built_qualifier pending answers (.inr tag) eq
  · obtain ⟨id, run, rfl⟩ := run_map_eq.1 eq
    exact h.built_enumeration pending tag run
  · exact h.built_subprogram pending answers tag eq
  · obtain ⟨id, run, rfl⟩ := run_map_eq.1 eq
    exact h.built_subroutineType pending answers tag run
  · obtain ⟨_, s₁, run, eq⟩ := run_bind_eq.1 eq
    cases eq
    exact h.built_variable pending answers tag run
  · cases eq
    refine h.built_none pending (.refl s) ?_
    unfold Describes
    split <;> first | contradiction | trivial

/-- An entry that has been asked for before answers with what its slot says. -/
theorem Answer.of_known {offset : Nat} {id : Option SymbolId} (he : src.tree.get? offset = some e)
    (known : slot s offset = .resolved id ∨ slot s offset = .pending id) :
    Answer src s (s.note (.answered offset id)) offset id where
  grows := by
    refine .note _ ?_ fun _ _ => rfl
    simp only [Event.Sound, he]
    rcases known with known | known <;> rw [known]
    · exact ⟨Slot.noConfusion, fun i hi _ => by rw [hi]; rfl⟩
    · exact ⟨Slot.noConfusion, fun i hi _ => by rw [hi]; rfl⟩
  absent none := by
    rw [he] at none
    cases none
  asked d _ := by
    change slot s offset ≠ .unresolved
    rcases known with known | known <;> rw [known] <;> exact Slot.noConfusion
  present d _ exposed := by
    change (slot s offset).told? = some id
    rcases known with known | known <;> rw [known] at exposed ⊢
    · rfl
    · cases id with
      | none => exact absurd rfl exposed
      | some i => rfl
  lost d _ pending := by
    rcases known with known | known <;> rw [known] at pending <;> cases pending
    rfl

theorem Answer.of_absent {offset : Nat} (absent : src.tree.get? offset = none) :
    Answer src s (s.note (.answered offset none)) offset none where
  grows := .note _ (by simp only [Event.Sound, absent]) fun _ _ => rfl
  absent _ := rfl
  asked d hd := by
    rw [absent] at hd
    cases hd
  present d hd _ := by
    rw [absent] at hd
    cases hd
  lost _ _ _ := rfl

/-- The entry is built by a resolver for one entry less. -/
theorem Answer.of_built {steps : Nat} {r : Option SymbolId}
    (answers : Answers src steps (resolveWithin src steps))
    (there : src.tree.get? e.offset = some e)
    (fresh : slot s e.offset = .unresolved) (left : unresolved src s ≤ steps + 1)
    (waiting : ∀ offset d, src.tree.get? offset = some d → slot s offset = .pending none →
      Awaits src d e.offset)
    (eq : (build src (resolveWithin src steps) e).run (s.mark e.offset (.pending none)) = (r, s')) :
    Answer src s ((s'.mark e.offset (.resolved r)).note (.answered e.offset r)) e.offset r := by
  have work : AtWork src steps e (s.mark e.offset (.pending none)) := by
    refine ⟨there, by rw [slot_mark_self]; nofun, ?_, fun offset d hd pending ne => ?_⟩
    · have := unresolved_mark_lt (.pending none) there fresh nofun
      omega
    · rw [slot_mark_of_ne _ _ ne] at pending
      exact waiting offset d hd pending
  have pending : slot (s.mark e.offset (.pending none)) e.offset = .pending none :=
    slot_mark_self _ _ _
  have settled := (work.built pending answers eq).grows_settled there fresh
    ⟨steps, work, pending, eq⟩
  have known := Answer.of_known (s := s'.mark e.offset (.resolved r)) there
    (.inl (slot_mark_self _ _ _))
  refine ⟨settled.trans known.grows, ?_, known.asked, ?_, ?_⟩
  · intro absent
    rw [there] at absent
    cases absent
  · intro d hd _
    exact known.present d hd (by rw [slot_mark_self]; nofun)
  · intro d _ pending
    rw [fresh] at pending
    cases pending

theorem answers_step {steps : Nat}
    (below : ∀ fewer, steps = fewer + 1 → Answers src fewer (resolveWithin src fewer)) :
    Answers src steps (resolveWithin src steps) := by
  intro offset s id s' left waiting eq
  unfold resolveWithin at eq
  split at eq
  · rename_i absent
    cases eq
    exact .of_absent absent
  rename_i e there
  obtain ⟨_, _, ⟨⟩, eq⟩ := run_bind_eq.1 eq
  split at eq
  · rename_i known
    cases eq
    exact .of_known there (.inl known)
  · rename_i known
    cases eq
    exact .of_known there (.inr known)
  rename_i fresh
  cases Entry.Tree.offset_of_get? there
  cases steps with
  | zero =>
    have := unresolved_mark_lt (.pending none) there fresh nofun
    omega
  | succ steps =>
    obtain ⟨_, _, ⟨⟩, eq⟩ := run_bind_eq.1 eq
    obtain ⟨r, s₁, hbuild, eq⟩ := run_bind_eq.1 eq
    obtain ⟨_, _, ⟨⟩, eq⟩ := run_bind_eq.1 eq
    cases eq
    exact .of_built (below steps rfl) there fresh left waiting hbuild

theorem answers_resolveWithin (src : Source) (steps : Nat) :
    Answers src steps (resolveWithin src steps) := by
  induction steps with
  | zero => exact answers_step nofun
  | succ steps ih =>
    refine answers_step fun fewer h => ?_
    cases h
    exact ih

/-- Asked for from outside, where no entry is at work, every entry gets its answer. -/
theorem answer_resolve {offset : Nat} {id : Option SymbolId}
    (idle : ∀ waiting, slot s waiting ≠ .pending none)
    (eq : (Build.resolve src offset).run s = (id, s')) : Answer src s s' offset id :=
  answers_resolveWithin src _ offset s id s' (unresolved_le_size src s)
    (fun waiting _ _ pending => absurd pending (idle waiting)) eq

/-- Asking for an entry that is resolved changes nothing but the journal. -/
theorem run_resolveWithin_of_resolved {steps offset : Nat} {r : Option SymbolId}
    (he : src.tree.get? offset = some e) (resolved : slot s offset = .resolved r) :
    (resolveWithin src steps offset).run s = (r, s.note (.answered offset r)) := by
  unfold resolveWithin
  rw [he]
  refine run_bind_eq.2 ⟨s, s, rfl, ?_⟩
  rw [resolved]
  rfl

end Build
end Dwarf2
