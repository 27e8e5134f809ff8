/-
What the steps of a builder do when they are run.

A builder is a function of the state.  `run_bind_eq` takes the run of a builder of several
steps apart, and what a basic step has done is told by an equation for the state after it.
Loops are reasoned about by what holds of the part of the list that is done: `run_forM` and
`run_foldlM`.
-/
import Dwarf2.Build.State

namespace Dwarf2
namespace Build

variable {α β : Type}

theorem run_bind_eq {m : Build α} {f : α → Build β} {s s' : State} {b : β} :
    (m >>= f).run s = (b, s') ↔
      ∃ a middle, m.run s = (a, middle) ∧ (f a).run middle = (b, s') :=
  ⟨fun h => ⟨_, _, rfl, h⟩, fun ⟨_, _, h, h'⟩ => by
    show (f (m.run s).1).run (m.run s).2 = _
    rw [h, h']⟩

theorem run_map_eq {f : α → β} {m : Build α} {s s' : State} {b : β} :
    (f <$> m).run s = (b, s') ↔ ∃ a, m.run s = (a, s') ∧ f a = b := by
  show (f (m.run s).1, (m.run s).2) = _ ↔ _
  rw [Prod.mk.injEq]
  constructor
  · rintro ⟨h, rfl⟩
    exact ⟨_, rfl, h⟩
  · rintro ⟨a, h, h'⟩
    rw [h]
    exact ⟨h', rfl⟩

theorem run_onTable (f : Symbol.Table → α × Symbol.Table) (s : State) :
    (onTable f).run s = ((f s.symbols).1, { s with symbols := (f s.symbols).2 }) :=
  rfl

theorem of_run_change {f : Symbol.Table → Symbol.Table} {s s' : State}
    (eq : (change f).run s = ((), s')) : s' = { s with symbols := f s.symbols } := by
  cases eq
  rfl

theorem of_run_push {x : Symbol} {id : SymbolId} {s s' : State}
    (eq : (push x).run s = (id, s')) :
    id = ⟨s.symbols.size⟩ ∧ s' = { s with symbols := (s.symbols.push x).2 } := by
  cases eq
  exact ⟨rfl, rfl⟩

/-- A name that is made up takes a number from the supply.  Nothing else changes. -/
theorem of_run_nameOf {src : Source} {e : Entry} {label name : String} {s s' : State}
    (eq : (nameOf src e label).run s = (name, s')) : s' = { s with names := s'.names } := by
  unfold nameOf at eq
  split at eq
  · cases eq
    rfl
  · cases eq
    rfl

/-- A name that is made up tells what it is for. -/
def Named (src : Source) (label : String) (e : Entry) (name : String) : Prop :=
  match e.text? src.view .name with
  | some text => name = text
  | none => ∃ number : Nat, name = label ++ "_" ++ number.repr

theorem named_of_run_nameOf {src : Source} {e : Entry} {label name : String} {s s' : State}
    (eq : (nameOf src e label).run s = (name, s')) : Named src label e name := by
  unfold nameOf at eq
  split at eq <;> rename_i found <;> cases eq <;> simp only [Named, found]
  exact ⟨s.names.next, rfl⟩

/-- The name is that of the entry, or the one that was given last. -/
theorem issued_of_run_nameOf {src : Source} {e : Entry} {label name : String} {s s' : State}
    (eq : (nameOf src e label).run s = (name, s')) :
    e.text? src.view .name = some name ∨ s'.names.issued = name :: s.names.issued := by
  unfold nameOf at eq
  split at eq
  · rename_i own
    cases eq
    exact .inl own
  · cases eq
    exact .inr rfl

/-- The state in which the symbol of an entry is built in a place. -/
def State.withPlace (s : State) (e : Entry) (id : SymbolId) : State :=
  ({ s with symbols := s.symbols.reserve.2 }.note (.reserved id)).mark e.offset (.pending (some id))

/-- The state in which the place is filled. -/
def State.withFilled (s : State) (id : SymbolId) (x : Symbol) : State :=
  { s with symbols := s.symbols.fill id x }.note
    (.filled id (s.symbols.get? id = some Symbol.placeholder))

/-- The place is the one behind all symbols. -/
theorem of_run_inPlace {e : Entry} {build : Build Symbol} {id : SymbolId} {s s' : State}
    (eq : (inPlace e build).run s = (id, s')) :
    id = ⟨s.symbols.size⟩ ∧ ∃ x s₂,
      build.run (s.withPlace e id) = (x, s₂) ∧ s' = s₂.withFilled id x := by
  obtain ⟨_, _, ⟨⟩, eq⟩ := run_bind_eq.1 eq
  obtain ⟨_, _, ⟨⟩, eq⟩ := run_bind_eq.1 eq
  obtain ⟨_, _, ⟨⟩, eq⟩ := run_bind_eq.1 eq
  obtain ⟨x, s₂, built, eq⟩ := run_bind_eq.1 eq
  cases eq
  exact ⟨rfl, x, s₂, built, rfl⟩

theorem of_run_withParts {e : Entry} {x : Symbol} {parts : SymbolId → Build Unit}
    {id : SymbolId} {s s' : State} (eq : (withParts e x parts).run s = (id, s')) :
    id = ⟨s.symbols.size⟩ ∧
      (parts id).run ({ s with symbols := (s.symbols.push x).2 }.mark e.offset
        (.pending (some id))) = ((), s') := by
  obtain ⟨_, _, ⟨⟩, eq⟩ := run_bind_eq.1 eq
  obtain ⟨_, _, ⟨⟩, eq⟩ := run_bind_eq.1 eq
  obtain ⟨_, _, parts, eq⟩ := run_bind_eq.1 eq
  cases eq
  exact ⟨rfl, parts⟩

/-! ## Slots -/

@[simp] theorem slot_mark_self (s : State) (offset : Nat) (sl : Slot) :
    slot (s.mark offset sl) offset = sl := by
  simp [slot, State.mark]

theorem slot_mark_of_ne (s : State) {offset other : Nat} (sl : Slot) (h : other ≠ offset) :
    slot (s.mark offset sl) other = slot s other := by
  have apart : (offset == other) = false := by simpa using Ne.symm h
  simp [slot, State.mark, Std.HashMap.getD_insert, apart]

/-! ## Loops -/

theorem run_forM {P : List α → State → Prop} {f : α → Build Unit} {l : List α} {s s' : State}
    (eq : (l.forM f).run s = ((), s')) (start : P [] s)
    (step : ∀ done a s s', a ∈ l → P done s → (f a).run s = ((), s') → P (done ++ [a]) s') :
    P l s' := by
  have go : ∀ (rest done : List α) (s : State), (∀ a ∈ rest, a ∈ l) → P done s →
      (rest.forM f).run s = ((), s') → P (done ++ rest) s' := by
    intro rest
    induction rest with
    | nil =>
      intro done s _ h eq
      cases eq
      rw [List.append_nil]
      exact h
    | cons a rest ih =>
      intro done s inside h eq
      obtain ⟨⟨⟩, middle, first, after⟩ := run_bind_eq.1 eq
      have h' := step done a s middle (inside a List.mem_cons_self) h first
      have all := ih (done ++ [a]) middle (fun b hb => inside b (List.mem_cons_of_mem a hb)) h'
        after
      rw [List.append_assoc] at all
      exact all
  exact go l [] s (fun _ h => h) start eq

theorem run_foldlM {P : List α → β → State → Prop} {f : β → α → Build β} {l : List α}
    {b b' : β} {s s' : State} (eq : (l.foldlM f b).run s = (b', s')) (start : P [] b s)
    (step : ∀ done b a s b' s', a ∈ l → P done b s → (f b a).run s = (b', s') →
      P (done ++ [a]) b' s') : P l b' s' := by
  have go : ∀ (rest done : List α) (b : β) (s : State), (∀ a ∈ rest, a ∈ l) → P done b s →
      (rest.foldlM f b).run s = (b', s') → P (done ++ rest) b' s' := by
    intro rest
    induction rest with
    | nil =>
      intro done b s _ h eq
      cases eq
      rw [List.append_nil]
      exact h
    | cons a rest ih =>
      intro done b s inside h eq
      obtain ⟨b₁, middle, first, after⟩ := run_bind_eq.1 eq
      have h' := step done b a s b₁ middle (inside a List.mem_cons_self) h first
      have all := ih (done ++ [a]) b₁ middle (fun c hc => inside c (List.mem_cons_of_mem a hc)) h'
        after
      rw [List.append_assoc] at all
      exact all
  exact go l [] b s (fun _ h => h) start eq

end Build
end Dwarf2
