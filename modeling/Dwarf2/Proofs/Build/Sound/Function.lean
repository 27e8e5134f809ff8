/-
The builders of functions and variables keep the table sound.

What lies in a scope goes to the function and the signature of that scope.  The index of a block
is handed down while the function takes up more blocks, and stays good: `Scope.Fits`.
-/
import Dwarf2.Proofs.Build.Function
import Dwarf2.Proofs.Build.Sound.Type

namespace Dwarf2
namespace Build

open Dwarf2.Symbol.Table (Inside)

variable {start : Symbol.Table} {own hand : List SymbolId} {s s' : State} {resolve : Resolver}
  {src : Source} {scope : Scope} {block : Option Nat} {c e : Entry} {id : SymbolId}

/-- The function of the scope is still being built, and has the block that is handed down.
Without a function there are no blocks. -/
structure Scope.Fits (scope : Scope) (own : List SymbolId) (block : Option Nat)
    (t : Symbol.Table) : Prop where
  own : ∀ id, scope.function = some id → id ∈ own
  function : ∀ id, scope.function = some id →
    ∃ f, t.get? id = some (.function f) ∧ ∀ b, block = some b → b < f.blocks.size
  outside : scope.function = none → block = none

namespace Scope.Fits

theorem grow {t u : Symbol.Table} (h : scope.Fits own block t) (grows : t.Grows hand u) :
    scope.Fits own block u where
  own := h.own
  function id hid := by
    obtain ⟨f, hf, inside⟩ := h.function id hid
    obtain ⟨g, hg, more⟩ := grows.function hf
    exact ⟨g, hg, fun b hb => Nat.lt_of_lt_of_le (inside b hb) more.blocks.length_le⟩
  outside := h.outside

/-- In the function of the scope the index of the block is good. -/
theorem lt_size {t : Symbol.Table} (h : scope.Fits own block t) (hid : scope.function = some id)
    (f : Symbol.Function) (hf : t.get? id = some (.function f)) (b : Nat) (hb : block = some b) :
    b < f.blocks.size := by
  obtain ⟨g, hg, inside⟩ := h.function id hid
  cases hf.symm.trans hg
  exact inside b hb

theorem withoutSignature {t : Symbol.Table} (h : scope.Fits own block t) :
    ({ scope with signature := none } : Scope).Fits own block t :=
  ⟨h.own, h.function, h.outside⟩

theorem empty (own : List SymbolId) (frame : Frame) (t : Symbol.Table) :
    ({ frame } : Scope).Fits own none t :=
  ⟨nofun, nofun, fun _ => rfl⟩

end Scope.Fits

namespace Sound

/-! ## Variables -/

theorem buildLocal (h : Sound start own s) (fits : scope.Fits own block s.symbols) {name : String}
    {type : Option SymbolId} {register : Option UInt16} {deref : Bool} {offset : Int64}
    (inside : s.symbols.Inside type)
    (eq : (Build.buildLocal scope block c name type register deref offset).run s = ((), s')) :
    Builds start own scope.own s s' := by
  unfold Build.buildLocal at eq
  rw [of_run_change eq]
  cases hf : scope.function with
  | none =>
    exact h.change (h.table.addDetached inside (fits.outside hf))
      (.addDetached (Symbol.Within.refl _) _ _)
  | some id =>
    exact h.change (h.table.addLocal inside (fits.lt_size hf))
      (.addLocal (Symbol.Within.refl _) (Symbol.Within.free (Scope.own_of_function hf)) _)

theorem buildGlobal (h : Sound start own s) {name : String} {type : Option SymbolId}
    {offset : Int64} (inside : s.symbols.Inside type)
    (eq : (Build.buildGlobal src c name type offset).run s = ((), s')) :
    Builds start own hand s s' := by
  obtain ⟨_, _, ⟨⟩, eq⟩ := run_bind_eq.1 eq
  obtain ⟨id, s₁, hpush, eq⟩ := run_bind_eq.1 eq
  cases eq
  refine (h.push hpush ⟨fun i hi => ?_, nofun, h.compiland, nofun, nofun⟩ (.inl trivial)).1
  rcases List.mem_append.1 hi with hi | hi
  · obtain ⟨source, there⟩ := h.compiland i (Option.mem_toList.1 hi)
    exact Symbol.Table.lt_size_of_get? there
  · exact inside i (Option.mem_toList.1 hi)

theorem buildLocated (h : Sound start own s) (fits : scope.Fits own block s.symbols)
    {name : String} {type : Option SymbolId} (inside : s.symbols.Inside type)
    (eq : (Build.buildLocated src scope block c name type).run s = ((), s')) :
    Builds start own scope.own s s' := by
  unfold Build.buildLocated at eq
  split at eq
  · cases eq
    exact .refl h
  · exact h.buildGlobal inside eq
  · exact h.buildLocal fits inside eq
  · exact h.buildLocal fits inside eq

theorem countParameter (h : Sound start own s) {type : Option SymbolId}
    (inside : s.symbols.Inside type)
    (eq : (Build.countParameter scope c type).run s = ((), s')) :
    Builds start own scope.own s s' := by
  unfold Build.countParameter at eq
  split at eq
  · split at eq
    · rename_i id hid
      rw [of_run_change eq]
      exact h.change (h.table.addParameter id inside) (.addParameter (Symbol.Within.refl _)
        (Symbol.Within.free (Scope.own_of_signature hid)) _)
    · cases eq
      exact .refl h
  · cases eq
    exact .refl h

theorem buildVariable (h : Sound start own s) (honest : Honest start resolve)
    (fits : scope.Fits own block s.symbols)
    (eq : (Build.buildVariable src resolve scope block c).run s = ((), s')) :
    Builds start own scope.own s s' := by
  obtain ⟨type, s₁, htype, eq⟩ := run_bind_eq.1 eq
  obtain ⟨name, s₂, hname, eq⟩ := run_bind_eq.1 eq
  obtain ⟨_, s₃, hlocated, eq⟩ := run_bind_eq.1 eq
  obtain ⟨asked, inside⟩ := h.typeOf honest htype
  have named : Builds start own scope.own s₁ s₂ := asked.sound.nameOf hname
  have before : Builds start own scope.own s s₂ := asked.within.trans named
  have inside := named.inside inside
  have located := named.sound.buildLocated (fits.grow before.grows) inside hlocated
  have counted := located.sound.countParameter (located.inside inside) eq
  exact (before.trans located).trans counted

theorem buildLabel (h : Sound start own s) (fits : scope.Fits own block s.symbols)
    (eq : (Build.buildLabel src scope c).run s = ((), s')) : Builds start own scope.own s s' := by
  obtain ⟨name, s₁, hname, eq⟩ := run_bind_eq.1 eq
  have named : Builds start own scope.own s s₁ := h.nameOf hname
  split at eq
  · rename_i id hid
    rw [of_run_change eq]
    exact named.trans (named.sound.change (named.sound.table.addLabel (fits.own id hid) _)
      (.addLabel (Symbol.Within.refl _) (Symbol.Within.free (Scope.own_of_function hid)) _))
  · cases eq
    exact named

/-- The block that is opened comes behind the one that it is in. -/
theorem openBlock (h : Sound start own s) (fits : scope.Fits own block s.symbols)
    {inner : Option Nat} (eq : (Build.openBlock src scope block c).run s = (inner, s')) :
    Builds start own scope.own s s' ∧ scope.Fits own inner s'.symbols := by
  unfold Build.openBlock at eq
  split at eq
  rename_i address length _
  split at eq
  · rename_i id hid
    rw [run_onTable] at eq
    cases eq
    obtain ⟨f, hf, -⟩ := fits.function id hid
    refine ⟨h.change (h.table.openBlock (fits.lt_size hid)) (.openBlock (Symbol.Within.refl _)
      (Symbol.Within.free (Scope.own_of_function hid)) _), fits.own, fun other hother => ?_,
      fun none => ?_⟩
    · cases hid.symm.trans hother
      have function : s.symbols.function? id = some f := by rw [Symbol.Table.function?, hf]
      refine ⟨{ f with blocks := f.blocks.push ⟨address, length, block⟩ }, ?_, fun b hb => ?_⟩
      · rw [Symbol.Table.openBlock, function]
        exact Symbol.Table.get?_updateFunction hf _
      · rw [Symbol.Table.openBlock, function] at hb
        cases hb
        rw [Array.size_push]
        exact Nat.lt_succ_self _
    · rw [hid] at none
      cases none
  · rename_i none
    cases eq
    refine ⟨.refl h, fits.own, fun id hid => ?_, fun _ => rfl⟩
    cases none.symm.trans hid

/-! ## Parts -/

mutual

theorem buildPart {scope : Scope} {block : Option Nat} {inBlock : Bool} {s s' : State}
    (honest : Honest start resolve) :
    (c : Entry) → Sound start own s → scope.Fits own block s.symbols →
      (Build.buildPart src resolve scope inBlock block c).run s = ((), s') →
        Builds start own scope.own s s'
  | ⟨offset, abbreviation, attributeOffsets, children⟩, h, fits, eq => by
    unfold Build.buildPart at eq
    split at eq
    · exact h.buildVariable honest fits eq
    · cases inBlock with
      | true =>
        cases eq
        exact .refl h
      | false => exact h.buildVariable honest fits eq
    · cases inBlock with
      | true =>
        cases eq
        exact .refl h
      | false => exact h.buildLabel fits eq
    · obtain ⟨inner, s₁, opened, eq⟩ := run_bind_eq.1 eq
      obtain ⟨grows, fits⟩ := h.openBlock fits opened
      exact grows.trans (buildParts honest children grows.sound fits eq)
    · have parts := buildParts honest children h fits.withoutSignature eq
      refine parts.widen fun id hid => ?_
      rcases List.mem_append.1 hid with hid | hid
      · exact List.mem_append_left _ hid
      · cases hid
    · cases eq
      exact .refl h

theorem buildParts {scope : Scope} {block : Option Nat} {inBlock : Bool} {s s' : State}
    (honest : Honest start resolve) :
    (es : List Entry) → Sound start own s → scope.Fits own block s.symbols →
      (Build.buildParts src resolve scope inBlock block es).run s = ((), s') →
        Builds start own scope.own s s'
  | [], h, _, eq => by
    cases eq
    exact .refl h
  | c :: rest, h, fits, eq => by
    unfold Build.buildParts at eq
    obtain ⟨⟨⟩, s₁, first, eq⟩ := run_bind_eq.1 eq
    have grows := buildPart honest c h fits first
    exact grows.trans (buildParts honest rest grows.sound (fits.grow grows.grows) eq)

end

/-! ## Functions -/

theorem buildDeclaration (h : Sound start own s) (honest : Honest start resolve)
    {returnType : Option SymbolId} (inside : s.symbols.Inside returnType)
    (eq : (Build.buildDeclaration src resolve e returnType).run s = ((), s')) :
    Builds start own [] s s' := by
  obtain ⟨_, s₁, hsignature, eq⟩ := run_bind_eq.1 eq
  have pushed : Builds start own [] s s₁ :=
    (h.push hsignature (holds_signature inside) (.inl trivial)).1
  exact pushed.trans (buildParts honest e.children pushed.sound (.empty own _ _) eq)

/-- A function that has no parts yet. -/
structure Bare (f : Symbol.Function) : Prop where
  locals : f.locals = #[]
  blocks : f.blocks = #[]
  lines : f.lines = []

theorem holds_function (h : Sound start own s) {f : Symbol.Function} {g : Symbol.Signature}
    (bare : Bare f) (compiland : f.compiland = s.compiland)
    (signature : s.symbols.get? f.signature = some (.signature g)) :
    s.symbols.Holds (.function f) where
  references i hi := by
    simp only [Symbol.references, bare.locals, compiland, List.filterMap_nil, List.mem_append,
      List.mem_singleton, Option.mem_toList] at hi
    rcases hi with hi | rfl
    · obtain ⟨source, there⟩ := h.compiland i hi
      exact Symbol.Table.lt_size_of_get? there
    · exact Symbol.Table.lt_size_of_get? signature
  sources i hi := by
    simp only [Symbol.sources, bare.lines, List.map_nil, List.not_mem_nil] at hi
  compiland i hi := h.compiland i (compiland.symm.trans hi)
  signature f' hf := by
    cases hf
    exact ⟨g, signature⟩
  function f' hf := by
    cases hf
    refine ⟨fun i p b hb => ?_, fun l hl => ?_, ?_⟩
    · simp [bare.blocks] at hb
    · simp [bare.locals] at hl
    · rw [bare.lines]
      exact .nil

/-- The signature and the function are put into the table, and the function is exposed. -/
theorem opened (h : Sound start own s) {returnType : Option SymbolId}
    (inside : s.symbols.Inside returnType) {signature : SymbolId} {f : Symbol.Function}
    {s₁ s₂ : State} (hsignature : (Build.push (.signature { returnType })).run s = (signature, s₁))
    (hfunction : (Build.push (.function f)).run s₁ = (id, s₂)) (bare : Bare f)
    (compiland : f.compiland = s₁.compiland) (hf : f.signature = signature) (frame : Frame) :
    Builds start (id :: own) [id, signature] s (s₂.mark e.offset (.pending (some id))) ∧
      (∀ i ∈ [id, signature], s.symbols.size ≤ i.index) ∧
      Scope.Fits ⟨some id, some signature, frame⟩ (id :: own) none
        (s₂.mark e.offset (.pending (some id))).symbols := by
  obtain ⟨hsig, hs₁⟩ := of_run_push hsignature
  obtain ⟨hid, hs₂⟩ := of_run_push hfunction
  have get₁ : s₁.symbols.get? signature = some (.signature { returnType }) := by
    rw [hs₁, hsig]
    exact Symbol.Table.get?_push_self _ _
  have get₂ : s₂.symbols.get? id = some (.function f) := by
    rw [hs₂, hid]
    exact Symbol.Table.get?_push_self _ _
  have wide : Sound start (id :: own) s := h.widen fun _ => List.mem_cons_of_mem id
  have pushed : Builds start (id :: own) [id, signature] s s₁ :=
    (wide.push hsignature (holds_signature inside) (.inl trivial)).1
  have added : Builds start (id :: own) [id, signature] s₁ s₂ :=
    (pushed.sound.push hfunction (pushed.sound.holds_function bare compiland (hf ▸ get₁))
      (.inr (hid ▸ List.mem_cons_self))).1
  have exposed : Builds start (id :: own) [id, signature] s₂
      (s₂.mark e.offset (.pending (some id))) :=
    added.sound.expose e.offset (Symbol.Table.lt_size_of_get? get₂)
  refine ⟨(pushed.trans added).trans exposed, fun i hi => ?_, fun i hi => ?_, fun i hi => ?_,
    nofun⟩
  · rcases List.mem_cons.1 hi with rfl | hi
    · rw [hid]
      exact pushed.grows.size_le
    · exact Nat.le_of_eq (by rw [List.mem_singleton.1 hi, hsig])
  · cases hi
    exact List.mem_cons_self
  · cases hi
    exact ⟨f, get₂, nofun⟩

/-- The function is in hand from when it is put into the table until it is normalized. -/
theorem buildFunction (h : Sound start own s) (honest : Honest start resolve) {name : String}
    {returnType : Option SymbolId} (inside : s.symbols.Inside returnType)
    (eq : (Build.buildFunction src resolve e name returnType).run s = (id, s')) :
    Builds start own [] s s' ∧ s'.symbols.Inside (some id) := by
  unfold Build.buildFunction at eq
  split at eq
  obtain ⟨signature, s₁, hsignature, eq⟩ := run_bind_eq.1 eq
  obtain ⟨_, _, ⟨⟩, eq⟩ := run_bind_eq.1 eq
  obtain ⟨function, s₂, hfunction, eq⟩ := run_bind_eq.1 eq
  obtain ⟨_, _, ⟨⟩, eq⟩ := run_bind_eq.1 eq
  obtain ⟨_, s₃, hparts, eq⟩ := run_bind_eq.1 eq
  obtain ⟨_, s₄, hnormalize, eq⟩ := run_bind_eq.1 eq
  cases eq
  obtain ⟨opened, new, fits⟩ := h.opened inside hsignature hfunction ⟨rfl, rfl, rfl⟩ rfl rfl
    (frameOf src e)
  have parts := buildParts honest e.children opened.sound fits hparts
  obtain ⟨f, hf, -⟩ := (fits.grow parts.grows).function id rfl
  have grown : Builds start (id :: own) [id, signature] s s₃ := opened.trans parts
  have normalized : s₃.symbols.Grows [id, signature] (s₃.symbols.normalize id) :=
    .normalize (Symbol.Within.refl _) (Symbol.Within.free List.mem_cons_self)
  -- The function is left to itself here, so the last step is not one with it in hand.
  have finished : Builds start own [id, signature] s
      { s₃ with symbols := s₃.symbols.normalize id } := by
    have sound := (grown.sound.change (grown.sound.table.normalize hf |>.widen
      fun _ => List.mem_cons_of_mem id) normalized).sound
    exact ⟨⟨grown.sound.table.normalize hf, sound.slots, sound.compiland⟩,
      grown.grows.trans normalized, grown.names⟩
  rw [of_run_change hnormalize]
  refine ⟨finished.leave new, ?_⟩
  rintro _ ⟨⟩
  exact normalized.develops.lt_size (Symbol.Table.lt_size_of_get? hf)

/-- What a subprogram is built into, if anything. -/
theorem buildSubprogram (h : Sound start own s) (honest : Honest start resolve)
    {r : Option SymbolId} (eq : (Build.buildSubprogram src resolve e).run s = (r, s')) :
    Builds start own [] s s' ∧ s'.symbols.Inside r := by
  unfold Build.buildSubprogram at eq
  split at eq
  · cases eq
    exact ⟨.refl h, .none _⟩
  obtain ⟨name, s₁, hname, eq⟩ := run_bind_eq.1 eq
  obtain ⟨returnType, s₂, htype, eq⟩ := run_bind_eq.1 eq
  have named : Builds start own [] s s₁ := h.nameOf hname
  obtain ⟨asked, inside⟩ := named.sound.typeOf honest htype
  have before := named.trans asked
  split at eq
  · obtain ⟨_, s₃, hdeclaration, eq⟩ := run_bind_eq.1 eq
    cases eq
    exact ⟨before.trans (before.sound.buildDeclaration honest inside hdeclaration), .none _⟩
  · obtain ⟨id, hfunction, rfl⟩ := run_map_eq.1 eq
    obtain ⟨built, there⟩ := before.sound.buildFunction honest inside hfunction
    exact ⟨before.trans built, there⟩

end Sound
end Build
end Dwarf2
