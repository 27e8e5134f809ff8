/-
What the builders of functions and variables build.

All that lies under a function is followed with what its symbols are like so far: the
function keeps its signature and contains what has been made of the entries, and the signature
has got the parameters that are declared directly under the function.  Nothing else under it
adds to the signature.
-/
import Dwarf2.Proofs.Build.Content
import Dwarf2.Proofs.Build.Step

namespace Dwarf2
namespace Build

variable {src : Source} {budget : Nat} {resolve : Resolver} {e c : Entry} {scope : Scope}
  {type : SymbolId} {parts : List Part} {done around : List Entry} {s s' : State}

/-- The symbols that are changed by what lies in the scope. -/
def Scope.own (scope : Scope) : List SymbolId :=
  scope.function.toList ++ scope.signature.toList

theorem Scope.own_of_function {id : SymbolId} (h : scope.function = some id) : id ∈ scope.own :=
  List.mem_append_left _ (by rw [h]; exact List.mem_singleton_self id)

theorem Scope.own_of_signature {id : SymbolId} (h : scope.signature = some id) :
    id ∈ scope.own :=
  List.mem_append_right _ (by rw [h]; exact List.mem_singleton_self id)

/-- What the symbols of the scope are like while the entry is built.  The function has the
given signature and what is made of some parts, and the signature that takes up parameters has
those of some entries. -/
structure Body (src : Source) (e : Entry) (scope : Scope) (type : SymbolId) (parts : List Part)
    (done : List Entry) (s : State) : Prop where
  function : ∀ id, scope.function = some id → ∃ f, s.symbols.get? id = some (.function f) ∧
    f.signature = type ∧ Contains src (Refers src s e) scope.frame parts f
  signature : ∀ id, scope.signature = some id → ∃ g, s.symbols.get? id = some (.signature g) ∧
    Refers src s e e g.returnType ∧ List.Forall₂ (Refers src s e) done g.parameters.toList

namespace Body

theorem inside (h : Body src e scope type parts done s) :
    ∀ id ∈ scope.own, id.index < s.symbols.size := by
  intro id hid
  rcases List.mem_append.1 hid with hid | hid
  · obtain ⟨f, hf, -, -⟩ := h.function id (Option.mem_toList.1 hid)
    exact Symbol.Table.lt_size_of_get? hf
  · obtain ⟨g, hg, -⟩ := h.signature id (Option.mem_toList.1 hid)
    exact Symbol.Table.lt_size_of_get? hg

theorem signature_ne_function (h : Body src e scope type parts done s) {id : SymbolId}
    (hid : scope.signature = some id) : scope.function ≠ some id := by
  intro same
  obtain ⟨f, hf, -, -⟩ := h.function id same
  obtain ⟨g, hg, -⟩ := h.signature id hid
  cases hf.symm.trans hg

/-- What is built besides the function does not concern it. -/
theorem grow (h : Body src e scope type parts done s) (grows : Grows src {} s s') :
    Grows src ⟨none, scope.own, []⟩ s s' ∧ Body src e scope type parts done s' := by
  refine ⟨grows.within fun id hid => .inl (h.inside id hid), ?_, ?_⟩
  · intro id hid
    obtain ⟨f, hf, htype, contains⟩ := h.function id hid
    exact ⟨f, grows.get?_eq hf, htype, contains.imp fun _ _ h => h.later grows.later⟩
  · intro id hid
    obtain ⟨g, hg, returns, parameters⟩ := h.signature id hid
    exact ⟨g, grows.get?_eq hg, returns.later grows.later,
      parameters.imp fun _ _ h => h.later grows.later⟩

/-- The function gets what is made of more parts. -/
theorem updateFunction (h : Body src e scope type parts done s) {id : SymbolId}
    (hid : scope.function = some id) {f : Symbol.Function → Symbol.Function}
    (hf : ∀ g, (f g).signature = g.signature) {parts' : List Part}
    (more : ∀ g, Contains src (Refers src s e) scope.frame parts g →
      Contains src (Refers src s e) scope.frame parts' (f g)) :
    Grows src ⟨none, scope.own, []⟩ s { s with symbols := s.symbols.updateFunction id f } ∧
      Body src e scope type parts' done
        { s with symbols := s.symbols.updateFunction id f } := by
  have grows : Grows src ⟨none, scope.own, []⟩ s
      { s with symbols := s.symbols.updateFunction id f } :=
    .touch (Scope.own_of_function hid) (.updateFunction f _ id)
  refine ⟨grows, ?_, ?_⟩
  · intro other hother
    cases hid.symm.trans hother
    obtain ⟨g, hg, htype, contains⟩ := h.function id hid
    exact ⟨f g, Symbol.Table.get?_updateFunction hg f, (hf g).trans htype,
      (more g contains).imp fun _ _ h => h.later grows.later⟩
  · intro other hother
    obtain ⟨g, hg, returns, parameters⟩ := h.signature other hother
    have ne : other ≠ id := fun same => h.signature_ne_function hother (same ▸ hid)
    have get := (Symbol.Table.Touches.updateFunction f s.symbols id).get?_eq other ne
    exact ⟨g, get.trans hg, returns.later grows.later,
      parameters.imp fun _ _ h => h.later grows.later⟩

theorem addParameter (h : Body src e scope type parts done s) {id : SymbolId}
    (hid : scope.signature = some id) {stored : Option SymbolId}
    (refers : Refers src s e c stored) :
    Grows src ⟨none, scope.own, []⟩ s { s with symbols := s.symbols.addParameter id stored } ∧
      Body src e scope type parts (done ++ [c])
        { s with symbols := s.symbols.addParameter id stored } := by
  have grows : Grows src ⟨none, scope.own, []⟩ s
      { s with symbols := s.symbols.addParameter id stored } :=
    .touch (Scope.own_of_signature hid) (.addParameter stored _ id)
  refine ⟨grows, ?_, ?_⟩
  · intro other hother
    obtain ⟨f, hf, htype, contains⟩ := h.function other hother
    have ne : other ≠ id := fun same => h.signature_ne_function hid (same ▸ hother)
    have get := (Symbol.Table.Touches.addParameter stored s.symbols id).get?_eq other ne
    exact ⟨f, get.trans hf, htype, contains.imp fun _ _ h => h.later grows.later⟩
  · intro other hother
    cases hid.symm.trans hother
    obtain ⟨g, hg, returns, parameters⟩ := h.signature id hid
    refine ⟨_, Symbol.Table.get?_addParameter hg stored, returns.later grows.later, ?_⟩
    rw [Array.toList_push]
    exact List.rel_append (parameters.imp fun _ _ h => h.later grows.later)
      (.cons (refers.later grows.later) .nil)

/-- Nothing is made of the part, or there is no function to have it. -/
theorem skip (h : Body src e scope type parts done s) {p : Part}
    (plain : scope.function ≠ none → p.isBlock = false ∧ p.isLocal src = false ∧
      p.isLabel = false) : Body src e scope type (parts ++ [p]) done s := by
  refine ⟨fun id hid => ?_, h.signature⟩
  obtain ⟨f, hf, htype, contains⟩ := h.function id hid
  obtain ⟨block, local', label⟩ := plain (by rw [hid]; nofun)
  exact ⟨f, hf, htype, contains.skip block local' label⟩

end Body

/-! ## Variables -/

namespace Body

theorem run_buildLocal (h : Body src e scope type parts done s) {block : Option Nat}
    {name : String} {stored : Option SymbolId} {register : Option UInt16} {deref : Bool}
    {offset : Int64} {location : Location} (is : (⟨c, around⟩ : Part).isLocal src = true)
    (named : Named src "parameter" c name) (refers : Refers src s e c stored)
    (indexed : scope.function ≠ none → Indexed parts around block)
    (hlocation : c.location? src.view .location = some location)
    (place : ((register.map Register.toCodeView).getD Register.none, deref, offset) =
      placeOf scope.frame location)
    (eq : (buildLocal scope block c name stored register deref offset).run s = ((), s')) :
    Grows src ⟨none, scope.own, []⟩ s s' ∧
      Body src e scope type (parts ++ [⟨c, around⟩]) done s' := by
  unfold buildLocal at eq
  rw [of_run_change eq]
  cases hf : scope.function with
  | none => exact (h.skip fun some => absurd hf some).grow (.of_same rfl rfl rfl)
  | some id =>
    exact h.updateFunction hf
      (f := fun f => { f with
        locals := f.locals.push ⟨name, if isParameter c then .parameter else .variable,
          (register.map Register.toCodeView).getD Register.none, deref, offset, block, stored⟩ })
      (fun _ => rfl) fun g contains => contains.addLocal is
        ⟨named, rfl, ⟨location, hlocation, place⟩, indexed (by rw [hf]; nofun), refers⟩

theorem run_buildGlobal (h : Body src e scope type parts done s) {name : String}
    {stored : Option SymbolId} {offset : Int64}
    (eq : (buildGlobal src c name stored offset).run s = ((), s')) :
    Grows src ⟨none, scope.own, []⟩ s s' ∧ Body src e scope type parts done s' := by
  obtain ⟨_, _, ⟨⟩, eq⟩ := run_bind_eq.1 eq
  obtain ⟨id, s₁, hpush, eq⟩ := run_bind_eq.1 eq
  cases eq
  obtain ⟨-, rfl⟩ := of_run_push hpush
  exact h.grow (.push (.inl (by nofun)) (.inr ⟨rfl, nofun⟩))

theorem run_buildLocated (h : Body src e scope type parts done s) {block : Option Nat}
    {name : String} {stored : Option SymbolId}
    (counts : (⟨c, around⟩ : Part).isVariable = true)
    (named : Named src "parameter" c name) (refers : Refers src s e c stored)
    (indexed : scope.function ≠ none → Indexed parts around block)
    (eq : (buildLocated src scope block c name stored).run s = ((), s')) :
    Grows src ⟨none, scope.own, []⟩ s s' ∧
      Body src e scope type (parts ++ [⟨c, around⟩]) done s' := by
  have plain : (⟨c, around⟩ : Part).isLocal src = false →
      Body src e scope type (parts ++ [⟨c, around⟩]) done s := by
    intro not
    have tag := Part.tag_of_isVariable counts
    refine h.skip fun _ => ⟨Part.not_isBlock ?_, not, Part.not_isLabel ?_⟩
    · rcases tag with tag | tag <;> rw [tag] <;> decide
    · rcases tag with tag | tag <;> rw [tag] <;> decide
  unfold buildLocated at eq
  split at eq <;> rename_i hlocation
  · cases eq
    exact ⟨.refl s, plain (by simp [Part.isLocal, hlocation])⟩
  · exact (plain (by simp [Part.isLocal, hlocation])).run_buildGlobal eq
  · exact h.run_buildLocal (by simp [Part.isLocal, counts, hlocation]) named refers indexed
      hlocation rfl eq
  · exact h.run_buildLocal (by simp [Part.isLocal, counts, hlocation]) named refers indexed
      hlocation rfl eq

theorem run_countParameter (h : Body src e scope type parts done s) {stored : Option SymbolId}
    (refers : Refers src s e c stored) (eq : (countParameter scope c stored).run s = ((), s')) :
    Grows src ⟨none, scope.own, []⟩ s s' ∧
      Body src e scope type parts (if isParameter c then done ++ [c] else done) s' := by
  unfold countParameter at eq
  by_cases parameter : isParameter c
  · rw [if_pos parameter] at eq ⊢
    split at eq
    · rename_i id hid
      rw [of_run_change eq]
      exact h.addParameter hid refers
    · rename_i hid
      cases eq
      refine ⟨.refl s, h.function, fun id hid' => ?_⟩
      rw [hid] at hid'
      cases hid'
  · rw [if_neg parameter] at eq ⊢
    cases eq
    exact ⟨.refl s, h⟩

theorem run_buildVariable (h : Body src e scope type parts done s)
    (work : AtWork src budget e s) (answers : Answers src budget resolve) (hc : c ∈ e.preorder)
    (unnamed : slot s e.offset = .pending none → NeverNamed src e) {block : Option Nat}
    (counts : (⟨c, around⟩ : Part).isVariable = true)
    (indexed : scope.function ≠ none → Indexed parts around block)
    (eq : (buildVariable src resolve scope block c).run s = ((), s')) :
    Grows src ⟨none, scope.own, []⟩ s s' ∧
      Body src e scope type (parts ++ [⟨c, around⟩])
        (if isParameter c then done ++ [c] else done) s' := by
  obtain ⟨stored, s₁, htype, eq⟩ := run_bind_eq.1 eq
  obtain ⟨name, s₂, hname, eq⟩ := run_bind_eq.1 eq
  obtain ⟨_, s₃, hlocated, eq⟩ := run_bind_eq.1 eq
  obtain ⟨asked, refers⟩ := work.typeOf answers hc
    (fun pending target _ => .inl (unnamed pending)) htype
  have supplied : Grows src {} s₁ s₂ := .nameOf hname
  have refers := refers.later supplied.later
  obtain ⟨grows, body⟩ := h.grow (asked.trans supplied)
  obtain ⟨located, body⟩ := body.run_buildLocated counts (named_of_run_nameOf hname) refers
    indexed hlocated
  obtain ⟨counted, body⟩ := body.run_countParameter (refers.later located.later) eq
  exact ⟨(grows.trans located).trans counted, body⟩

theorem run_buildLabel (h : Body src e scope type parts done s)
    (is : (⟨c, around⟩ : Part).isLabel = true)
    (eq : (buildLabel src scope c).run s = ((), s')) :
    Grows src ⟨none, scope.own, []⟩ s s' ∧
      Body src e scope type (parts ++ [⟨c, around⟩]) done s' := by
  obtain ⟨name, s₁, hname, eq⟩ := run_bind_eq.1 eq
  obtain ⟨grows, body⟩ := h.grow (.nameOf hname)
  split at eq
  · rename_i id hid
    rw [of_run_change eq]
    obtain ⟨added, body⟩ := body.updateFunction hid
      (f := fun f => { f with labels := f.labels.push ⟨name, _⟩ }) (fun _ => rfl)
      fun g contains => contains.addLabel is ⟨named_of_run_nameOf hname, rfl⟩
    exact ⟨grows.trans added, body⟩
  · rename_i hid
    cases eq
    exact ⟨grows, body.skip fun some => absurd hid some⟩

/-- The block that is opened is the innermost one for all that lies in it. -/
theorem run_openBlock (h : Body src e scope type parts done s) {parent block : Option Nat}
    (is : (⟨c, around⟩ : Part).isBlock = true)
    (indexed : scope.function ≠ none → Indexed parts around parent)
    (eq : (openBlock src scope parent c).run s = (block, s')) :
    Grows src ⟨none, scope.own, []⟩ s s' ∧
      Body src e scope type (parts ++ [⟨c, around⟩]) done s' ∧
      (scope.function ≠ none → Indexed (parts ++ [⟨c, around⟩]) (c :: around) block) := by
  unfold openBlock at eq
  split at eq
  rename_i address length hextent
  split at eq
  · rename_i id hid
    obtain ⟨f, hf, -, contains⟩ := h.function id hid
    have present : s.symbols.function? id = some f := by
      rw [Symbol.Table.function?, hf]
    rw [run_onTable, Symbol.Table.openBlock, present] at eq
    dsimp only at eq
    cases eq
    obtain ⟨grows, body⟩ := h.updateFunction hid
      (f := fun f => { f with blocks := f.blocks.push ⟨address, length, parent⟩ }) (fun _ => rfl)
      fun g contains => contains.addBlock is ⟨hextent.symm, indexed (by rw [hid]; nofun)⟩
    refine ⟨grows, body, fun _ => ?_⟩
    rw [← Array.length_toList, ← contains.blocks.length_eq]
    exact .opened is
  · rename_i hid
    cases eq
    exact ⟨.refl s, h.skip fun some => absurd hid some, fun some => absurd hid some⟩

/-! ## Parts -/

/-- What is built of a part is told by its tag. -/
theorem buildPart_eq {block : Option Nat} (inBlock : Bool) (c : Entry) :
    buildPart src resolve scope inBlock block c = match c.tag with
      | .var => buildVariable src resolve scope block c
      | .formalParameter => if inBlock then pure () else buildVariable src resolve scope block c
      | .label => if inBlock then pure () else buildLabel src scope c
      | .lexicalBlock => do
        let inner ← openBlock src scope block c
        buildParts src resolve scope true inner c.children
      | .inlinedSubroutine =>
        buildParts src resolve { scope with signature := none } false block c.children
      | _ => pure () := by
  cases c
  rw [buildPart]
  rfl

/-- The entries that count as parameters.  In a block there are none. -/
def parametersOf (inBlock : Bool) (es : List Entry) : List Entry :=
  if inBlock then [] else es.filter isParameter

theorem parametersOf_cons (inBlock : Bool) (c : Entry) (rest : List Entry) :
    parametersOf inBlock (c :: rest) = parametersOf inBlock [c] ++ parametersOf inBlock rest := by
  cases inBlock with
  | true => rfl
  | false =>
    change (c :: rest).filter isParameter = [c].filter isParameter ++ rest.filter isParameter
    rw [← List.filter_append]
    rfl

theorem parametersOf_of_tag {inBlock : Bool} {c : Entry} (tag : c.tag ≠ .formalParameter) :
    parametersOf inBlock [c] = [] := by
  cases inBlock with
  | true => rfl
  | false => exact List.filter_cons_of_neg (by rw [isParameter, decide_eq_true_iff]; exact tag)

/-- The signature is left out of the scope of inlined functions, which leaves it alone. -/
theorem of_withoutSignature (h : Body src e scope type parts done s) {parts' : List Part}
    {more : List Entry}
    (grows : Grows src ⟨none, ({ scope with signature := none } : Scope).own, []⟩ s s')
    (body : Body src e { scope with signature := none } type parts' more s') :
    Grows src ⟨none, scope.own, []⟩ s s' ∧ Body src e scope type parts' done s' := by
  have smaller : ∀ id ∈ ({ scope with signature := none } : Scope).own, id ∈ scope.own := by
    intro id hid
    rcases List.mem_append.1 hid with hid | hid
    · exact List.mem_append_left _ hid
    · cases hid
  refine ⟨grows.widen (fun _ h => h) smaller (fun _ h => h)
    fun id hid => .inr (.inl (h.inside id hid)), body.function, fun id hid => ?_⟩
  obtain ⟨g, hg, returns, parameters⟩ := h.signature id hid
  have apart : id ∉ ({ scope with signature := none } : Scope).own := by
    intro hin
    rcases List.mem_append.1 hin with hin | hin
    · exact h.signature_ne_function hid (Option.mem_toList.1 hin)
    · cases hin
  exact ⟨g, (grows.kept id (Symbol.Table.lt_size_of_get? hg) apart).trans hg,
    returns.later grows.later, parameters.imp fun _ _ h => h.later grows.later⟩

/-- Without a function there is nothing to be said of it. -/
theorem empty (type : SymbolId) (frame : Frame) : Body src e { frame } type [] [] s :=
  ⟨nofun, nofun⟩

theorem withoutSignature (h : Body src e scope type parts done s) :
    Body src e { scope with signature := none } type parts done s :=
  ⟨h.function, fun _ hid => nomatch hid⟩

/-! What lies in a part that is not open is not followed any further. -/

section Closed

variable {block : Option Nat}

theorem run_variable (h : Body src e scope type parts done s) (work : AtWork src budget e s)
    (answers : Answers src budget resolve) (hc : c ∈ e.preorder)
    (unnamed : slot s e.offset = .pending none → NeverNamed src e)
    (indexed : scope.function ≠ none → Indexed parts around block) (tag : c.tag = .var)
    (eq : (buildVariable src resolve scope block c).run s = ((), s')) :
    Grows src ⟨none, scope.own, []⟩ s s' ∧
      Body src e scope type (parts ++ reach around c) (done ++ parametersOf (inBlock around) [c])
        s' := by
  have counts : (⟨c, around⟩ : Part).isVariable = true := decide_eq_true (.inl tag)
  have built := h.run_buildVariable work answers hc unnamed counts indexed eq
  rw [if_neg (by rw [isParameter, tag]; decide)] at built
  rw [reach_of_closed (by rw [isOpen, tag]; rfl), parametersOf_of_tag (by rw [tag]; decide),
    List.append_nil]
  exact built

theorem run_parameter (h : Body src e scope type parts done s) (work : AtWork src budget e s)
    (answers : Answers src budget resolve) (hc : c ∈ e.preorder)
    (unnamed : slot s e.offset = .pending none → NeverNamed src e)
    (indexed : scope.function ≠ none → Indexed parts around block)
    (tag : c.tag = .formalParameter)
    (eq : (if inBlock around then pure () else buildVariable src resolve scope block c).run s =
      ((), s')) :
    Grows src ⟨none, scope.own, []⟩ s s' ∧
      Body src e scope type (parts ++ reach around c) (done ++ parametersOf (inBlock around) [c])
        s' := by
  rw [reach_of_closed (by rw [isOpen, tag]; rfl)]
  cases direct : inBlock around with
  | true =>
    rw [direct, if_pos rfl] at eq
    cases eq
    rw [parametersOf, if_pos rfl, List.append_nil]
    exact ⟨.refl s, h.skip fun _ => ⟨Part.not_isBlock (by rw [tag]; decide),
      Part.not_isLocal_of_inBlock tag direct, Part.not_isLabel_of_inBlock direct⟩⟩
  | false =>
    rw [direct, if_neg Bool.false_ne_true] at eq
    have parameter : isParameter c = true := decide_eq_true tag
    have counts : (⟨c, around⟩ : Part).isVariable = true := decide_eq_true (.inr ⟨tag, direct⟩)
    have built := h.run_buildVariable work answers hc unnamed counts indexed eq
    rw [if_pos parameter] at built
    rw [parametersOf, if_neg Bool.false_ne_true, List.filter_cons_of_pos parameter]
    exact built

theorem run_label (h : Body src e scope type parts done s) (tag : c.tag = .label)
    (eq : (if inBlock around then pure () else buildLabel src scope c).run s = ((), s')) :
    Grows src ⟨none, scope.own, []⟩ s s' ∧
      Body src e scope type (parts ++ reach around c) (done ++ parametersOf (inBlock around) [c])
        s' := by
  rw [reach_of_closed (by rw [isOpen, tag]; rfl), parametersOf_of_tag (by rw [tag]; decide),
    List.append_nil]
  cases direct : inBlock around with
  | true =>
    rw [direct, if_pos rfl] at eq
    cases eq
    exact ⟨.refl s, h.skip fun _ => ⟨Part.not_isBlock (by rw [tag]; decide),
      Part.not_isLocal (by rw [tag]; decide) (by rw [tag]; decide),
      Part.not_isLabel_of_inBlock direct⟩⟩
  | false =>
    rw [direct, if_neg Bool.false_ne_true] at eq
    exact h.run_buildLabel (decide_eq_true ⟨tag, direct⟩) eq

end Closed

mutual

/-- Whatever lies in a scope changes no other symbols than those of the scope, adds to the
function what it is made into, and to the signature the parameters that count. -/
theorem run_buildPart {scope : Scope} {parts : List Part} {done : List Entry} {s s' : State}
    {block : Option Nat} (around : List Entry) (answers : Answers src budget resolve) :
    (c : Entry) → Body src e scope type parts done s → AtWork src budget e s →
      (slot s e.offset = .pending none → NeverNamed src e) →
      (∀ d ∈ c.preorder, d ∈ e.preorder) →
      (scope.function ≠ none → Indexed parts around block) →
      (buildPart src resolve scope (inBlock around) block c).run s = ((), s') →
        Grows src ⟨none, scope.own, []⟩ s s' ∧
          Body src e scope type (parts ++ reach around c)
            (done ++ parametersOf (inBlock around) [c]) s'
  | ⟨offset, abbreviation, attributeOffsets, children⟩, h, work, unnamed, hc, indexed, eq => by
    generalize hwhole : (⟨offset, abbreviation, attributeOffsets, children⟩ : Entry) = whole at *
    have children_eq : whole.children = children := by rw [← hwhole]
    have under : ∀ d ∈ Entry.preorderAll children, d ∈ e.preorder := fun d hd =>
      hc d (Entry.mem_preorder_of_under (children_eq ▸ hd))
    have here : whole ∈ e.preorder := hc whole whole.mem_preorder
    rw [buildPart_eq] at eq
    split at eq
    · rename_i tag
      exact h.run_variable work answers here unnamed indexed tag eq
    · rename_i tag
      exact h.run_parameter work answers here unnamed indexed tag eq
    · rename_i tag
      exact h.run_label tag eq
    · rename_i tag
      rw [children_eq] at eq
      rw [reach_eq, if_pos (by rw [isOpen, tag]; rfl), parametersOf_of_tag (by rw [tag]; decide),
        List.append_nil, children_eq]
      obtain ⟨inner, s₁, opened, eq⟩ := run_bind_eq.1 eq
      have is : (⟨whole, around⟩ : Part).isBlock = true := decide_eq_true tag
      obtain ⟨grows, body, indexed⟩ := h.run_openBlock is indexed opened
      have direct : inBlock (whole :: around) = true := decide_eq_true tag
      rw [← direct] at eq
      obtain ⟨grows', body⟩ := run_buildParts (whole :: around) answers children body
        (work.grow grows) (fun pending => unnamed (grows.pending_of_pending pending)) under
        indexed eq
      rw [direct, parametersOf, if_pos rfl, List.append_nil, List.append_assoc] at body
      exact ⟨grows.trans grows', body⟩
    · rename_i tag
      rw [children_eq] at eq
      rw [reach_eq, if_pos (by rw [isOpen, tag]; rfl), parametersOf_of_tag (by rw [tag]; decide),
        List.append_nil, children_eq]
      have direct : inBlock (whole :: around) = false :=
        decide_eq_false (by rw [tag]; decide)
      rw [← direct] at eq
      have entered := h.skip (p := ⟨whole, around⟩) fun _ =>
        ⟨Part.not_isBlock (by rw [tag]; decide),
          Part.not_isLocal (by rw [tag]; decide) (by rw [tag]; decide),
          Part.not_isLabel (by rw [tag]; decide)⟩
      obtain ⟨grows, body⟩ := run_buildParts (whole :: around) answers children
        entered.withoutSignature work unnamed under
        (fun some => (Indexed.through (by rw [tag]; decide)).2 ((indexed some).append _)) eq
      obtain ⟨grows, body⟩ := entered.of_withoutSignature grows body
      rw [List.append_assoc] at body
      exact ⟨grows, body⟩
    · rename_i var parameter label block inlined
      cases eq
      rw [reach_of_closed (decide_eq_false (not_or.2 ⟨block, inlined⟩)),
        parametersOf_of_tag parameter, List.append_nil]
      exact ⟨.refl s, h.skip fun _ => ⟨Part.not_isBlock block, Part.not_isLocal var parameter,
        Part.not_isLabel label⟩⟩

theorem run_buildParts {scope : Scope} {parts : List Part} {done : List Entry} {s s' : State}
    {block : Option Nat} (around : List Entry) (answers : Answers src budget resolve) :
    (es : List Entry) → Body src e scope type parts done s → AtWork src budget e s →
      (slot s e.offset = .pending none → NeverNamed src e) →
      (∀ d ∈ Entry.preorderAll es, d ∈ e.preorder) →
      (scope.function ≠ none → Indexed parts around block) →
      (buildParts src resolve scope (inBlock around) block es).run s = ((), s') →
        Grows src ⟨none, scope.own, []⟩ s s' ∧
          Body src e scope type (parts ++ reachAll around es)
            (done ++ parametersOf (inBlock around) es) s'
  | [], h, _, _, _, _, eq => by
    cases eq
    have none : parametersOf (inBlock around) [] = [] := by cases inBlock around <;> rfl
    rw [none, reachAll, List.append_nil, List.append_nil]
    exact ⟨.refl s, h⟩
  | c :: rest, h, work, unnamed, hes, indexed, eq => by
    unfold buildParts at eq
    obtain ⟨⟨⟩, s₁, first, eq⟩ := run_bind_eq.1 eq
    obtain ⟨grows, body⟩ := run_buildPart around answers c h work unnamed
      (fun d hd => hes d (List.mem_append_left _ hd)) indexed first
    obtain ⟨grows', body⟩ := run_buildParts around answers rest body (work.grow grows)
      (fun pending => unnamed (grows.pending_of_pending pending))
      (fun d hd => hes d (List.mem_append_right _ hd)) (fun some => (indexed some).append _) eq
    rw [parametersOf_cons, reachAll, ← List.append_assoc, ← List.append_assoc]
    exact ⟨grows.trans grows', body⟩

end

/-- The labels are sorted when the function has all of them, and nothing else changes. -/
theorem run_normalize (h : Body src e scope type parts done s) {id : SymbolId}
    (hid : scope.function = some id) (hsignature : scope.signature = some type)
    (eq : (change (·.normalize id)).run s = ((), s')) :
    Grows src ⟨none, scope.own, []⟩ s s' ∧
      (∃ f, s'.symbols.get? id = some (.function f) ∧ f.signature = type ∧
        Mirrors src (Refers src s' e) scope.frame parts f) ∧
      ∃ g, s'.symbols.get? type = some (.signature g) ∧ Refers src s' e e g.returnType ∧
        List.Forall₂ (Refers src s' e) done g.parameters.toList := by
  obtain ⟨f, hf, htype, contains⟩ := h.function id hid
  obtain ⟨g, hg, returns, parameters⟩ := h.signature type hsignature
  have ne : type ≠ id := fun same => h.signature_ne_function hsignature (same ▸ hid)
  have touches := Symbol.Table.Touches.updateFunction
    (fun f => { f with labels := Symbol.Table.sortLabels f.labels, normalized := true })
    s.symbols id
  have grows : Grows src ⟨none, scope.own, []⟩ s s' := by
    rw [of_run_change eq]
    exact .touch (Scope.own_of_function hid) touches
  refine ⟨grows, ⟨{ f with labels := Symbol.Table.sortLabels f.labels, normalized := true }, ?_,
    htype, contains.normalize.imp fun _ _ h => h.later grows.later⟩, g, ?_,
    returns.later grows.later, parameters.imp fun _ _ h => h.later grows.later⟩
  · rw [of_run_change eq]
    exact Symbol.Table.get?_updateFunction hf fun f =>
      { f with labels := Symbol.Table.sortLabels f.labels, normalized := true }
  · rw [of_run_change eq]
    exact (touches.get?_eq type ne).trans hg

end Body

/-! ## Entries -/

namespace AtWork

/-- What has no symbol of its own. -/
theorem built_none (h : AtWork src budget e s) (pending : slot s e.offset = .pending none)
    (grows : Grows src {} s s')
    (describes : Describes src (Refers src s' e) (New [] s s') s' e none) :
    Built src e s s' none where
  grows := ⟨[], grows.within (by simp), by simp, by simp, by simp, by simp⟩
  told v hv := by
    rw [grows.slot_eq h.asked, pending] at hv
    cases hv
  describes := describes

theorem built_variable (h : AtWork src budget e s) (pending : slot s e.offset = .pending none)
    (answers : Answers src budget resolve) (tag : e.tag = .var)
    (eq : (buildVariable src resolve {} none e).run s = ((), s')) : Built src e s s' none := by
  have body : Body src e {} ⟨0⟩ [] [] s := .empty ⟨0⟩ {}
  have counts : (⟨e, []⟩ : Part).isVariable = true := decide_eq_true (.inl tag)
  obtain ⟨grows, -⟩ := body.run_buildVariable h answers e.mem_preorder (fun _ => .inl tag)
    counts (fun some => absurd rfl some) eq
  refine h.built_none pending grows ?_
  rw [Describes, tag]
  exact rfl

theorem run_buildDeclaration (h : AtWork src budget e s) (answers : Answers src budget resolve)
    (unnamed : NeverNamed src e) {returnType : Option SymbolId}
    (eq : (buildDeclaration src resolve e returnType).run s = ((), s')) : Grows src {} s s' := by
  obtain ⟨_, s₁, hsignature, eq⟩ := run_bind_eq.1 eq
  obtain ⟨-, rfl⟩ := of_run_push hsignature
  have pushed : Grows src {} s _ :=
    .push (x := .signature { returnType }) (.inl nofun) (.inr (.signature returnType))
  obtain ⟨grows, -⟩ := Body.run_buildParts [] answers e.children
    (.empty ⟨0⟩ (frameOf src e)) (h.grow pushed) (fun _ => unnamed)
    (fun _ => Entry.mem_preorder_of_under) (fun some => absurd rfl some) eq
  exact pushed.trans grows

/-- The signature and the function are there, without parts, and the function is exposed. -/
theorem opened (h : AtWork src budget e s) (pending : slot s e.offset = .pending none)
    {returnType : Option SymbolId} (returns : Refers src s e e returnType)
    {signature id : SymbolId} {f : Symbol.Function} {s₁ s₂ : State} (frame : Frame)
    (hsignature : (push (.signature { returnType })).run s = (signature, s₁))
    (hfunction : (push (.function f)).run s₁ = (id, s₂)) (hf : f.signature = signature)
    (bare : ∀ R, Contains src R frame [] f) :
    Grows src ⟨e.offset, [id, signature], []⟩ s (s₂.mark e.offset (.pending (some id))) ∧
      (∀ i ∈ [id, signature], s.symbols.size ≤ i.index) ∧
      Body src e ⟨some id, some signature, frame⟩ signature [] []
        (s₂.mark e.offset (.pending (some id))) := by
  obtain ⟨hsig, hs₁⟩ := of_run_push hsignature
  obtain ⟨hid, hs₂⟩ := of_run_push hfunction
  have get₁ : s₁.symbols.get? signature = some (.signature { returnType }) := by
    rw [hs₁, hsig]
    exact Symbol.Table.get?_push_self _ _
  have get₂ : s₂.symbols.get? id = some (.function f) := by
    rw [hs₂, hid]
    exact Symbol.Table.get?_push_self _ _
  have pushed : ∀ w, Grows src w s s₁ := fun w => by
    rw [hs₁]
    exact .push (.inl nofun) (.inr (.signature returnType))
  have pushed' : ∀ w, Grows src w s₁ s₂ := fun w => by
    rw [hs₂]
    exact .push (.inl nofun) (.inr ⟨rfl, nofun⟩)
  have before := (pushed {}).trans (pushed' {})
  have pending₂ : slot s₂ e.offset = .pending none := by rw [before.slot_eq h.asked, pending]
  have exposed : Grows src ⟨e.offset, [id, signature], []⟩ s₂
      (s₂.mark e.offset (.pending (some id))) := .expose rfl pending₂ id
  refine ⟨((pushed _).trans (pushed' _)).trans exposed, fun i hi => ?_, fun i hi => ?_,
    fun i hi => ?_⟩
  · rcases List.mem_cons.1 hi with rfl | hi
    · rw [hid]
      exact (pushed {}).size_le
    · rw [List.mem_singleton.1 hi]
      exact Nat.le_of_eq (by rw [hsig])
  · cases hi
    exact ⟨f, get₂, hf, bare _⟩
  · cases hi
    exact ⟨_, (pushed' {}).get?_eq get₁, returns.later (before.later.trans exposed.later), .nil⟩

/-- The function is exposed when its signature is there, and its return type has been asked
for. -/
theorem run_buildFunction (h : AtWork src budget e s) (pending : slot s e.offset = .pending none)
    (answers : Answers src budget resolve) {name : String} {returnType : Option SymbolId}
    (returns : Refers src s e e returnType) {id : SymbolId}
    (eq : (buildFunction src resolve e name returnType).run s = (id, s')) :
    ∃ f g, Exposed src e [id, f.signature] s s' id (.function f) ∧
      s'.symbols.get? f.signature = some (.signature g) ∧
      DescribesSignature (Refers src s' e) e g ∧
      Mirrors src (Refers src s' e) (frameOf src e) (partsOf e) f := by
  unfold buildFunction at eq
  split at eq
  rename_i address length _
  obtain ⟨signature, s₁, hsignature, eq⟩ := run_bind_eq.1 eq
  obtain ⟨_, _, ⟨⟩, eq⟩ := run_bind_eq.1 eq
  obtain ⟨function, s₂, hfunction, eq⟩ := run_bind_eq.1 eq
  obtain ⟨_, _, ⟨⟩, eq⟩ := run_bind_eq.1 eq
  obtain ⟨_, s₃, hparts, eq⟩ := run_bind_eq.1 eq
  obtain ⟨_, s₄, hnormalize, eq⟩ := run_bind_eq.1 eq
  cases eq
  obtain ⟨grows, behind, body⟩ := h.opened pending returns (frameOf src e) hsignature hfunction rfl
    fun R => .nil src R _ _ rfl rfl rfl
  have slot₂ : slot (s₂.mark e.offset (.pending (some id))) e.offset = .pending (some id) :=
    slot_mark_self _ _ _
  obtain ⟨parts, body⟩ := body.run_buildParts [] answers e.children (h.grow grows)
    (fun pending => by rw [slot₂] at pending; cases pending)
    (fun _ => Entry.mem_preorder_of_under) (fun _ => rfl) hparts
  obtain ⟨normalized, ⟨f, hf, rfl, mirrors⟩, g, hg, returns, parameters⟩ :=
    body.run_normalize rfl rfl hnormalize
  have inner := parts.trans normalized
  refine ⟨f, g, ⟨?_, List.mem_cons_self, behind, ?_, hf⟩, hg, ⟨returns, parameters⟩, mirrors⟩
  · exact grows.trans
      (inner.widen (fun _ h => nomatch h) (fun _ h => h) (fun _ h => h) fun _ h => .inl h)
  · rw [inner.slot_eq (by rw [slot₂]; nofun), slot₂]

/-- Nothing but a declaration and a function inside a thunk is answered with nothing. -/
theorem run_buildSubprogram (h : AtWork src budget e s)
    (pending : slot s e.offset = .pending none) (answers : Answers src budget resolve)
    (tag : e.tag = .subprogram) {r : Option SymbolId}
    (eq : (buildSubprogram src resolve e).run s = (r, s')) :
    NotBuilt src e ∧ r = none ∧ Grows src {} s s' ∨
      ¬NotBuilt src e ∧ ∃ id f g, r = some id ∧
        Exposed src e [id, f.signature] s s' id (.function f) ∧
        s'.symbols.get? f.signature = some (.signature g) ∧
        DescribesSignature (Refers src s' e) e g ∧
        Mirrors src (Refers src s' e) (frameOf src e) (partsOf e) f := by
  unfold buildSubprogram at eq
  split at eq
  · rename_i thunk
    cases eq
    exact .inl ⟨.inl thunk, rfl, .refl s⟩
  rename_i thunk
  obtain ⟨name, s₁, hname, eq⟩ := run_bind_eq.1 eq
  obtain ⟨returnType, s₂, htype, eq⟩ := run_bind_eq.1 eq
  have named : Grows src {} s s₁ := .nameOf hname
  have late : ExposesLate e.tag := .inr (.inr (.inr tag))
  obtain ⟨asked, returns⟩ := (h.grow named).typeOf answers e.mem_preorder
    (fun _ target htarget => .of_type late htarget) htype
  have before := named.trans asked
  split at eq
  · rename_i declaration
    obtain ⟨_, s₃, hdeclaration, eq⟩ := run_bind_eq.1 eq
    cases eq
    exact .inl ⟨.inr declaration, rfl, before.trans
      ((h.grow before).run_buildDeclaration answers (.inr ⟨tag, declaration⟩) hdeclaration)⟩
  · rename_i declaration
    obtain ⟨id, hfunction, rfl⟩ := run_map_eq.1 eq
    have pending₂ : slot s₂ e.offset = .pending none := by rw [before.slot_eq h.asked, pending]
    obtain ⟨f, g, exposed, hg, describes, mirrors⟩ :=
      (h.grow before).run_buildFunction pending₂ answers returns hfunction
    exact .inr ⟨not_or.2 ⟨thunk, declaration⟩, id, f, g, rfl, exposed.after before, hg, describes,
      mirrors⟩

theorem built_subprogram (h : AtWork src budget e s) (pending : slot s e.offset = .pending none)
    (answers : Answers src budget resolve) (tag : e.tag = .subprogram) {r : Option SymbolId}
    (eq : (buildSubprogram src resolve e).run s = (r, s')) : Built src e s s' r := by
  rcases h.run_buildSubprogram pending answers tag eq with ⟨not, rfl, grows⟩ |
    ⟨built, id, f, g, rfl, exposed, hg, describes, -⟩
  · refine h.built_none pending grows ?_
    rw [Describes, tag]
    exact ⟨fun _ => rfl, fun built => absurd not built⟩
  · refine exposed.built (by rw [tag]; rfl) (fun _ h => Symbol.noConfusion h) ?_ ?_
    · intro i hi ne y hy
      rcases List.mem_cons.1 hi with hi | hi
      · exact absurd hi ne
      · rw [List.mem_singleton.1 hi] at hy ⊢
        cases hg.symm.trans hy
        exact ⟨rfl, .inr ⟨tag, f, exposed.stands, rfl⟩⟩
    · rw [Describes, tag]
      refine ⟨fun not => absurd not built, fun _ => ⟨f, g, exposed.stands, ?_, hg, describes⟩⟩
      exact ⟨exposed.behind _ (by simp), Symbol.Table.lt_size_of_get? hg, List.not_mem_nil⟩

end AtWork

end Build
end Dwarf2
