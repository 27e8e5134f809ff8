/-
What belongs to a function.

The entries under a function are those that are reached through blocks and inlined functions,
which are part of it.  `reachAll` lists them in preorder with what lies around each.  `Contains`
says that a function has a block, a local and a label for each of the entries that are to become
one, in the same order and in the right block.
-/
import Dwarf2.Build.Function
import Dwarf2.Proofs.Build.Description
import Dwarf2.Proofs.Symbol.Sort

namespace Dwarf2
namespace Build

/-- An entry that belongs to a function, with the blocks and inlined functions around it, the
innermost first. -/
structure Part where
  entry : Entry
  around : List Entry

/-- What lies in the entry belongs to the function that the entry belongs to. -/
def isOpen (e : Entry) : Bool :=
  e.tag = .lexicalBlock ∨ e.tag = .inlinedSubroutine

mutual

def reach (around : List Entry) : Entry → List Part
  | ⟨offset, abbreviation, attributeOffsets, children⟩ =>
    let e : Entry := ⟨offset, abbreviation, attributeOffsets, children⟩
    ⟨e, around⟩ :: if isOpen e then reachAll (e :: around) children else []

def reachAll (around : List Entry) : List Entry → List Part
  | [] => []
  | e :: rest => reach around e ++ reachAll around rest

end

/-- All that belongs to a function, in preorder. -/
def partsOf (e : Entry) : List Part :=
  reachAll [] e.children

theorem reach_eq (around : List Entry) (e : Entry) :
    reach around e = ⟨e, around⟩ :: if isOpen e then reachAll (e :: around) e.children else [] := by
  cases e
  rfl

theorem reach_of_closed {around : List Entry} {e : Entry} (closed : isOpen e = false) :
    reach around e = [⟨e, around⟩] := by
  rw [reach_eq, closed]
  rfl

/-- The part is reached from the entry on a path that passes only blocks and inlined functions. -/
inductive Reached (e : Entry) : Part → Prop
  | child {c : Entry} (h : c ∈ e.children) : Reached e ⟨c, []⟩
  | inner {p : Part} {c : Entry} (outer : Reached e p) (passes : isOpen p.entry = true)
      (h : c ∈ p.entry.children) : Reached e ⟨c, p.entry :: p.around⟩

/-- The parts are all that are reached, in preorder. -/
structure InPreorder (e : Entry) (parts : List Part) : Prop where
  mem_iff : ∀ p, p ∈ parts ↔ Reached e p
  sublist : (parts.map Part.entry).Sublist (Entry.preorderAll e.children)

def inBlock (around : List Entry) : Bool :=
  around.head?.any (·.tag = .lexicalBlock)

/-- The innermost block around what lies there. -/
def enclosing? : List Entry → Option Part
  | [] => none
  | e :: around => if e.tag = .lexicalBlock then some ⟨e, around⟩ else enclosing? around

namespace Part

def isBlock (p : Part) : Bool :=
  p.entry.tag = .lexicalBlock

/-- Labels are not looked for directly in a block. -/
def isLabel (p : Part) : Bool :=
  p.entry.tag = .label ∧ inBlock p.around = false

/-- Directly in a block, parameters are those of exception handlers. -/
def isVariable (p : Part) : Bool :=
  p.entry.tag = .var ∨ p.entry.tag = .formalParameter ∧ inBlock p.around = false

/-- A variable or parameter that lives in a register or in the frame. -/
def isLocal (src : Source) (p : Part) : Bool :=
  p.isVariable ∧ (p.entry.location? src.view .location).any (·.storage ≠ .direct)

end Part

/-- The index is that of the innermost block, if there is one. -/
def Indexed (parts : List Part) (around : List Entry) (index : Option Nat) : Prop :=
  match enclosing? around with
  | none => index = none
  | some block => ∃ i, index = some i ∧ (parts.filter Part.isBlock)[i]? = some block

/-- The register that a local is counted from, whether its value is looked up there, and its
offset.  The frame base may not be known, and then no register is. -/
def placeOf (frame : Frame) : Location → UInt16 × Bool × Int64
  | ⟨.register register, deref, offset⟩ => (Register.toCodeView register, deref, offset)
  | ⟨_, _, offset⟩ =>
    ((frame.register.map Register.toCodeView).getD Register.none, true, offset + frame.offset)

structure BlockOf (src : Source) (parts : List Part) (p : Part) (b : Symbol.Block) : Prop where
  extent_eq : (b.address, b.length) = extent src p.entry
  parent : Indexed parts p.around b.parent

/- What is stored for the types of entries is told by a relation `R`. -/
variable {R R' : Entry → Option SymbolId → Prop}

structure LocalOf (src : Source) (R : Entry → Option SymbolId → Prop) (frame : Frame)
    (parts : List Part) (p : Part) (l : Symbol.Local) : Prop where
  named : Named src "parameter" p.entry l.name
  kind_eq : l.kind = if isParameter p.entry then .parameter else .variable
  placed : ∃ location, p.entry.location? src.view .location = some location ∧
    (l.register, l.deref, l.offset) = placeOf frame location
  block : Indexed parts p.around l.block
  type : R p.entry l.type

structure LabelOf (src : Source) (p : Part) (l : Symbol.Label) : Prop where
  named : Named src "label" p.entry l.name
  address_eq : l.address = src.image.address ((p.entry.unsigned? src.view .lowPc).getD 0)

/-- The function has what is to be made of the parts, and nothing else. -/
structure Contains (src : Source) (R : Entry → Option SymbolId → Prop) (frame : Frame)
    (parts : List Part) (f : Symbol.Function) : Prop where
  blocks : List.Forall₂ (BlockOf src parts) (parts.filter Part.isBlock) f.blocks.toList
  locals : List.Forall₂ (LocalOf src R frame parts) (parts.filter (Part.isLocal src))
    f.locals.toList
  labels : List.Forall₂ (LabelOf src) (parts.filter Part.isLabel) f.labels.toList

/-- Labels in the order of their addresses.  Those at one address stay in their order. -/
structure StablySorted (labels sorted : List Symbol.Label) : Prop where
  ascending : sorted.Pairwise fun a b => a.address ≤ b.address
  kept : ∀ address, sorted.filter (·.address = address) = labels.filter (·.address = address)

/-- What a function is like in the end, when its labels have been sorted. -/
structure Mirrors (src : Source) (R : Entry → Option SymbolId → Prop) (frame : Frame)
    (parts : List Part) (f : Symbol.Function) : Prop where
  blocks : List.Forall₂ (BlockOf src parts) (parts.filter Part.isBlock) f.blocks.toList
  locals : List.Forall₂ (LocalOf src R frame parts) (parts.filter (Part.isLocal src))
    f.locals.toList
  labels : ∃ labels, List.Forall₂ (LabelOf src) (parts.filter Part.isLabel) labels ∧
    StablySorted labels f.labels.toList

/-! ## What is reached -/

section Reached

variable {e c : Entry} {around : List Entry} {p : Part}

theorem mem_reach (around : List Entry) (e : Entry) : ⟨e, around⟩ ∈ reach around e := by
  rw [reach_eq]
  exact List.mem_cons_self

theorem mem_reachAll {es : List Entry} : p ∈ reachAll around es ↔ ∃ e ∈ es, p ∈ reach around e := by
  induction es with
  | nil => simp [reachAll]
  | cons first rest ih => simp [reachAll, ih]

mutual

theorem reached_of_mem_reach {around : List Entry} :
    (c : Entry) → Reached e ⟨c, around⟩ → p ∈ reach around c → Reached e p
  | ⟨offset, abbreviation, attributeOffsets, children⟩, h, mem => by
    rw [reach] at mem
    rcases List.mem_cons.1 mem with rfl | mem
    · exact h
    · split at mem <;> rename_i passes
      · exact reached_of_mem_reachAll children (fun d hd => h.inner passes hd) mem
      · cases mem

theorem reached_of_mem_reachAll {around : List Entry} :
    (es : List Entry) → (∀ c ∈ es, Reached e ⟨c, around⟩) → p ∈ reachAll around es → Reached e p
  | [], _, mem => by cases mem
  | c :: rest, h, mem => by
    rcases List.mem_append.1 mem with mem | mem
    · exact reached_of_mem_reach c (h c List.mem_cons_self) mem
    · exact reached_of_mem_reachAll rest (fun d hd => h d (List.mem_cons_of_mem c hd)) mem

end

mutual

/-- What lies in a part that is passed is reached, too. -/
theorem inner_mem_reach {around : List Entry} (passes : isOpen p.entry = true)
    (hc : c ∈ p.entry.children) :
    (e : Entry) → p ∈ reach around e → ⟨c, p.entry :: p.around⟩ ∈ reach around e
  | ⟨offset, abbreviation, attributeOffsets, children⟩, mem => by
    rw [reach] at mem ⊢
    refine List.mem_cons_of_mem _ ?_
    rcases List.mem_cons.1 mem with rfl | mem
    · rw [if_pos passes]
      exact mem_reachAll.2 ⟨c, hc, mem_reach _ c⟩
    · split at mem <;> rename_i opens
      · rw [if_pos opens]
        exact inner_mem_reachAll passes hc children mem
      · cases mem

theorem inner_mem_reachAll {around : List Entry} (passes : isOpen p.entry = true)
    (hc : c ∈ p.entry.children) :
    (es : List Entry) → p ∈ reachAll around es → ⟨c, p.entry :: p.around⟩ ∈ reachAll around es
  | [], mem => by cases mem
  | e :: rest, mem => by
    rcases List.mem_append.1 mem with mem | mem
    · exact List.mem_append_left _ (inner_mem_reach passes hc e mem)
    · exact List.mem_append_right _ (inner_mem_reachAll passes hc rest mem)

end

mutual

theorem sublist_reach (around : List Entry) :
    (e : Entry) → ((reach around e).map Part.entry).Sublist e.preorder
  | ⟨offset, abbreviation, attributeOffsets, children⟩ => by
    rw [reach, Entry.preorder, List.map_cons]
    refine List.Sublist.cons_cons _ ?_
    split
    · exact sublist_reachAll _ children
    · exact List.nil_sublist _

theorem sublist_reachAll (around : List Entry) :
    (es : List Entry) → ((reachAll around es).map Part.entry).Sublist (Entry.preorderAll es)
  | [] => List.nil_sublist _
  | e :: rest => by
    rw [reachAll, Entry.preorderAll, List.map_append]
    exact (sublist_reach around e).append (sublist_reachAll around rest)

end

theorem inPreorder_partsOf (e : Entry) : InPreorder e (partsOf e) where
  mem_iff p := by
    refine ⟨reached_of_mem_reachAll e.children fun c hc => .child hc, fun reached => ?_⟩
    induction reached with
    | child h => exact mem_reachAll.2 ⟨_, h, mem_reach [] _⟩
    | inner _ passes h ih => exact inner_mem_reachAll passes h e.children ih
  sublist := sublist_reachAll [] e.children

end Reached

/-! ## Kinds of parts -/

namespace Part

variable {src : Source} {p : Part}

theorem tag_of_isVariable (h : p.isVariable = true) :
    p.entry.tag = .var ∨ p.entry.tag = .formalParameter := by
  rw [isVariable, decide_eq_true_iff] at h
  exact h.imp_right And.left

theorem tag_of_isLocal (h : p.isLocal src = true) :
    p.entry.tag = .var ∨ p.entry.tag = .formalParameter := by
  rw [isLocal, decide_eq_true_iff] at h
  exact tag_of_isVariable h.1

theorem tag_of_isLabel (h : p.isLabel = true) : p.entry.tag = .label := by
  rw [isLabel, decide_eq_true_iff] at h
  exact h.1

theorem not_isBlock (h : p.entry.tag ≠ .lexicalBlock) : p.isBlock = false :=
  decide_eq_false h

theorem not_isLocal (h : p.entry.tag ≠ .var) (h' : p.entry.tag ≠ .formalParameter) :
    p.isLocal src = false :=
  Bool.eq_false_iff.2 fun is => (tag_of_isLocal is).elim h h'

theorem not_isLabel (h : p.entry.tag ≠ .label) : p.isLabel = false :=
  Bool.eq_false_iff.2 fun is => h (tag_of_isLabel is)

theorem not_isLocal_of_inBlock (tag : p.entry.tag = .formalParameter)
    (direct : inBlock p.around = true) : p.isLocal src = false :=
  decide_eq_false fun is => by
    have counts : p.isVariable = true := is.1
    rw [isVariable, decide_eq_true_iff, tag, direct] at counts
    revert counts
    decide

theorem not_isLabel_of_inBlock (direct : inBlock p.around = true) : p.isLabel = false :=
  decide_eq_false fun is => Bool.noConfusion (direct.symm.trans is.2)

end Part

/-! ## More parts -/

variable {src : Source} {frame : Frame} {parts : List Part} {p : Part} {around : List Entry}
  {f g : Symbol.Function} {index : Option Nat}

/-- The index of a block stays when more blocks come after it. -/
theorem Indexed.append (h : Indexed parts around index) (more : List Part) :
    Indexed (parts ++ more) around index := by
  unfold Indexed at *
  split
  · rename_i none
    rw [none] at h
    exact h
  · rename_i block found
    rw [found] at h
    obtain ⟨i, hi, here⟩ := h
    refine ⟨i, hi, ?_⟩
    rw [List.filter_append, List.getElem?_append_left (List.getElem?_eq_some_iff.1 here).1, here]

/-- A block that has just been opened is the last one. -/
theorem Indexed.opened (block : p.isBlock = true) :
    Indexed (parts ++ [p]) (p.entry :: p.around) (some (parts.filter Part.isBlock).length) := by
  have tag : p.entry.tag = .lexicalBlock := of_decide_eq_true block
  rw [Indexed, enclosing?, if_pos tag]
  refine ⟨_, rfl, ?_⟩
  rw [List.filter_append, List.filter_cons_of_pos block, List.filter_nil,
    List.getElem?_concat_length]

/-- An inlined function is no block. -/
theorem Indexed.through {e : Entry} (tag : e.tag ≠ .lexicalBlock) :
    Indexed parts (e :: around) index ↔ Indexed parts around index := by
  rw [Indexed, Indexed, enclosing?, if_neg tag]

theorem Mirrors.imp (h : Mirrors src R frame parts f)
    (refs : ∀ c stored, R c stored → R' c stored) : Mirrors src R' frame parts f :=
  { h with locals := h.locals.imp fun _ _ l => { l with type := refs _ _ l.type } }

namespace Contains

theorem nil (src : Source) (R : Entry → Option SymbolId → Prop) (frame : Frame)
    (f : Symbol.Function) (blocks : f.blocks = #[]) (locals : f.locals = #[])
    (labels : f.labels = #[]) : Contains src R frame [] f := by
  refine ⟨?_, ?_, ?_⟩
  · rw [blocks]
    exact .nil
  · rw [locals]
    exact .nil
  · rw [labels]
    exact .nil

theorem imp (h : Contains src R frame parts f) (refs : ∀ c stored, R c stored → R' c stored) :
    Contains src R' frame parts f :=
  { h with locals := h.locals.imp fun _ _ l => { l with type := refs _ _ l.type } }

theorem normalize (h : Contains src R frame parts f) :
    Mirrors src R frame parts
      { f with labels := Symbol.Table.sortLabels f.labels, normalized := true } where
  blocks := h.blocks
  locals := h.locals
  labels := ⟨f.labels.toList, h.labels, Symbol.pairwise_sort Symbol.Label.address _,
    Symbol.filter_sort Symbol.Label.address _⟩

/-- A part more, with what is made of it. -/
theorem snoc (h : Contains src R frame parts f) {blocks : List Symbol.Block}
    {locals : List Symbol.Local} {labels : List Symbol.Label}
    (hblocks : g.blocks.toList = f.blocks.toList ++ blocks)
    (hlocals : g.locals.toList = f.locals.toList ++ locals)
    (hlabels : g.labels.toList = f.labels.toList ++ labels)
    (block : List.Forall₂ (BlockOf src (parts ++ [p])) ([p].filter Part.isBlock) blocks)
    (local' : List.Forall₂ (LocalOf src R frame (parts ++ [p])) ([p].filter (Part.isLocal src))
      locals)
    (label : List.Forall₂ (LabelOf src) ([p].filter Part.isLabel) labels) :
    Contains src R frame (parts ++ [p]) g where
  blocks := by
    rw [hblocks, List.filter_append]
    exact List.rel_append (h.blocks.imp fun _ _ b => { b with parent := b.parent.append [p] }) block
  locals := by
    rw [hlocals, List.filter_append]
    exact List.rel_append (h.locals.imp fun _ _ l => { l with block := l.block.append [p] }) local'
  labels := by
    rw [hlabels, List.filter_append]
    exact List.rel_append h.labels label

theorem skip (h : Contains src R frame parts f) (block : p.isBlock = false)
    (local' : p.isLocal src = false) (label : p.isLabel = false) :
    Contains src R frame (parts ++ [p]) f := by
  refine h.snoc (List.append_nil _).symm (List.append_nil _).symm (List.append_nil _).symm ?_ ?_ ?_
  · simp [block]
  · simp [local']
  · simp [label]

theorem addBlock (h : Contains src R frame parts f) {b : Symbol.Block} (is : p.isBlock = true)
    (block : BlockOf src parts p b) :
    Contains src R frame (parts ++ [p]) { f with blocks := f.blocks.push b } := by
  have tag : p.entry.tag = .lexicalBlock := of_decide_eq_true is
  have notLocal : p.isLocal src = false :=
    Part.not_isLocal (by rw [tag]; decide) (by rw [tag]; decide)
  refine h.snoc Array.toList_push (List.append_nil _).symm (List.append_nil _).symm ?_ ?_ ?_
  · simpa [is] using { block with parent := block.parent.append [p] }
  · simp [notLocal]
  · simp [p.not_isLabel (by rw [tag]; decide)]

theorem addLocal (h : Contains src R frame parts f) {l : Symbol.Local} (is : p.isLocal src = true)
    (local' : LocalOf src R frame parts p l) :
    Contains src R frame (parts ++ [p]) { f with locals := f.locals.push l } := by
  have tag := Part.tag_of_isLocal is
  refine h.snoc (List.append_nil _).symm Array.toList_push (List.append_nil _).symm ?_ ?_ ?_
  · simp [p.not_isBlock (by rcases tag with tag | tag <;> rw [tag] <;> decide)]
  · simpa [is] using { local' with block := local'.block.append [p] }
  · simp [p.not_isLabel (by rcases tag with tag | tag <;> rw [tag] <;> decide)]

theorem addLabel (h : Contains src R frame parts f) {l : Symbol.Label} (is : p.isLabel = true)
    (label : LabelOf src p l) :
    Contains src R frame (parts ++ [p]) { f with labels := f.labels.push l } := by
  have tag := Part.tag_of_isLabel is
  have notLocal : p.isLocal src = false :=
    Part.not_isLocal (by rw [tag]; decide) (by rw [tag]; decide)
  refine h.snoc (List.append_nil _).symm (List.append_nil _).symm Array.toList_push ?_ ?_ ?_
  · simp [p.not_isBlock (by rw [tag]; decide)]
  · simp [notLocal]
  · simpa [is] using label

end Contains

end Build
end Dwarf2
