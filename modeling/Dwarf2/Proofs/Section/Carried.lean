/-
What was read from some bytes is read from the same bytes elsewhere.

`Reads` starts from bytes that were written for a value.  Here the bytes are any that a read has
taken, and `Carries` says that they are all that it went by: put between other bytes, in another
section, they are read alike.  Only positions that a read tells of itself are not carried over.
-/
import Dwarf2.Proofs.Section.Landing
import Dwarf2.Proofs.Section.Written

namespace Dwarf2

variable {α β : Type}

namespace Bytes

variable {bytes : Bytes} {start middle stop : Nat}

/-- The bytes from one position up to another. -/
def between (bytes : Bytes) (start stop : Nat) : List UInt8 :=
  (bytes.extract start stop).toList

@[simp] theorem between_self (bytes : Bytes) (start : Nat) : bytes.between start start = [] := by
  simp [between]

theorem length_between (le : start ≤ stop) (inside : stop ≤ bytes.size) :
    start + (bytes.between start stop).length = stop := by
  rw [between, Array.length_toList, Array.size_extract]
  omega

theorem between_of_holds {written : List UInt8} (h : bytes.Holds start written) :
    bytes.between start (start + written.length) = written := by
  rw [between, h.extract_eq]

theorem between_append (le : start ≤ middle) (le' : middle ≤ stop) :
    bytes.between start middle ++ bytes.between middle stop = bytes.between start stop := by
  rw [between, between, ← Array.toList_append, Array.extract_append_extract, Nat.min_eq_left le,
    Nat.max_eq_right le']
  rfl

theorem between_eq_cons (inside : start < bytes.size) (lt : start < stop) :
    bytes.between start stop = bytes[start] :: bytes.between (start + 1) stop := by
  rw [← between_append (Nat.le_succ start) lt]
  simp [between, Array.toList_extract, List.extract_eq_take_drop, List.drop_eq_getElem_cons, inside]

/-- Before the byte that a search ends at, there is none that is accepted. -/
theorem between_of_indexFrom? {p : UInt8 → Bool} (found : bytes.indexFrom? p start = some stop) :
    ∃ last, bytes.between start (stop + 1) = bytes.between start stop ++ [last] ∧
      (∀ byte ∈ bytes.between start stop, p byte = false) ∧ p last = true := by
  fun_induction indexFrom? bytes p start with
  | case1 start inside accepted =>
    cases found
    refine ⟨bytes[stop], ?_, by simp, accepted⟩
    rw [between_eq_cons inside (Nat.lt_succ_self stop), between_self, between_self]
    rfl
  | case2 start inside passed ih =>
    obtain ⟨last, parts, before, accepted⟩ := ih found
    have le := (indexFrom?_eq_some found).1
    have front := between_eq_cons inside (Nat.lt_of_succ_le le)
    refine ⟨last, ?_, ?_, accepted⟩
    · rw [between_eq_cons inside (by omega), parts, front]
      rfl
    · rw [front]
      intro byte mem
      rcases List.mem_cons.1 mem with rfl | mem
      · exact Bool.eq_false_iff.2 passed
      · exact before byte mem
  | case3 => cases found

/-- The bytes behind a position. -/
def rest (bytes : Bytes) (start : Nat) : List UInt8 :=
  bytes.toList.drop start

theorem rest_extract (bytes : Bytes) (start stop : Nat) :
    Bytes.rest (bytes.extract 0 stop) start = bytes.between start stop := by
  simp [rest, between, List.extract_eq_take_drop, List.drop_take]

theorem between_min (bytes : Bytes) (start stop : Nat) :
    bytes.between start (min stop bytes.size) = bytes.between start stop := by
  simp only [between, Array.toList_extract, List.extract_eq_take_drop]
  rw [List.take_eq_take_iff, List.length_drop, Array.length_toList]
  omega

theorem rest_eq_nil_iff : bytes.rest start = [] ↔ bytes.size ≤ start := by
  rw [rest, List.drop_eq_nil_iff, Array.length_toList]

theorem between_size (bytes : Bytes) (start : Nat) :
    bytes.between start bytes.size = bytes.rest start := by
  simp [between, rest, List.extract_eq_take_drop]

theorem between_append_rest (le : start ≤ stop) (inside : stop ≤ bytes.size) :
    bytes.between start stop ++ bytes.rest stop = bytes.rest start := by
  rw [← between_size, ← between_size, between_append le inside]

theorem holds_of_rest {front back : List UInt8} (inside : start ≤ bytes.size)
    (eq : bytes.rest start = front ++ back) : bytes.Holds start front := by
  refine ⟨bytes.toList.take start, back, ?_, ?_⟩
  · rw [List.length_take, Array.length_toList]
    omega
  · rw [List.append_assoc, ← eq, rest, List.take_append_drop]

theorem holds_of_getElem? {byte : UInt8} (eq : bytes[start]? = some byte) :
    bytes.Holds start [byte] ∧ start + 1 ≤ bytes.size := by
  obtain ⟨inside, rfl⟩ := Array.getElem?_eq_some_iff.1 eq
  have eq : bytes.rest start = [bytes[start]] ++ bytes.rest (start + 1) := by
    rw [← between_append_rest (Nat.le_succ start) inside,
      between_eq_cons inside (Nat.lt_succ_self _), between_self]
  exact ⟨holds_of_rest (Nat.le_of_lt inside) eq, inside⟩

theorem rest_add {front back : List UInt8} (eq : bytes.rest start = front ++ back) :
    bytes.rest (start + front.length) = back := by
  rw [rest] at eq ⊢
  rw [← List.drop_drop, eq, List.drop_left]

end Bytes

namespace Section

/-- A value that is read from some bytes of `s` is read from the same bytes wherever they stand
in `s'`. -/
def Carries (s s' : Section) (x x' : Read α) : Prop :=
  ∀ start a stop, start ≤ s.bytes.size → x.run start = .ok (a, stop) →
    stop ≤ s.bytes.size ∧ s'.Reads x' a (s.bytes.between start stop)

variable {s s' : Section}

namespace Carries

theorem pure (a : α) : s.Carries s' (Pure.pure a) (Pure.pure a) := by
  intro start b stop inside run
  cases run
  rw [Bytes.between_self]
  exact ⟨inside, .pure a⟩

theorem bind {x x' : Read α} {f f' : α → Read β} (first : s.Carries s' x x')
    (second : ∀ a, s.Carries s' (f a) (f' a)) : s.Carries s' (x >>= f) (x' >>= f') := by
  intro start b stop inside run
  obtain ⟨a, middle, run, run'⟩ := Read.run_bind_eq_ok.1 run
  obtain ⟨inside, reads⟩ := first start a middle inside run
  obtain ⟨inside, reads'⟩ := second a middle b stop inside run'
  rw [← Bytes.between_append (Read.le_of_run run) (Read.le_of_run run')]
  exact ⟨inside, reads.bind reads'⟩

theorem map {x x' : Read α} (h : s.Carries s' x x') (f : α → β) :
    s.Carries s' (f <$> x) (f <$> x') :=
  h.bind fun a => .pure (f a)

theorem ite {c : Prop} [Decidable c] {x x' y y' : Read α} (yes : c → s.Carries s' x x')
    (no : ¬c → s.Carries s' y y') :
    s.Carries s' (if c then x else y) (if c then x' else y') := by
  split
  · exact yes ‹_›
  · exact no ‹_›

theorem of_not_lands {x x' : Read α} (fails : ∀ start stop, ¬x.Lands start stop) :
    s.Carries s' x x' :=
  fun start a stop _ run => absurd ⟨a, run⟩ (fails start stop)

theorem run_of_rest {x x' : Read α} (h : s.Carries s' x x') {start start' stop : Nat} {a : α}
    {written : List UInt8} (inside : start ≤ s.bytes.size) (inside' : start' ≤ s'.bytes.size)
    (run : x.run start = .ok (a, stop))
    (eq : s'.bytes.rest start' = s.bytes.between start stop ++ written) :
    ∃ stop', x'.run start' = .ok (a, stop') ∧ stop' ≤ s'.bytes.size ∧
      s'.bytes.rest stop' = written := by
  have holds := Bytes.holds_of_rest inside' eq
  obtain ⟨-, reads⟩ := h start a stop inside run
  exact ⟨_, reads start' holds, holds.le_size, Bytes.rest_add eq⟩

/-- Where the bytes behind two positions are the same, the same is read. -/
theorem run_alike {x x' : Read α} (h : s.Carries s' x x') {start start' stop : Nat} {a : α}
    (inside : start ≤ s.bytes.size) (inside' : start' ≤ s'.bytes.size)
    (rest : s'.bytes.rest start' = s.bytes.rest start) (run : x.run start = .ok (a, stop)) :
    stop ≤ s.bytes.size ∧ ∃ stop', x'.run start' = .ok (a, stop') ∧ stop' ≤ s'.bytes.size ∧
      s'.bytes.rest stop' = s.bytes.rest stop := by
  have le := (h start a stop inside run).1
  have split := Bytes.between_append_rest (Read.le_of_run run) le
  exact ⟨le, h.run_of_rest inside inside' run (rest.trans split.symm)⟩

/-- Nor does a read succeed where the other fails: it would be read there too. -/
theorem error_alike {x x' : Read α} (h : s'.Carries s x' x) {start start' : Nat} {e : Error}
    (inside : start ≤ s.bytes.size) (inside' : start' ≤ s'.bytes.size)
    (rest : s'.bytes.rest start' = s.bytes.rest start) (run : x.run start = .error e) :
    ∃ e', x'.run start' = .error e' := by
  match run' : x'.run start' with
  | .error e' => exact ⟨e', rfl⟩
  | .ok (a, stop') =>
    obtain ⟨-, stop, here, -⟩ := h.run_alike inside' inside rest.symm run'
    rw [run] at here
    cases here

end Carries

theorem carries_take (s s' : Section) (count : Nat) (shortfall shortfall' : Nat → Shortfall) :
    s.Carries s' (s.take count shortfall) (s'.take count shortfall') := by
  intro start a stop _ run
  rw [take, Read.run_ofRun] at run
  split at run
  · rename_i enough
    cases run
    have length : (s.bytes.between start (start + count)).length = count :=
      Nat.add_left_cancel (Bytes.length_between (Nat.le_add_right start count) enough)
    exact ⟨enough, reads_take length shortfall'⟩
  · cases run

theorem carries_number (same : s'.order = s.order) (width : Nat) :
    s.Carries s' (s.number width) (s'.number width) := by
  unfold number
  rw [same]
  exact (carries_take s s' width _ _).map _

theorem carries_uint8 (same : s'.order = s.order) : s.Carries s' s.uint8 s'.uint8 :=
  (carries_number same 1).map _

theorem carries_int8 (same : s'.order = s.order) : s.Carries s' s.int8 s'.int8 :=
  (carries_uint8 same).map _

theorem carries_uint16 (same : s'.order = s.order) : s.Carries s' s.uint16 s'.uint16 :=
  (carries_number same 2).map _

theorem carries_uint32 (same : s'.order = s.order) : s.Carries s' s.uint32 s'.uint32 :=
  (carries_number same 4).map _

theorem carries_fixed (same : s'.order = s.order) (width : Nat) :
    s.Carries s' (s.fixed width) (s'.fixed width) := by
  unfold fixed
  exact .ite (fun _ => carries_number same _) fun _ => .of_not_lands (s.not_lands_fault _)

theorem carries_address (same : s'.order = s.order) (size : UInt8) :
    s.Carries s' (s.address size) (s'.address size) := by
  unfold address
  exact .ite (fun _ => carries_number same _) fun _ => .of_not_lands (s.not_lands_fault _)

theorem carries_block (s s' : Section) (count : Nat) :
    s.Carries s' (s.block count) (s'.block count) :=
  carries_take s s' count _ _

theorem carries_skip (s s' : Section) (count : Nat) :
    s.Carries s' (s.skip count) (s'.skip count) :=
  (carries_block s s' count).map _

theorem carries_leb128 (s s' : Section) : s.Carries s' s.leb128 s'.leb128 := by
  intro start groups stop inside run
  have inside := s.le_size_of_leb128 ⟨groups, run⟩
  rw [leb128, Read.run_ofRun] at run
  split at run
  · rename_i last found
    cases run
    obtain ⟨last, parts, before, marked⟩ := Bytes.between_of_indexFrom? found
    exact ⟨inside, reads_leb128 ⟨_, last, parts, before, marked⟩⟩
  · cases run

theorem carries_unsigned (s s' : Section) : s.Carries s' s.unsigned s'.unsigned :=
  (carries_leb128 s s').map _

theorem carries_signed (s s' : Section) : s.Carries s' s.signed s'.signed :=
  (carries_leb128 s s').map _

theorem carries_string (s s' : Section) : s.Carries s' s.string s'.string := by
  intro start text stop inside run
  have inside := s.le_size_of_string ⟨text, run⟩
  rw [string, Read.run_ofRun] at run
  split at run
  · rename_i stop found
    cases run
    obtain ⟨last, parts, before, zero⟩ := Bytes.between_of_indexFrom? found
    have inner : 0 ∉ s.bytes.between start stop := fun mem => by
      have := before 0 mem
      cases this
    rw [parts, of_decide_eq_true zero]
    exact ⟨inside, reads_string inner⟩
  · cases run

/-- Between the positions the sections are alike, so that what is read there is too. -/
structure Agrees (s s' : Section) (low high : Nat) : Prop where
  order : s'.order = s.order
  bytes : s'.bytes.between low high = s.bytes.between low high
  inside : high ≤ s.bytes.size
  inside' : high ≤ s'.bytes.size

theorem Agrees.holds {low high start stop : Nat} (h : s.Agrees s' low high) (le : low ≤ start)
    (le' : start ≤ stop) (le'' : stop ≤ high) :
    s'.bytes.Holds start (s.bytes.between start stop) := by
  have parts : s'.bytes.rest low = s.bytes.between low start ++
      (s.bytes.between start stop ++ (s.bytes.between stop high ++ s'.bytes.rest high)) := by
    rw [← Bytes.between_append_rest (by omega) h.inside', h.bytes,
      ← Bytes.between_append (Nat.le_trans le le') le'', ← Bytes.between_append le le']
    simp only [List.append_assoc]
  have position := Bytes.length_between le (Nat.le_trans (Nat.le_trans le' le'') h.inside)
  have rest := Bytes.rest_add parts
  rw [position] at rest
  exact Bytes.holds_of_rest (Nat.le_trans (Nat.le_trans le' le'') h.inside') rest

end Section

namespace Read

/-- What the one read gives and ends between the positions, the other gives too, but for what may
be different by `R`. -/
def Agrees (low high : Nat) (R : α → α → Prop) (x x' : Read α) : Prop :=
  ∀ start a stop, low ≤ start → x.run start = .ok (a, stop) → stop ≤ high →
    ∃ a', x'.run start = .ok (a', stop) ∧ R a a'

variable {low high : Nat} {R : α → α → Prop} {s s' : Section}

namespace Agrees

theorem of_carries (agrees : s.Agrees s' low high) {x x' : Read α} (h : s.Carries s' x x') :
    x.Agrees low high Eq x' := by
  intro start a stop le run le'
  have forward := le_of_run run
  have inside := Nat.le_trans (Nat.le_trans forward le') agrees.inside
  obtain ⟨inside, reads⟩ := h start a stop inside run
  have run' := reads start (agrees.holds le forward le')
  rw [Bytes.length_between forward inside] at run'
  exact ⟨a, run', rfl⟩

theorem pure {a a' : α} (h : R a a') : Agrees low high R (Pure.pure a) (Pure.pure a') := by
  intro start b stop _ run _
  cases run
  exact ⟨a', rfl, h⟩

theorem position : Agrees low high Eq Read.position Read.position :=
  fun _ a _ _ run _ => ⟨a, run, rfl⟩

theorem bind {x x' : Read β} {f f' : β → Read α} (first : Agrees low high Eq x x')
    (second : ∀ b, Agrees low high R (f b) (f' b)) : Agrees low high R (x >>= f) (x' >>= f') := by
  intro start a stop le run le'
  obtain ⟨b, middle, run, run'⟩ := run_bind_eq_ok.1 run
  have forward := le_of_run run
  have forward' := le_of_run run'
  obtain ⟨_, same, rfl⟩ := first start b middle le run (Nat.le_trans forward' le')
  obtain ⟨a', same', h⟩ := second b middle a stop (Nat.le_trans le forward) run' le'
  exact ⟨a', run_bind_eq_ok.2 ⟨b, middle, same, same'⟩, h⟩

theorem fail {e : Error} {x' : Read α} : Agrees low high R (Read.fail e) x' :=
  fun _ _ _ _ run _ => nomatch run

theorem dite {c : Prop} [Decidable c] {x x' : c → Read α} {y y' : ¬c → Read α}
    (yes : ∀ h, Agrees low high R (x h) (x' h)) (no : ∀ h, Agrees low high R (y h) (y' h)) :
    Agrees low high R (if h : c then x h else y h) (if h : c then x' h else y' h) := by
  split
  · exact yes ‹_›
  · exact no ‹_›

theorem ite {c : Prop} [Decidable c] {x x' y y' : Read α} (yes : c → Agrees low high R x x')
    (no : ¬c → Agrees low high R y y') :
    Agrees low high R (if c then x else y) (if c then x' else y') :=
  .dite yes no

theorem map {x x' : Read α} (h : Agrees low high Eq x x') (f : α → β) :
    Agrees low high Eq (f <$> x) (f <$> x') :=
  h.bind fun _ => .pure rfl

theorem many {x x' : Read (Option α)} {size size' : Nat} {progress : x.ItemsProgress size}
    {progress' : x'.ItemsProgress size'} (h : Agrees low high Eq x x') :
    Agrees low high Eq (Read.many x size progress) (Read.many x' size' progress') := by
  intro start items stop le run le'
  have kept : start ≤ stop ∧ (low ≤ start → stop ≤ high →
      (Read.many x' size' progress').run start = .ok (items, stop)) := by
    refine many_induction (P := fun start items stop => start ≤ stop ∧ (low ≤ start → stop ≤ high →
      (Read.many x' size' progress').run start = .ok (items, stop))) ?_ ?_ run
    · intro start stop run
      refine ⟨le_of_run run, fun le le' => ?_⟩
      obtain ⟨_, run', rfl⟩ := h start none stop le run le'
      rw [run_many, run']
    · intro start a next rest stop run ⟨forward, ih⟩
      refine ⟨Nat.le_trans (le_of_run run) forward, fun le le' => ?_⟩
      obtain ⟨_, run', rfl⟩ := h start (some a) next le run (Nat.le_trans forward le')
      rw [run_many, run']
      dsimp only
      rw [ih (Nat.le_trans le (le_of_run run)) le']
      rfl
  exact ⟨items, kept.2 le le', rfl⟩

end Agrees

end Read
end Dwarf2
