/-
Decoding all units of a module.

`Chain` tells which units there are by nothing but the lengths in their headers, and `Run`
what becomes of each as they are decoded one behind the other.  A unit that fails leaves the
session as it was, so a run ends as if only the others had been there.
-/
import Dwarf2.Proofs.CompilationUnit
import Dwarf2.Session

namespace Dwarf2
namespace Session

open CompilationUnit (Header)

/-- The header at an offset, if it can be read. -/
def header? (sections : Sections) (offset : Nat) : Option Header :=
  ((Header.read ⟨.information, sections.order, sections.information⟩).value offset).toOption

/-- The length that the header at an offset declares. -/
def length? (sections : Sections) (offset : Nat) : Option Nat :=
  (header? sections offset).map fun h => h.length.toNat

/-- The offsets of the units from one on, and the offset where there is no more. -/
inductive Chain (size : Nat) (length? : Nat → Option Nat) : Nat → List Nat → Nat → Prop
  | outside {stop : Nat} (at_end : size ≤ stop) : Chain size length? stop [] stop
  | unreadable {stop : Nat} (inside : stop < size) (failed : length? stop = none) :
      Chain size length? stop [] stop
  | unit {start n stop : Nat} {rest : List Nat} (inside : start < size)
      (declared : length? start = some n) (behind : Chain size length? (start + 4 + n) rest stop) :
      Chain size length? start (start :: rest) stop

namespace Chain

variable {size : Nat} {length? : Nat → Option Nat} {start stop : Nat} {offsets : List Nat}

theorem unique {stop' : Nat} {offsets' : List Nat} (h : Chain size length? start offsets stop)
    (h' : Chain size length? start offsets' stop') : offsets' = offsets ∧ stop' = stop := by
  induction h generalizing offsets' stop' with
  | outside at_end =>
    cases h' with
    | outside => exact ⟨rfl, rfl⟩
    | unreadable inside | unit inside => omega
  | unreadable inside failed =>
    cases h' with
    | outside at_end => omega
    | unreadable => exact ⟨rfl, rfl⟩
    | unit _ declared => cases failed.symm.trans declared
  | unit inside declared _ ih =>
    cases h' with
    | outside at_end => omega
    | unreadable _ failed => cases failed.symm.trans declared
    | unit _ declared' behind =>
      cases declared.symm.trans declared'
      obtain ⟨rfl, rfl⟩ := ih behind
      exact ⟨rfl, rfl⟩

/-- Only the lengths along the chain matter, and that there is none at its end. -/
theorem congr {lengths? : Nat → Option Nat} (h : Chain size length? start offsets stop)
    (same : ∀ offset ∈ stop :: offsets, lengths? offset = length? offset) :
    Chain size lengths? start offsets stop := by
  induction h with
  | outside at_end => exact .outside at_end
  | unreadable inside failed =>
    exact .unreadable inside ((same _ List.mem_cons_self).trans failed)
  | unit inside declared _ ih =>
    refine .unit inside ((same _ (by simp)).trans declared) (ih fun offset mem => same offset ?_)
    rcases List.mem_cons.1 mem with rfl | mem
    · exact List.mem_cons_self
    · exact List.mem_cons_of_mem _ (List.mem_cons_of_mem _ mem)

/-- Every unit lies ahead of the one before, if only by the length field. -/
theorem spread (h : Chain size length? start offsets stop) :
    offsets.Pairwise (fun a b => a + 4 ≤ b) ∧
      ∀ offset ∈ offsets, start ≤ offset ∧ offset < size := by
  induction h with
  | outside | unreadable => exact ⟨.nil, nofun⟩
  | unit inside _ _ ih =>
    obtain ⟨apart, bounds⟩ := ih
    refine ⟨List.pairwise_cons.2 ⟨fun offset mem => ?_, apart⟩, fun offset mem => ?_⟩
    · have := bounds offset mem
      omega
    · rcases List.mem_cons.1 mem with rfl | mem
      · exact ⟨Nat.le_refl _, inside⟩
      · have := bounds offset mem
        omega

end Chain

/-- The units from an offset on are decoded one behind the other. -/
inductive Run (sections : Sections) (image : Image) :
    Nat → Session → List Outcome → Session → Prop
  | outside {offset : Nat} {session : Session} (at_end : sections.information.size ≤ offset) :
      Run sections image offset session [] session
  | unreadable {offset : Nat} {session : Session} (inside : offset < sections.information.size)
      (failed : header? sections offset = none) : Run sections image offset session [] session
  | unit {offset : Nat} {h : Header} {session final : Session} {outcomes : List Outcome}
      (inside : offset < sections.information.size) (read : header? sections offset = some h)
      (behind : Run sections image (offset + 4 + h.length.toNat)
        (CompilationUnit.decode sections image h session).2 outcomes final) :
      Run sections image offset session
        (⟨offset, (CompilationUnit.decode sections image h session).1.isOk⟩ :: outcomes) final

/-- Decodes the unit at an offset, if there is one. -/
def decodeAt (sections : Sections) (image : Image) (session : Session) (offset : Nat) : Session :=
  match header? sections offset with
  | none => session
  | some h => (CompilationUnit.decode sections image h session).2

variable {sections : Sections} {image : Image}

/-- Decoding goes one such way.  What was told before stays below. -/
theorem exists_run (sections : Sections) (image : Image) (offset : Nat) (before : List Outcome)
    (session : Session) :
    ∃ outcomes final, Run sections image offset session outcomes final ∧
      decodeFrom sections image offset before session = (outcomes.reverse ++ before, final) := by
  fun_induction decodeFrom sections image offset before session with
  | case1 offset before session inside e failed =>
    have failed : header? sections offset = none := by
      rw [header?, Read.value, failed]
      rfl
    exact ⟨[], session, .unreadable inside failed, rfl⟩
  | case2 before session h stop r session' decoded inside read ih =>
    have read : header? sections h.offset = some h := by
      rw [header?, Read.value, read]
      rfl
    obtain ⟨outcomes, final, behind, eq⟩ := ih
    refine ⟨⟨h.offset, r.isOk⟩ :: outcomes, final, ?_, ?_⟩
    · have behind : Run sections image h.nextOffset
          (CompilationUnit.decode sections image h session).2 outcomes final := by
        rwa [decoded]
      have run := Run.unit inside read behind
      rwa [decoded] at run
    · rw [eq, List.reverse_cons, List.append_assoc]
      rfl
  | case3 offset before session outside =>
    exact ⟨[], session, .outside (Nat.not_lt.1 outside), rfl⟩

namespace Run

variable {offset : Nat} {session final : Session} {outcomes : List Outcome}

/-- Neither what the units hold nor how they are decoded has a part in where they are. -/
theorem chain (run : Run sections image offset session outcomes final) :
    ∃ stop, Chain sections.information.size (length? sections) offset
      (outcomes.map Outcome.offset) stop := by
  induction run with
  | @outside offset _ at_end => exact ⟨offset, .outside at_end⟩
  | @unreadable offset _ inside failed =>
    exact ⟨offset, .unreadable inside (congrArg (Option.map _) failed)⟩
  | unit inside read _ ih =>
    obtain ⟨stop, chain⟩ := ih
    exact ⟨stop, .unit inside (congrArg (Option.map _) read) chain⟩

end Run

/-- Whether a unit is decoded does not depend on the session. -/
theorem isOk_decode (h : Header) (session session' : Session) :
    (CompilationUnit.decode sections image h session').1.isOk =
      (CompilationUnit.decode sections image h session).1.isOk := by
  rcases CompilationUnit.fails_or_decode sections image h session with ⟨e, fails⟩ | done
  · rw [CompilationUnit.decode_of_fails fails, CompilationUnit.decode_of_fails fails]
  · rcases CompilationUnit.fails_or_decode sections image h session' with ⟨e, fails⟩ | done'
    · rw [CompilationUnit.decode_of_fails fails, CompilationUnit.decode_of_fails fails]
    · rw [done, done']

/-- A unit that is not decoded leaves the session as it was. -/
theorem decode_of_not_isOk {h : Header} {session : Session}
    (failed : (CompilationUnit.decode sections image h session).1.isOk = false) :
    (CompilationUnit.decode sections image h session).2 = session := by
  rcases CompilationUnit.fails_or_decode sections image h session with ⟨e, fails⟩ | done
  · rw [CompilationUnit.decode_of_fails fails]
  · rw [done] at failed
    cases failed

namespace Run

variable {offset : Nat} {session final : Session} {outcomes : List Outcome}

/-- What is told of a unit holds of it in any session. -/
theorem told (run : Run sections image offset session outcomes final) :
    ∀ o ∈ outcomes, ∃ h, header? sections o.offset = some h ∧ ∀ session,
      (CompilationUnit.decode sections image h session).1.isOk = o.processed := by
  induction run with
  | outside | unreadable => exact nofun
  | @unit offset h session _ _ _ read _ ih =>
    rintro o (_ | ⟨_, mem⟩)
    · exact ⟨h, read, fun session' => isOk_decode h session session'⟩
    · exact ih o mem

theorem final_eq (run : Run sections image offset session outcomes final) :
    final = ((outcomes.filter Outcome.processed).map Outcome.offset).foldl
      (decodeAt sections image) session := by
  induction run with
  | outside | unreadable => rfl
  | @unit offset h session _ _ _ read _ ih =>
    cases done : (CompilationUnit.decode sections image h session).1.isOk with
    | false =>
      rw [decode_of_not_isOk done] at ih
      rw [List.filter_cons_of_neg Bool.false_ne_true]
      exact ih
    | true =>
      have step : decodeAt sections image session offset =
          (CompilationUnit.decode sections image h session).2 := by
        unfold decodeAt
        rw [read]
      rw [List.filter_cons_of_pos rfl, List.map_cons, List.foldl_cons, step]
      exact ih

end Run

theorem run_decode (sections : Sections) (image : Image) (session : Session) :
    ∃ outcomes final, Run sections image 0 session outcomes final ∧
      decode sections image session =
        (outcomes, { final with symbols := { final.symbols with capabilities } }) := by
  obtain ⟨outcomes, final, run, eq⟩ := exists_run sections image 0 [] session
  refine ⟨outcomes, final, run, ?_⟩
  rw [decode, eq, List.append_nil]
  dsimp only
  rw [List.reverse_reverse]

/-- The units are those that the headers chain together, whatever else the sections hold and
whichever of the units fail.  What they are decoded into is as if only those that did not fail
had been there. -/
theorem decode_follows_headers (sections : Sections) (image : Image) (session : Session) :
    let (outcomes, final) := decode sections image session
    let size := sections.information.size
    let offsets := outcomes.map Outcome.offset
    let processed := (outcomes.filter Outcome.processed).map Outcome.offset
    let replayed := processed.foldl (decodeAt sections image) session
    (∃ stop,
      (∀ offsets' stop', Chain size (length? sections) 0 offsets' stop' ↔
        offsets' = offsets ∧ stop' = stop) ∧
      ∀ sections' image' session', sections'.information.size = size →
        (∀ offset ∈ stop :: offsets, length? sections' offset = length? sections offset) →
        (decode sections' image' session').1.map Outcome.offset = offsets) ∧
    (offsets.Pairwise (fun a b => a + 4 ≤ b) ∧ ∀ offset ∈ offsets, offset < size) ∧
    (∀ o ∈ outcomes, ∃ h, header? sections o.offset = some h ∧ ∀ session,
      (CompilationUnit.decode sections image h session).1.isOk = o.processed) ∧
    final = { replayed with symbols := { replayed.symbols with capabilities } } := by
  obtain ⟨outcomes, final, run, eq⟩ := run_decode sections image session
  rw [eq]
  dsimp only
  obtain ⟨stop, chain⟩ := run.chain
  refine ⟨⟨stop, fun offsets' stop' => ⟨chain.unique, ?_⟩, ?_⟩, ?_, run.told, ?_⟩
  · rintro ⟨rfl, rfl⟩
    exact chain
  · intro sections' image' session' size same
    obtain ⟨outcomes', final', run', eq'⟩ := run_decode sections' image' session'
    obtain ⟨stop', chain'⟩ := run'.chain
    rw [size] at chain'
    rw [eq']
    exact ((chain.congr same).unique chain').1
  · obtain ⟨apart, bounds⟩ := chain.spread
    exact ⟨apart, fun offset mem => (bounds offset mem).2⟩
  · rw [run.final_eq]

end Session
end Dwarf2
