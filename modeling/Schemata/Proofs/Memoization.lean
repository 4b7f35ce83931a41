import Schemata.Proofs.Answers
import Schemata.Proofs.Lazy.Logging

/-!
# Cells are written once and do not show

**Input.**  A guarded document, interpreted as a decoder, an encoder or both, and any uses of the
interpretation one after the other.

**Algorithm.**  One use keeps the store logged (`Lazy.decode_logs`) and answers as the root of the
document does (`Interpretation.Used.decode_answer`); what holds after each use holds after all.

**Results.**

* `Interpretation.Used.use_answer`: what one use preserves and answers.
* `Interpretation.Used.useAll_answers`: what a sequence of uses preserves and answers.
* `Document.memoized`: no definition runs until it is used, and each at most once over all uses.
-/

namespace Schemata

open Json (Value)
open Lazy (Halt Store Runs)

/-! ## Uses -/

/-- A use of an interpretation. -/
inductive Use where
  | decode (value : Value)
  | encode (value : Value)
  | accepts (value : Value)

/-- What a use answers. -/
inductive Answer where
  | decoded (outcome : Outcome Value)
  | encoded (value : Value)
  | accepted (accepted : Bool)

namespace Interpretation

variable {A : Type} [Artifact A] {document : Document} {i i' : Interpretation A}

/-- The answer of a use, and the interpretation after it. -/
def use (document : Document) (i : Interpretation A) :
    Use → Except Halt (Answer × Interpretation A)
  | .decode value => do
      let (outcome, next) ← i.decode document value
      pure (.decoded outcome, next)
  | .encode value => do
      let (encoded, next) ← i.encode document value
      pure (.encoded encoded, next)
  | .accepts value => do
      let (accepted, next) ← i.accepts document value
      pure (.accepted accepted, next)

/-- The answers of uses one after the other, and the interpretation after all of them. -/
def useAll (document : Document) (i : Interpretation A) :
    List Use → Except Halt (List Answer × Interpretation A)
  | [] => pure ([], i)
  | use :: rest => do
      let (answer, next) ← i.use document use
      let (answers, last) ← next.useAll document rest
      pure (answer :: answers, last)

omit [Artifact A] in
/-- A call after which there is an interpretation has come to an end. -/
theorem runs_of_after {α : Type} {call : Lazy.Run A α} {answer : α}
    (h : i.after call = .ok (answer, i')) : Runs call i.store answer i'.store := by
  replace h : (call i.store >>= fun p => pure (p.1, { i with store := p.2 })) =
    .ok (answer, i') := h
  cases hcall : call i.store with
  | error halt =>
      rw [hcall] at h
      cases h
  | ok p =>
      rw [hcall] at h
      obtain ⟨rfl, rfl⟩ := Prod.mk.inj (Except.ok.inj h)
      exact hcall

/-- An interpretation is what building a reference to the root gives, and nothing runs for it. -/
theorem interpret_runs (document : Document) :
    Runs (Lazy.build [] (.ref document.root)) {} (document.interpret (A := A)).artifact
      document.interpret.store ∧ (document.interpret (A := A)).store.runs = [] := by
  refine ⟨?_, rfl⟩
  rw [Lazy.build]
  exact Runs.allocate document.root .definition [] {}

theorem logged_fresh : (document.interpret (A := A)).store.Logged := by
  obtain ⟨hbuild, _⟩ := interpret_runs (A := A) document
  have hempty : ({} : Store A).Logged := ⟨List.nodup_nil, fun k => by simp [Store.memo?]⟩
  exact (Lazy.build_rests _ _ _ _ _ hbuild).logged hempty

end Interpretation

/-! ## What uses preserve and answer -/

/-- What a use of the root of a document answers. -/
def Document.answer (document : Document) : Use → Answer
  | .decode value => .decoded ((document.decoder document.root).decode value)
  | .encode value => .encoded ((document.encoder document.root).encode value)
  | .accepts value => .accepted ((document.encoder document.root).accepts value)

namespace Interpretation

variable {A : Type} [Artifact A] [LawfulArtifact A] {document : Document}
  {i i' : Interpretation A}

omit [LawfulArtifact A] in
/-- A call on the cell of the root keeps the log. -/
theorem Serves.logged (hi : i.Serves document document.definitions) (hlogged : i.store.Logged)
    {α : Type} (call : A → Lazy.Run A α) {answer : α}
    (hcall : ∀ k, Lazy.Logs document document.definitions (call (Artifact.owner k)))
    (h : i.after (call i.artifact) = .ok (answer, i')) :
    i'.store.Logged ∧ i.store.Remembers i'.store := by
  obtain ⟨k, _, hartifact, _⟩ := hi.root
  rw [hartifact] at h
  exact (hcall k _ _ _ hi.sound hlogged (runs_of_after h)).2

/-- **A used interpretation answers each use as the root does, and keeps the log.** -/
theorem Used.use_answer (hguarded : document.Guarded) (hi : i.Used document)
    (hlogged : i.store.Logged) (use : Use) :
    ∃ i', i.use document use = .ok (document.answer use, i') ∧ i'.Used document ∧
      i'.store.Logged ∧ i.store.Remembers i'.store := by
  have hserves := hi.serves hguarded
  cases use with
  | decode value =>
      obtain ⟨i', hdecode, hused⟩ := hi.decode_answer hguarded value
      refine ⟨i', ?_, hused, hserves.logged hlogged
        (Lazy.decode document.definitions (document.callDepth value) · value)
        (Lazy.decode_logs _ · value) hdecode⟩
      rw [Interpretation.use, hdecode]
      rfl
  | encode value =>
      obtain ⟨i', hencode, hused⟩ := hi.encode_answer hguarded value
      refine ⟨i', ?_, hused, hserves.logged hlogged
        (Lazy.encode document.definitions (document.callDepth value) · value)
        (Lazy.encode_logs _ · value) hencode⟩
      rw [Interpretation.use, hencode]
      rfl
  | accepts value =>
      obtain ⟨i', haccepts, hused⟩ := hi.accepts_answer hguarded value
      refine ⟨i', ?_, hused, hserves.logged hlogged
        (Lazy.accepts document.definitions (document.callDepth value) · value)
        (Lazy.accepts_logs _ · value) haccepts⟩
      rw [Interpretation.use, haccepts]
      rfl

/-- **So it does with all of several uses.** -/
theorem Used.useAll_answers (hguarded : document.Guarded) :
    ∀ (uses : List Use) {i : Interpretation A}, i.Used document → i.store.Logged →
      ∃ i', i.useAll document uses = .ok (uses.map document.answer, i') ∧ i'.Used document ∧
        i'.store.Logged ∧ i.store.Remembers i'.store
  | [], i, hi, hlogged => ⟨i, rfl, hi, hlogged, .refl _⟩
  | use :: rest, i, hi, hlogged => by
      obtain ⟨next, huse, hnext, hlogged₁, hremembers⟩ := hi.use_answer hguarded hlogged use
      obtain ⟨last, hrest, hlast, hlogged₂, hremembers'⟩ :=
        useAll_answers hguarded rest hnext hlogged₁
      refine ⟨last, ?_, hlast, hlogged₂, hremembers.trans hremembers'⟩
      rw [useAll, huse]
      show (next.useAll document rest >>= fun p => _) = _
      rw [hrest]
      rfl

end Interpretation

namespace Document

variable {document : Document}

/-- **Cells are written once and do not show.**  A guarded document, interpreted in any way, is
built as a reference to its root, and no definition runs for that.  Any uses of the
interpretation, one after the other, have answers, each the answer of a fresh interpretation.
The log of the definitions that have run, which each enters when it starts, names no cell twice,
and just the cells that have resolved; what one has resolved to is the same after all later
uses.  And while a definition runs, from whatever store, no other is entered, nor is it again. -/
theorem memoized (hguarded : document.Guarded) (A : Type) [Artifact A] [LawfulArtifact A]
    (before after : List Use) :
    (Runs (Lazy.build [] (.ref document.root)) {} (document.interpret (A := A)).artifact
      document.interpret.store ∧ (document.interpret (A := A)).store.runs = []) ∧
    (∃ (answers answers' : List Answer) (i i' : Interpretation A),
      document.interpret.useAll document before = .ok (answers, i) ∧
      i.useAll document after = .ok (answers', i') ∧
      List.Forall₂ (fun use answer => ∃ i, (document.interpret (A := A)).use document use =
        .ok (answer, i)) (before ++ after) (answers ++ answers') ∧
      i.store.Logged ∧ i'.store.Logged ∧ i.store.Remembers i'.store) ∧
    ∀ (k : CellId) (s : Store A) (a : A) (s' : Store A),
      Runs (Lazy.run document.definitions k) s a s' → s'.runs = k :: s.runs := by
  refine ⟨Interpretation.interpret_runs document, ?_, fun k s a s' h => (Lazy.run_logs h).1⟩
  have hlogged : (document.interpret (A := A)).store.Logged := Interpretation.logged_fresh
  obtain ⟨i, hbefore, hi, hlogged₁, _⟩ :=
    Interpretation.Used.useAll_answers hguarded before .fresh hlogged
  obtain ⟨i', hafter, _, hlogged₂, hremembers⟩ :=
    Interpretation.Used.useAll_answers hguarded after hi hlogged₁
  refine ⟨_, _, i, i', hbefore, hafter, ?_, hlogged₁, hlogged₂, hremembers⟩
  rw [← List.map_append, List.forall₂_map_right_iff, List.forall₂_same]
  intro use _
  obtain ⟨fresh, huse, _⟩ :=
    (Interpretation.Used.fresh (A := A)).use_answer hguarded hlogged use
  exact ⟨fresh, huse⟩

/-- A codec that has failed on a broken list and encoded the empty one goes on to refuse the
broken one; both definitions have run once for all three uses. -/
theorem linkedList_memoized :
    ∃ (answers answers' : List Answer) (i i' : Interpretation Codec),
      linkedList.interpret.useAll linkedList [.decode brokenList, .encode .null] =
        .ok (answers, i) ∧
      i.useAll linkedList [.accepts brokenList] = .ok (answers', i') ∧
      i.store.Remembers i'.store ∧ i'.store.Logged ∧ i'.store.runs = [1, 0] := by
  obtain ⟨_, ⟨answers, answers', i, i', hbefore, hafter, _, _, hlogged, hremembers⟩, _⟩ :=
    memoized linkedList_guarded Codec [.decode brokenList, .encode .null] [.accepts brokenList]
  have hruns : ((linkedList.interpret (A := Codec)).useAll linkedList
      [.decode brokenList, .encode .null] >>= fun p => p.2.useAll linkedList
        [.accepts brokenList]).map (fun p => p.2.store.runs) = .ok [1, 0] := rfl
  rw [hbefore] at hruns
  replace hruns : (i.useAll linkedList [.accepts brokenList]).map (fun p => p.2.store.runs) =
    .ok [1, 0] := hruns
  rw [hafter] at hruns
  exact ⟨answers, answers', i, i', hbefore, hafter, hremembers, hlogged, Except.ok.inj hruns⟩

end Document

end Schemata
