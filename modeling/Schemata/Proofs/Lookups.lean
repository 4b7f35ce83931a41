import Schemata.Document.Interpretation
import Schemata.Proofs.Lazy.Legibility
import Schemata.Proofs.Mentions

/-!
# Documents define what their use looks up

Definitions are checked for the names that they mention before anything runs; bodies look names up
when they run, which may be many calls later and as deep as a value goes.

**Input.**  Any root and definitions, and any requests to an interpretation of their document, one
after the other.

**Algorithm.**  The fresh store of an interpretation is legible.  Each request keeps it so and
comes to an end, or is nested too deep (`Regime.use_ensures`, `write_legible`); so do all.

**Results.**

* `Document.interpret_legible`: a fresh interpretation is legible.
* `Lazy.requestAll_legible`: what a sequence of requests preserves.
* `Document.checks_lookups`: which definitions make documents, and that requests to documents miss
  no definition.
-/

namespace Schemata

open Lazy (Halt Store Runs Ensures)

/-! ## Requests -/

namespace Lazy

variable {A : Type} [Artifact A]

/-- What comes of requests one after the other, each with a depth of its own. -/
def requestAll (definitions : Entries Definition) (artifact : A) :
    List (Nat × Request) → Run A (List (Answer ⊕ Node))
  | [] => pure []
  | (depth, what) :: rest => do
      let first ← request definitions artifact depth what
      let others ← requestAll definitions artifact rest
      pure (first :: others)

variable [ThoroughArtifact A] {definitions : Entries Definition} {a : A}

/-- **Requests one after the other come to an end**, unless cells are nested too deep, and leave a
legible store. -/
theorem requestAll_legible (hcomplete : Complete definitions) : ∀ (whats : List (Nat × Request))
    (s : Store A), s.Legible definitions →
      (∀ leaf ∈ Artifact.leaves a, leaf.cell < s.cells.size) →
      Ensures (requestAll definitions a whats) s (fun halt => halt = .depth) fun _ s' =>
        s'.Legible definitions ∧ s.Grows s'
  | [], s, hs, _ => .of_runs (.pure [] s) ⟨hs, .refl s⟩
  | (depth, what) :: rest, s, hs, ha => by
      refine (request_legible hcomplete hs ha depth what).bind fun first s₁ _ ⟨hs₁, hgrow₁⟩ => ?_
      have hrest := requestAll_legible hcomplete rest s₁ hs₁ fun leaf hleaf =>
        hgrow₁.ages.lt (ha leaf hleaf)
      refine hrest.bind fun others s₂ _ ⟨hs₂, hgrow₂⟩ => ?_
      exact .of_runs (.pure _ s₂) ⟨hs₂, hgrow₁.trans hgrow₂⟩

end Lazy

/-! ## Documents -/

namespace Document

variable {A : Type} [Artifact A] (document : Document)

/-- **A fresh interpretation is legible**: its only cell is for the root, which is defined. -/
theorem interpret_legible : (document.interpret (A := A)).store.Legible document.definitions where
  cells k c hc := by
    replace hc : #[(⟨document.root, .definition, [], none, false⟩ : Lazy.Cell A)][k]? = some c := hc
    rw [Array.getElem?_singleton] at hc
    split at hc
    · obtain rfl := Option.some.inj hc
      exact {
        body := document.root_mem
        scope := fun _ he => nomatch he
        given := fun _ hb => nomatch hb
        resolved := fun _ hb => nomatch hb }
    · cases hc
  holds a ha := by
    rcases ha with ha | ⟨_, ha⟩ <;> cases ha

variable [ThoroughArtifact A]

/-- **Definitions are checked for what their use looks up.**  They make a document when its root
and all names that they mention are defined, else it is said which is not: the root, or the name
at the first place with one that is not.  Requests to an interpretation of a document, one after
the other, never miss a definition: they come to an end, or calls are nested too deep. -/
theorem checks_lookups (root : String) (definitions : Entries Definition) :
    ((∃ document, ofDefinitions root definitions = .ok document) ↔
      root ∈ definitions.keys ∧
        ∀ place name, definitions.Mentions place name → name ∈ definitions.keys) ∧
    (∀ error, ofDefinitions root definitions = .error error ↔
      (root ∉ definitions.keys ∧ error = .unknownRoot root) ∨
      (root ∈ definitions.keys ∧ ∃ place name, error = .unknownReference name ∧
        definitions.Mentions place name ∧ name ∉ definitions.keys ∧
          ∀ earlier other, earlier < place → definitions.Mentions earlier other →
            other ∈ definitions.keys)) ∧
    ∀ document, ofDefinitions root definitions = .ok document →
      ∀ requests : List (Nat × Lazy.Request),
        let interpretation := document.interpret (A := A)
        let call := Lazy.requestAll document.definitions interpretation.artifact requests
        (∃ answers store, Runs call interpretation.store answers store) ∨
          call interpretation.store = .error .depth := by
  refine ⟨exists_ofDefinitions, fun _ => ofDefinitions_error, fun document _ requests => ?_⟩
  intro interpretation call
  have howner : ∀ leaf ∈ Artifact.leaves interpretation.artifact,
      leaf.cell < interpretation.store.cells.size := by
    intro leaf hleaf
    obtain rfl := Artifact.mem_leaves_owner.1 hleaf
    exact Nat.one_pos
  have hall := Lazy.requestAll_legible document.references_mem requests _
    document.interpret_legible howner
  cases hcall : call interpretation.store with
  | ok p => exact .inl ⟨p.1, p.2, hcall⟩
  | error halt => exact .inr (congrArg _ (hall.error hcall))

/-- Binary trees, as a sum whose members refer to the sum. -/
def tree : Definition :=
  .sum "kind" [("leaf", .unknown), ("fork", .object .required
    [("left", .ref "tree"), ("right", .ref "tree")])]

/-- Trees make a document, whose codec can be asked for sources and for values in any order; with
members that refer to other trees they make none. -/
theorem tree_lookups :
    ofDefinitions "tree"
        [("tree", tree), ("pair", .tuple [.ref "tree", .ref "left", .ref "right"])] =
          .error (.unknownReference "left") ∧
      ∃ document, ofDefinitions "tree" [("tree", tree)] = .ok document ∧
        let interpretation := document.interpret (A := Codec)
        let call := Lazy.requestAll document.definitions interpretation.artifact
          [(2, .source "s"), (2, .use (.decode .null)), (1, .use (.encode .null)), (3, .source "s")]
        (∃ answers store, Runs call interpretation.store answers store) ∨
          call interpretation.store = .error .depth := by
  have hdocument : ofDefinitions "tree" [("tree", tree)] =
      .ok ⟨"tree", [("tree", tree)], by decide, by decide⟩ := rfl
  obtain ⟨_, _, hrequests⟩ := checks_lookups (A := Codec) "tree" [("tree", tree)]
  exact ⟨rfl, _, hdocument, hrequests _ hdocument _⟩

end Document

end Schemata
