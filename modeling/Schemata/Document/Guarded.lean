import Schemata.Document.Basic

/-!
# Guarded documents

A reference is bare where nothing stands between the definition and it that
takes a value apart: under fallbacks, the sides of intersections, the members of
unions and `readonly` only.  A bare reference is decoded on the very value that
the definition is decoded on.  So a definition that reaches itself through bare
references would never come to an end, and a document without such a definition
is guarded.

**Results.**  `Document.Reaches` is the relation between names that bare references
bring about, `Document.Guarded` says that no name is related to itself;
`Document.guarded_of_rank` shows it by numbers that go down.
-/

namespace Schemata

mutual

/-- The names that a definition refers to by bare references. -/
def Definition.bareReferences : Definition → List String
  | .literal _ => []
  | .literals _ => []
  | .literalsOr _ fallback => fallback.bareReferences
  | .primitive _ => []
  | .object _ _ => []
  | .record _ => []
  | .array _ => []
  | .tuple _ => []
  | .intersection left right => left.bareReferences ++ right.bareReferences
  | .sum _ _ => []
  | .union ⟨head, tail⟩ => head.bareReferences ++ bareComponentReferences tail
  | .readonly inner => inner.bareReferences
  | .ref name => [name]

/-- The names that several definitions refer to by bare references. -/
def bareComponentReferences : List Definition → List String
  | [] => []
  | definition :: rest => definition.bareReferences ++ bareComponentReferences rest

end

mutual

/-- A bare reference is a reference. -/
theorem Definition.mem_references_of_bare {name : String} :
    ∀ {definition : Definition},
      name ∈ definition.bareReferences → name ∈ definition.references
  | .literalsOr _ fallback, h => by
      have h : name ∈ fallback.bareReferences := by simpa [Definition.bareReferences] using h
      simpa [Definition.references] using Definition.mem_references_of_bare h
  | .intersection left right, h => by
      have h : name ∈ left.bareReferences ∨ name ∈ right.bareReferences := by
        simpa [Definition.bareReferences] using h
      rw [Definition.references, List.mem_append]
      rcases h with h | h
      · exact .inl (Definition.mem_references_of_bare h)
      · exact .inr (Definition.mem_references_of_bare h)
  | .union ⟨head, tail⟩, h => by
      have h : name ∈ head.bareReferences ∨ name ∈ bareComponentReferences tail := by
        simpa [Definition.bareReferences] using h
      rw [Definition.references, List.mem_append]
      rcases h with h | h
      · exact .inl (Definition.mem_references_of_bare h)
      · exact .inr (mem_componentReferences_of_bare h)
  | .readonly inner, h => by
      have h : name ∈ inner.bareReferences := by simpa [Definition.bareReferences] using h
      simpa [Definition.references] using Definition.mem_references_of_bare h
  | .ref _, h => by simpa [Definition.bareReferences, Definition.references] using h

/-- A bare reference of several definitions is a reference of them. -/
theorem mem_componentReferences_of_bare {name : String} :
    ∀ {definitions : List Definition},
      name ∈ bareComponentReferences definitions → name ∈ componentReferences definitions
  | definition :: rest, h => by
      have h : name ∈ definition.bareReferences ∨ name ∈ bareComponentReferences rest := by
        simpa [bareComponentReferences] using h
      rw [componentReferences, List.mem_append]
      rcases h with h | h
      · exact .inl (Definition.mem_references_of_bare h)
      · exact .inr (mem_componentReferences_of_bare h)

end

namespace Document

/-- Two names are related when bare references lead from the definition of the
first to the second. -/
inductive Reaches (document : Document) : String → String → Prop
  | step {name next : String} {definition : Definition} :
      document.find? name = some definition → next ∈ definition.bareReferences →
      Reaches document name next
  | trans {name next last : String} :
      Reaches document name next → Reaches document next last → Reaches document name last

/-- No definition reaches itself. -/
def Guarded (document : Document) : Prop := ∀ name, ¬ document.Reaches name name

/-- What is reached is defined. -/
theorem Reaches.mem_keys {document : Document} {name last : String}
    (h : document.Reaches name last) : last ∈ document.definitions.keys := by
  induction h with
  | step hfind hmem =>
      refine document.references_mem _ (List.mem_flatMap.2 ?_)
      exact ⟨_, Entries.mem_of_lookup hfind, Definition.mem_references_of_bare hmem⟩
  | trans _ _ _ ih => exact ih

/-- A document is guarded when bare references lead down to names of a lower rank. -/
theorem guarded_of_rank {document : Document} (rank : String → Nat)
    (h : ∀ entry ∈ document.definitions, ∀ next ∈ entry.2.bareReferences,
      rank next < rank entry.1) : document.Guarded := by
  have hreaches : ∀ {name last : String}, document.Reaches name last → rank last < rank name := by
    intro name last hreach
    induction hreach with
    | step hfind hnext => exact h _ (Entries.mem_of_lookup hfind) _ hnext
    | trans _ _ ih ih' => exact Nat.lt_trans ih' ih
  exact fun name hname => Nat.lt_irrefl _ (hreaches hname)

end Document
end Schemata
