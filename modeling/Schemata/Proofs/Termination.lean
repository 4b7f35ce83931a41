import Mathlib.Data.Finset.Card
import Schemata.Document.Interpretation
import Schemata.Document.Meaning
import Schemata.Proofs.Correspondence

/-!
# Guarded documents come to an end

A reference is used on a part of the value, and then the value gets less deep, or it
is bare, and then its name is left for one that it reaches.  In a guarded document
no name reaches itself, so from a name there are fewer names to reach than from
those that reach it (`Document.rank`).

**Results.**

* `Document.decoding_ends` and `Document.encoding_ends`: the meaning of a name has an
  answer on a value at every depth from `Document.cost` on, and it is the same at
  all of them.
* `Document.cost_le_callDepth`: calls of an interpretation may be nested that deep.
-/

namespace Schemata

open Json (Value)

namespace Document

variable {document : Document}

/-! ## The rank of a name -/

open Classical in
/-- The number of names that a name reaches. -/
noncomputable def rank (document : Document) (name : String) : Nat :=
  (document.definitions.keys.toFinset.filter (document.Reaches name)).card

theorem rank_le (name : String) : document.rank name ≤ document.definitions.length := by
  classical
  have hcard := document.definitions.keys.toFinset_card_le
  have hlength : document.definitions.keys.length = document.definitions.length :=
    List.length_map _
  have hfilter : document.rank name ≤ document.definitions.keys.toFinset.card := by
    rw [rank]
    exact Finset.card_filter_le _ _
  omega

theorem rank_lt_of_reaches (hguarded : document.Guarded) {name next : String}
    (h : document.Reaches name next) : document.rank next < document.rank name := by
  classical
  refine Finset.card_lt_card (Finset.ssubset_iff_subset_ne.2 ⟨?_, ?_⟩)
  · intro last hlast
    obtain ⟨hmem, hreach⟩ := Finset.mem_filter.1 hlast
    exact Finset.mem_filter.2 ⟨hmem, h.trans hreach⟩
  · intro heq
    have hnext : next ∈ document.definitions.keys.toFinset.filter (document.Reaches name) :=
      Finset.mem_filter.2 ⟨List.mem_toFinset.2 h.mem_keys, h⟩
    rw [← heq] at hnext
    exact hguarded next (Finset.mem_filter.1 hnext).2

/-! ## The cost of a value -/

/-- How deep references are nested at most when a name is used on a value. -/
noncomputable def cost (document : Document) (name : String) (value : Value) : Nat :=
  value.depth * (document.definitions.length + 1) + document.rank name + 1

theorem cost_lt_of_depth_lt (name next : String) {value inner : Value}
    (h : inner.depth < value.depth) : document.cost next inner < document.cost name value := by
  have hrank := document.rank_le next
  have hmul : (inner.depth + 1) * (document.definitions.length + 1) ≤
      value.depth * (document.definitions.length + 1) := Nat.mul_le_mul_right _ h
  have hsplit : (inner.depth + 1) * (document.definitions.length + 1) =
      inner.depth * (document.definitions.length + 1) + (document.definitions.length + 1) :=
    Nat.succ_mul _ _
  simp only [cost]
  omega

theorem cost_lt_of_bare (hguarded : document.Guarded) {name next : String}
    {definition : Definition} (hfind : document.find? name = some definition)
    (hnext : next ∈ definition.bareReferences) (value : Value) :
    document.cost next value < document.cost name value := by
  have := rank_lt_of_reaches hguarded (.step hfind hnext)
  simp only [cost]
  omega

theorem cost_le_callDepth (name : String) (value : Value) :
    document.cost name value ≤ document.callDepth value := by
  have hrank := document.rank_le name
  have hsplit : (value.depth + 2) * (document.definitions.length + 1) =
      value.depth * (document.definitions.length + 1) + 2 * (document.definitions.length + 1) :=
    Nat.add_mul _ _ _
  simp only [cost, callDepth]
  omega

/-! ## Answers -/

/-- Both computations have an answer, and it is the same. -/
def bothEnd : Correspondence Option Option where
  rel x y := ∃ a, x = some a ∧ y = some a
  pure a := ⟨a, rfl, rfl⟩
  bind {_ _ _ _ f g} hxy hfg := by
    obtain ⟨a, rfl, rfl⟩ := hxy
    exact hfg a

/-- **A guarded document decodes every value.** -/
theorem decoding_ends (hguarded : document.Guarded) :
    ∀ (depth depth' : Nat) (name : String) (value : Value), name ∈ document.definitions.keys →
      document.cost name value ≤ depth → document.cost name value ≤ depth' →
      bothEnd.rel ((document.decoding depth name).decode value)
        ((document.decoding depth' name).decode value)
  | 0, _, _, _, _, h, _ => absurd h (by simp [cost])
  | _ + 1, 0, _, _, _, _, h => absurd h (by simp [cost])
  | depth + 1, depth' + 1, name, value, hname, h, h' => by
      obtain ⟨definition, hfind⟩ := document.exists_find? hname
      rw [decoding_succ hfind, decoding_succ hfind]
      -- Inside of the value any reference is affordable, on the value itself a bare one is.
      have hbody : bothEnd.rel ((definition.fold (document.decoding depth)).decode value)
          ((definition.fold (document.decoding depth')).decode value) := by
        refine definition.fold_outer
          (Decoding.congruence_on bothEnd fun _ _ hv hw => hw.trans hv)
          (Decoding.congruence bothEnd value) ?_ ?_
        · intro next hnext inner hinner
          have hcost := document.cost_lt_of_depth_lt name next hinner
          exact decoding_ends hguarded depth depth' next inner
            (mem_keys_of_reference hfind hnext) (by omega) (by omega)
        · intro next hnext
          have hcost := cost_lt_of_bare hguarded hfind hnext value
          exact decoding_ends hguarded depth depth' next value
            (mem_keys_of_reference hfind (Definition.mem_references_of_bare hnext))
            (by omega) (by omega)
      obtain ⟨outcome, ho, ho'⟩ := hbody
      exact ⟨outcome.under (.lazy name), by rw [ho]; rfl, by rw [ho']; rfl⟩

/-- **A guarded document encodes every value, and accepts it or not.** -/
theorem encoding_ends (hguarded : document.Guarded) :
    ∀ (depth depth' : Nat) (name : String) (value : Value), name ∈ document.definitions.keys →
      document.cost name value ≤ depth → document.cost name value ≤ depth' →
      Encoding.RelAt bothEnd value (document.encoding depth name) (document.encoding depth' name)
  | 0, _, _, _, _, h, _ => absurd h (by simp [cost])
  | _ + 1, 0, _, _, _, _, h => absurd h (by simp [cost])
  | depth + 1, depth' + 1, name, value, hname, h, h' => by
      obtain ⟨definition, hfind⟩ := document.exists_find? hname
      rw [encoding_succ hfind, encoding_succ hfind]
      refine definition.fold_outer
        (Encoding.congruence_on bothEnd fun _ _ hv hw => hw.trans hv)
        (Encoding.congruence bothEnd value) ?_ ?_
      · intro next hnext inner hinner
        have hcost := document.cost_lt_of_depth_lt name next hinner
        exact encoding_ends hguarded depth depth' next inner
          (mem_keys_of_reference hfind hnext) (by omega) (by omega)
      · intro next hnext
        have hcost := cost_lt_of_bare hguarded hfind hnext value
        exact encoding_ends hguarded depth depth' next value
          (mem_keys_of_reference hfind (Definition.mem_references_of_bare hnext))
          (by omega) (by omega)

end Document
end Schemata
