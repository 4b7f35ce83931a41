import Schemata.Proofs.Capture
import Schemata.Proofs.Identifiers

/-!
# Which literals are shadowed in generated source

A literal that is no text can be written as a word: null, a truth value, or a number that is not
finite.  Where a function around it, or the root, has that word for its identifier, the word is
no longer the literal.

**Input.**  Documents with definitions of any names, on any root identifier.

**Algorithm.**  Null and the truth values are reserved words, and no identifier is one.  The words
of numbers are not reserved, and they are their own identifiers; so they are captured by the names
that they spell, and by no other name.

**Results.**

* `Literal.isWritten_iff`: which literals are written as words.
* `Node.Place.captures_iff`: which words are captured at a place, and by what.
* `Document.words_captured`: the same for the places of the source of a document.
* `Document.infinity_captured`: a document for which a word is captured.
-/

namespace Schemata

namespace Literal

open Node (IsWord)

/-- A literal is written as a word, or as a minus sign and that word. -/
def IsWritten (literal : Literal) (word : String) : Prop :=
  IsWord word ∧ (literal.source = word ∨ literal.source = "-" ++ word)

/-- The word of a number. -/
def numberWord? (value : Float) : Option String :=
  if value.isNaN then some "NaN" else if value.isInf then some "Infinity" else none

/-- The word as which a literal is written. -/
def word? : Literal → Option String
  | .null => some "null"
  | .bool value => some (if value then "true" else "false")
  | .number value => numberWord? value
  | .string _ => none

theorem numberWord?_eq_some {value : Float} {word : String} (h : numberWord? value = some word) :
    word = "NaN" ∨ word = "Infinity" := by
  rw [numberWord?] at h
  split at h
  · exact .inl (Option.some.inj h).symm
  · split at h
    · exact .inr (Option.some.inj h).symm
    · cases h

theorem unsigned_of_isWord {word : String} (h : IsWord word) : word.toList.head? ≠ some '-' := by
  intro hsign
  exact absurd (h.parts '-' (List.mem_of_mem_head? hsign)) (by decide)

theorem signed_false (text : String) : signed False text = text := String.empty_append

/-- A literal that is written as a word is that word, a minus sign before it aside. -/
theorem IsWritten.eq_text {literal : Literal} {text word : String} {negative : Prop}
    [Decidable negative] (h : literal.IsWritten word)
    (hsource : literal.source = signed negative text) (htext : text.toList.head? ≠ some '-') :
    text = word := by
  obtain ⟨hword, hplain | hsign⟩ := h
  · rw [hsource, ← signed_false word] at hplain
    exact (signed_unique htext (unsigned_of_isWord hword) hplain).2
  · have hsigned : signed True word = "-" ++ word := rfl
    rw [hsource, ← hsigned] at hsign
    exact (signed_unique htext (unsigned_of_isWord hword) hsign).2

theorem isWritten_signed {literal : Literal} {text word : String} {negative : Prop}
    [Decidable negative] (hsource : literal.source = signed negative text) (hform : IsWord text) :
    literal.IsWritten word ↔ text = word := by
  constructor
  · exact fun h => h.eq_text hsource (unsigned_of_isWord hform)
  · rintro rfl
    refine ⟨hform, ?_⟩
    rw [hsource, signed]
    split
    · exact .inr rfl
    · exact .inl String.empty_append

theorem isWritten_source {literal : Literal} {word : String} (hform : IsWord literal.source) :
    literal.IsWritten word ↔ literal.source = word :=
  isWritten_signed (signed_false _).symm hform

theorem number_isWritten_iff {value : Float} {word : String} :
    (number value).IsWritten word ↔ numberWord? value = some word := by
  cases hnan : value.isNaN with
  | true =>
      have hsource : (number value).source = "NaN" := by rw [source, numberSource, hnan, if_pos rfl]
      rw [numberWord?, hnan, if_pos rfl, Option.some_inj, ← hsource]
      exact isWritten_source (hsource ▸ by decide)
  | false =>
      have hsource : (number value).source = _ := numberSource_eq hnan
      rw [numberWord?, hnan, if_neg Bool.false_ne_true]
      cases hinf : value.isInf with
      | true =>
          rw [hinf, if_pos rfl] at hsource
          rw [if_pos rfl, Option.some_inj]
          exact isWritten_signed hsource (by decide)
      | false =>
          -- The text of a finite number begins with a digit, as no word does.
          rw [hinf, if_neg Bool.false_ne_true] at hsource
          rw [if_neg Bool.false_ne_true]
          refine iff_of_false (fun h => ?_) (Option.some_ne_none word).symm
          obtain rfl := h.eq_text hsource (magnitudeText_unsigned value)
          obtain ⟨c, hc, hdigit⟩ := head?_magnitudeText value
          rw [h.1.begins c hc] at hdigit
          cases hdigit

/-- **Which literals are written as words**: null, the truth values, and the numbers that are not
finite. -/
theorem isWritten_iff {literal : Literal} {word : String} :
    literal.IsWritten word ↔ literal.word? = some word := by
  cases literal with
  | null => exact (isWritten_source (by decide)).trans Option.some_inj.symm
  | bool value =>
      refine (isWritten_source ?_).trans Option.some_inj.symm
      cases value <;> decide
  | number value => exact number_isWritten_iff
  | string text =>
      refine iff_of_false (fun h => ?_) nofun
      have hquote : (string text).source.toList = '"' :: _ := Node.toList_stringSource text
      have hsign : (string text).source.toList.head? ≠ some '-' := by
        rw [hquote]
        exact fun h => absurd (Option.some.inj h) (by decide)
      obtain rfl := h.eq_text (signed_false _).symm hsign
      have hpart := h.1.parts '"' (by rw [hquote]; exact List.mem_cons_self)
      exact absurd hpart (by decide)

/-- The words of numbers are those that are not reserved. -/
theorem word?_eq_some {literal : Literal} {word : String} (h : literal.word? = some word)
    (hfree : word ∉ Node.reservedWords) :
    ∃ value, literal = .number value ∧ numberWord? value = some word := by
  cases literal with
  | null =>
      obtain rfl := Option.some.inj h
      exact absurd (by decide) hfree
  | bool value =>
      obtain rfl := Option.some.inj h
      exact absurd (by cases value <;> decide) hfree
  | number value => exact ⟨value, rfl, h⟩
  | string text => cases h

end Literal

namespace Node

open Literal (numberWord? numberWord?_eq_some)

/-! ## Captured words -/

/-- At a place stands a literal that is written as a word, and that word is the identifier of the
root or of a function around the place. -/
def Place.Captures (root : String) (place : Place) (word : String) : Prop :=
  ∃ literal, place.node = .literal literal ∧ literal.IsWritten word ∧
    word ∈ (root :: place.scope).map identifier

/-- The words of numbers are their own identifiers. -/
theorem identifier_numberWord {value : Float} {word : String} (h : numberWord? value = some word) :
    identifier word = word := by
  rcases numberWord?_eq_some h with rfl | rfl <;> decide

/-- **Which words are captured**: those of numbers, where the root or a function around has that
very name. -/
theorem Place.captures_iff {root word : String} {place : Place} :
    place.Captures root word ↔
      (∃ value, place.node = .literal (.number value) ∧ numberWord? value = some word) ∧
        word ∈ root :: place.scope := by
  constructor
  · rintro ⟨literal, hnode, hwritten, hmem⟩
    obtain ⟨name, hname, hidentifier⟩ := List.mem_map.1 hmem
    have hfree : word ∉ reservedWords := hidentifier ▸ (identifier_legal name).free
    obtain ⟨value, rfl, hvalue⟩ :=
      Literal.word?_eq_some (Literal.isWritten_iff.1 hwritten) hfree
    have hsame : name = word := identifier_injective
      (hidentifier.trans (identifier_numberWord hvalue).symm)
    exact ⟨⟨value, hnode, hvalue⟩, hsame ▸ hname⟩
  · rintro ⟨⟨value, hnode, hvalue⟩, hmem⟩
    refine ⟨.number value, hnode, Literal.number_isWritten_iff.2 hvalue, ?_⟩
    exact List.mem_map.2 ⟨word, hmem, identifier_numberWord hvalue⟩

/-- A function whose name is a word of numbers is that of the definition of this name. -/
theorem definitionName_eq_numberWord {id root word : String} {value : Float}
    (hvalue : numberWord? value = some word) (h : definitionName id root = word) : id = word := by
  rcases definitionName_cases id root with ⟨n, _, hname⟩ | ⟨_, hname⟩
  · -- A renamed function ends with an underscore, and no word of numbers does.
    have hlast := congrArg (fun name => name.toList.getLast?) (hname.symm.trans h)
    rw [String.toList_append] at hlast
    rcases numberWord?_eq_some hvalue with rfl | rfl <;> simp at hlast
  · rw [← hname, h]

end Node

namespace Document

open Literal (numberWord?)
open Node (Place definitionName)

/-- At every place in the source of a document the functions around are those of definitions. -/
theorem source_places (document : Document) (root : String) :
    ∃ node, document.source root = .ok node ∧
      ∀ place, (Place.top node).Leads place → ∃ around, place.Inside document root around := by
  obtain ⟨node, hnode, _⟩ := document.expansion_valid root document.sourceDepth []
    document.root document.root_mem (.root document)
  have hsettled := (writes_expansion root document.sourceDepth [] document.root node hnode).settled
  refine ⟨node, source_eq hnode, fun place hleads => ?_⟩
  obtain ⟨around, hinside, _⟩ := hsettled (.top node) rfl
    ⟨rfl, rfl, List.nodup_nil, List.nil_subset _⟩ place hleads
  exact ⟨around, hinside⟩

/-- **Words are captured by definitions of their names only.**  The source of a document comes to
an end.  At a place in it a word is captured exactly if it is that of a number that is not finite
and the root has this name, or the definition of this name has its function around the place.  So
null and the truth values always keep their meaning, and all literals do where neither the root nor
a definition is named as a number that is not finite. -/
theorem words_captured (document : Document) (root : String) :
    ∃ node, document.source root = .ok node ∧
      ∀ place, (Place.top node).Leads place → ∀ word, place.Captures root word ↔
        (∃ value, place.node = .literal (.number value) ∧ numberWord? value = some word) ∧
          (word = root ∨ word ∈ place.scope ∧ word ∈ document.definitions.keys) := by
  obtain ⟨node, hnode, hplaces⟩ := document.source_places root
  refine ⟨node, hnode, fun place hleads word => ?_⟩
  obtain ⟨around, hinside⟩ := hplaces place hleads
  rw [Place.captures_iff, List.mem_cons]
  refine and_congr_right fun ⟨value, _, hvalue⟩ => or_congr_right ?_
  refine ⟨fun hmem => ⟨hmem, ?_⟩, And.left⟩
  rw [hinside.scope] at hmem
  obtain ⟨id, hid, hname⟩ := List.mem_map.1 hmem
  rw [← Node.definitionName_eq_numberWord hvalue hname]
  exact hinside.defined hid

/-- A document of the infinite number, by its name. -/
def infinite : Document where
  root := "Infinity"
  definitions := [("Infinity", .literal (.number Decimal.infinity))]
  root_mem := List.mem_singleton_self _
  references_mem := List.forall_mem_nil _

/-- The infinite number stands in a function that is written as it is. -/
theorem infinity_captured :
    ∃ node place, infinite.source "schemable" = .ok node ∧
      node.render = "schemable.lazy(\"Infinity\", " ++
        "function Infinity() \x7b return schemable.literal(Infinity); \x7d)" ∧
      (Place.top node).Leads place ∧ place.Captures "schemable" "Infinity" := by
  let literal : Node := .literal (.number Decimal.infinity)
  let body : Node := .method "schemable" "literal" [literal]
  let function : Node := .function "Infinity" body
  let node : Node := .method "schemable" "lazy" [.literal (.string "Infinity"), function]
  let place : Place := (((Place.top node).part function).part body).part literal
  have hcalled : ∀ {arg callee : Node} {args : List Node}, arg ∈ args →
      arg ∈ (Node.call callee args).parts := fun harg => List.mem_cons_of_mem _ harg
  have hleads : (Place.top node).Leads place :=
    .head (.part (hcalled (List.mem_cons_of_mem _ (List.mem_singleton_self _))))
      (.head (.part (List.mem_singleton_self _))
        (.single (.part (hcalled (List.mem_singleton_self _)))))
  refine ⟨node, place, source_eq rfl, by decide +kernel, hleads, ?_⟩
  exact Place.captures_iff.2
    ⟨⟨_, rfl, by decide⟩, List.mem_cons_of_mem _ (List.mem_singleton_self _)⟩

end Document
end Schemata
