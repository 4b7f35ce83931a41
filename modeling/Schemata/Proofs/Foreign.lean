import Schemata.Proofs.Composition

/-!
# Foreign values

Encoding never fails, so an encoder gives something for a value outside of its domain as
well.  Literals, primitives and unions look at the guard and give the value itself, and so
does a sum for a value that names no member.  Objects, records, arrays, tuples and
intersections do not look at it: they rebuild a value of their shape from its parts and
leave out what they do not declare, even where the guard fails (`person_damages`).

**Input.**  A guarded document and a value that it does not accept.

**Algorithm.**  What a definition keeps of a value is said without its guard, but for the
member by which a union encodes (`Document.Keeps`): of an object the members that are
declared, of an array the items that have a place, and of an intersection what both sides
keep.  A definition that is asked for its guard before it takes the value apart keeps all
of a value that it does not accept.

**Results.**

* `Document.Keeps.encode_eq`: a value is encoded to what a definition keeps of it.
* `Document.Spares`: the definitions that leave a value alone which they do not accept,
  because they keep all of it or ask for a guard first.
* `Document.Spares.keeps_of_rejected`: such a definition keeps all of a value that it does not
  accept.
* `Document.encode_foreign`: so does an interpretation, which leaves a scalar alone in any case.
-/

namespace Schemata

open Json (Value Members)

/-- The members of an object under some keys, in the order of the keys. -/
def Json.Value.taken (keys : List String) (members : Members) : Members :=
  keys.filterMap fun key => (Value.get? key members).map (key, ·)

/-! ## Encoders that change no part -/

namespace Encoding

/-- Fields whose values are encoded to themselves are what an object has of them. -/
theorem encodeFields_eq_taken {members : Members} : ∀ {parts : Entries (Encoding Id)},
    (∀ part ∈ parts, ∀ value, Value.get? part.1 members = some value →
      part.2.encode value = value) →
    encodeFields (m := Id) members parts = Value.taken parts.keys members
  | [], _ => rfl
  | (key, part) :: rest, h => by
      have hrest : encodeFields (m := Id) members rest = Value.taken (Entries.keys rest) members :=
        encodeFields_eq_taken fun part hpart => h part (List.mem_cons_of_mem _ hpart)
      have hkeys : Entries.keys ((key, part) :: rest) = key :: Entries.keys rest := rfl
      rw [hkeys, Value.taken, List.filterMap_cons]
      cases hget : Value.get? key members with
      | some value =>
          rw [encodeFields_of_some hget, hrest, h (key, part) List.mem_cons_self value hget]
          rfl
      | none =>
          rw [encodeFields_of_none hget, hrest]
          rfl

theorem encodeEntries_eq_self {part : Encoding Id} : ∀ {members : Members},
    (∀ member ∈ members, part.encode member.2 = member.2) →
    encodeEntries (m := Id) part members = members
  | [], _ => rfl
  | (key, value) :: rest, h => by
      obtain ⟨hvalue, hrest⟩ := List.forall_mem_cons.1 h
      show (key, part.encode value) :: encodeEntries (m := Id) part rest = _
      rw [hvalue, encodeEntries_eq_self hrest]

theorem encodeAll_eq_self {part : Encoding Id} : ∀ {values : List Value},
    (∀ value ∈ values, part.encode value = value) → encodeAll (m := Id) part values = values
  | [], _ => rfl
  | value :: rest, h => by
      obtain ⟨hvalue, hrest⟩ := List.forall_mem_cons.1 h
      show part.encode value :: encodeAll (m := Id) part rest = _
      rw [hvalue, encodeAll_eq_self hrest]

/-- Items that are encoded to themselves in their places are kept as far as there are places. -/
theorem encodePlaces_eq_take : ∀ {parts : List (Encoding Id)} {values : List Value},
    (∀ place ∈ parts.zip values, place.1.encode place.2 = place.2) →
    encodePlaces (m := Id) parts values = values.take parts.length
  | [], _, _ => rfl
  | part :: parts, [], _ => rfl
  | part :: parts, value :: rest, h => by
      rw [List.zip_cons_cons] at h
      obtain ⟨hvalue, hrest⟩ := List.forall_mem_cons.1 h
      show part.encode value :: encodePlaces (m := Id) parts rest = _
      rw [hvalue, encodePlaces_eq_take hrest, List.length_cons, List.take_succ_cons]

/-- A union encodes by the first member that accepts the value. -/
theorem encodeFirst_eq (value : Value) : ∀ es : List (Encoding Id),
    encodeFirst (m := Id) value es =
      ((es.find? fun e => e.accepts value).map fun e => e.encode value).getD value
  | [] => rfl
  | e :: es => by
      rw [List.find?_cons]
      cases haccepts : (e.accepts value : Bool) with
      | true => exact encodeFirst_of_accepts haccepts es
      | false => exact (encodeFirst_of_rejects haccepts es).trans (encodeFirst_eq value es)

theorem find?_eq_none_of_rejects {value : Value} : ∀ {es : List (Encoding Id)},
    acceptsAny (m := Id) value es = false → (es.find? fun e => e.accepts value) = none
  | [], _ => rfl
  | e :: es, h => by
      rw [acceptsAny_cons, Bool.or_eq_false_iff] at h
      rw [List.find?_cons, h.1]
      exact find?_eq_none_of_rejects h.2

end Encoding

/-! ## What definitions keep -/

namespace Document

/-- The member by which a union encodes a value. -/
def encodingMember? (document : Document) (members : NonEmpty Definition) (value : Value) :
    Option Definition :=
  members.toList.find? fun member => (member.fold document.encoder).accepts value

/-- What a definition keeps of a value, where it changes no part of it: all of the value, or of
an object the members that are declared, and of an array the items that have a place. -/
inductive Keeps (document : Document) : Value → Definition → Value → Prop
  | literal (literal : Literal) {value : Value} : Keeps document value (.literal literal) value
  | literals (values : NonEmpty Literal) {value : Value} :
      Keeps document value (.literals values) value
  | matched {values : NonEmpty Literal} (fallback : Definition) {value : Value} :
      values.toList.any (·.isMatch value) = true →
      Keeps document value (.literalsOr values fallback) value
  | literalsOr {values : NonEmpty Literal} {fallback : Definition} {value kept : Value} :
      values.toList.any (·.isMatch value) = false → Keeps document value fallback kept →
      Keeps document value (.literalsOr values fallback) kept
  | primitive (kind : Primitive) {value : Value} : Keeps document value (.primitive kind) value
  | object (kind : FieldKind) {fields : List (String × Definition)} {members : Members} :
      (∀ field ∈ Entries.ofList fields, ∀ inner, Value.get? field.1 members = some inner →
        Keeps document inner field.2 inner) →
      Keeps document (.object members) (.object kind fields)
        (.object (Value.taken (Entries.ofList fields).keys members))
  | noObject (kind : FieldKind) (fields : List (String × Definition)) {value : Value} :
      value.members? = none → Keeps document value (.object kind fields) value
  | record {codomain : Definition} {members : Members} :
      (∀ member ∈ members, Keeps document member.2 codomain member.2) →
      Keeps document (.object members) (.record codomain) (.object members)
  | noRecord (codomain : Definition) {value : Value} :
      value.members? = none → Keeps document value (.record codomain) value
  | array {item : Definition} {items : List Value} :
      (∀ inner ∈ items, Keeps document inner item inner) →
      Keeps document (.array items) (.array item) (.array items)
  | noArray (item : Definition) {value : Value} :
      value.items? = none → Keeps document value (.array item) value
  | tuple {components : List Definition} {items : List Value} :
      (∀ place ∈ components.zip items, Keeps document place.2 place.1 place.2) →
      Keeps document (.array items) (.tuple components) (.array (items.take components.length))
  | noTuple (components : List Definition) {value : Value} :
      value.items? = none → Keeps document value (.tuple components) value
  | intersection {left right : Definition} {value a b : Value} :
      Keeps document value left a → Keeps document value right b →
      Keeps document value (.intersection left right) (merge a b)
  | sum {tag : String} {members : List (String × ObjectDefinition)} {value kept : Value}
      {member : ObjectDefinition} :
      Decoding.memberOf? tag (.ofList members) value = some member →
      Keeps document value member.definition kept →
      Keeps document value (.sum tag members) kept
  | unnamed {tag : String} {members : List (String × ObjectDefinition)} {value : Value} :
      Decoding.memberOf? tag (.ofList members) value = none →
      Keeps document value (.sum tag members) value
  | union {members : NonEmpty Definition} {value kept : Value} {member : Definition} :
      document.encodingMember? members value = some member → Keeps document value member kept →
      Keeps document value (.union members) kept
  | unaccepted {members : NonEmpty Definition} {value : Value} :
      document.encodingMember? members value = none → Keeps document value (.union members) value
  | readonly {inner : Definition} {value kept : Value} :
      Keeps document value inner kept → Keeps document value (.readonly inner) kept
  | ref {name : String} {definition : Definition} {value kept : Value} :
      document.find? name = some definition → Keeps document value definition kept →
      Keeps document value (.ref name) kept

/-- Definitions that leave a value alone unless they accept it: they keep all of it, or they ask
for a guard before they take it apart. -/
inductive Spares (document : Document) (value : Value) : Definition → Prop
  | keeps {definition : Definition} :
      Keeps document value definition value → Spares document value definition
  | literalsOr (values : NonEmpty Literal) {fallback : Definition} :
      Spares document value fallback → Spares document value (.literalsOr values fallback)
  | sum {tag : String} {members : List (String × ObjectDefinition)} :
      (∀ member, Decoding.memberOf? tag (.ofList members) value = some member →
        Spares document value member.definition) →
      Spares document value (.sum tag members)
  | union (members : NonEmpty Definition) : Spares document value (.union members)
  | readonly {inner : Definition} :
      Spares document value inner → Spares document value (.readonly inner)
  | ref {name : String} {definition : Definition} : document.find? name = some definition →
      Spares document value definition → Spares document value (.ref name)

variable {document : Document} {value : Value}

theorem fold_union (members : NonEmpty Definition) :
    (Definition.union members).fold document.encoder =
      Encoding.union (members.map (Definition.fold document.encoder)) := by
  obtain ⟨head, tail⟩ := members
  rw [Definition.fold, foldComponents_eq_map]
  rfl

/-- A union encodes by the member that it finds. -/
theorem encode_union (members : NonEmpty Definition) :
    ((Definition.union members).fold document.encoder).encode value =
      ((document.encodingMember? members value).map fun member =>
        (member.fold document.encoder).encode value).getD value := by
  rw [fold_union]
  show Encoding.encodeFirst (m := Id) value (members.map _).toList = _
  rw [Encoding.encodeFirst_eq, NonEmpty.toList_map, List.find?_map, Option.map_map]
  rfl

theorem encodingMember?_eq_none {members : NonEmpty Definition}
    (h : ((Definition.union members).fold document.encoder).accepts value = false) :
    document.encodingMember? members value = none := by
  rw [fold_union] at h
  have hnone := Encoding.find?_eq_none_of_rejects h
  rwa [NonEmpty.toList_map, List.find?_map, Option.map_eq_none_iff] at hnone

/-- **A value is encoded to what a definition keeps of it.** -/
theorem Keeps.encode_eq (hguarded : document.Guarded) {value kept : Value}
    {definition : Definition} (h : document.Keeps value definition kept) :
    (definition.fold document.encoder).encode value = kept := by
  induction h with
  | literal literal =>
      rw [Definition.fold]
      rfl
  | literals values =>
      rw [Definition.fold]
      rfl
  | matched fallback hmatch =>
      rw [Definition.fold]
      exact if_pos hmatch
  | literalsOr hmatch _ ih =>
      rw [Definition.fold]
      exact (if_neg (Bool.eq_false_iff.1 hmatch)).trans ih
  | primitive kind =>
      rw [Definition.fold]
      rfl
  | @object kind fields members _ ih =>
      rw [Definition.fold, ofList_foldFields]
      refine congrArg Value.object ?_
      rw [← Entries.keys_mapValues (Definition.fold document.encoder)]
      refine Encoding.encodeFields_eq_taken fun part hpart inner hinner => ?_
      obtain ⟨field, hfield, rfl⟩ := List.mem_map.1 hpart
      exact ih field hfield inner hinner
  | @noObject _ _ value hmembers =>
      rw [Definition.fold]
      cases value with
      | object _ => cases hmembers
      | _ => rfl
  | record _ ih =>
      rw [Definition.fold]
      exact congrArg Value.object (Encoding.encodeEntries_eq_self ih)
  | @noRecord _ value hmembers =>
      rw [Definition.fold]
      cases value with
      | object _ => cases hmembers
      | _ => rfl
  | array _ ih =>
      rw [Definition.fold]
      exact congrArg Value.array (Encoding.encodeAll_eq_self ih)
  | @noArray _ value hitems =>
      rw [Definition.fold]
      cases value with
      | array _ => cases hitems
      | _ => rfl
  | @tuple components items _ ih =>
      rw [Definition.fold, foldComponents_eq_map]
      refine congrArg Value.array ?_
      rw [← List.length_map (Definition.fold document.encoder)]
      refine Encoding.encodePlaces_eq_take fun place hplace => ?_
      rw [List.zip_map_left] at hplace
      obtain ⟨kept, hkept, rfl⟩ := List.mem_map.1 hplace
      exact ih kept hkept
  | @noTuple _ value hitems =>
      rw [Definition.fold]
      cases value with
      | array _ => cases hitems
      | _ => rfl
  | intersection _ _ ihleft ihright =>
      rw [Definition.fold]
      exact congrArg₂ merge ihleft ihright
  | @sum tag members value kept member hnamed _ ih =>
      have hmember := memberOf?_foldMembers document.encoder tag members value
      rw [hnamed, Option.map_some] at hmember
      rw [member.fold_definition] at ih
      rw [Definition.fold]
      exact (Encoding.encode_sum hmember).trans ih
  | @unnamed tag members value hnamed =>
      have hmember := memberOf?_foldMembers document.encoder tag members value
      rw [hnamed, Option.map_none] at hmember
      rw [Definition.fold]
      show (Encoding.sum tag (.ofList (foldMembers document.encoder members))).encode value = value
      simp only [Encoding.sum, hmember]
      rfl
  | union hmember _ ih =>
      rw [encode_union, hmember]
      exact ih
  | unaccepted hmember =>
      rw [encode_union, hmember]
      rfl
  | readonly _ ih =>
      rw [Definition.fold]
      exact ih
  | ref hfind _ ih =>
      rw [Definition.fold, (encoder_of_find? hguarded hfind _).1]
      exact ih

/-- **What is spared and not accepted is kept.** -/
theorem Spares.keeps_of_rejected (hguarded : document.Guarded) {definition : Definition}
    (h : document.Spares value definition)
    (hrejected : (definition.fold document.encoder).accepts value = false) :
    document.Keeps value definition value := by
  induction h with
  | keeps hkeeps => exact hkeeps
  | @literalsOr values fallback _ ih =>
      rw [Definition.fold] at hrejected
      replace hrejected : (if values.toList.any (·.isMatch value) then true
        else (fallback.fold document.encoder).accepts value) = false := hrejected
      split at hrejected
      case isTrue => cases hrejected
      case isFalse hmatch => exact .literalsOr (Bool.eq_false_iff.2 hmatch) (ih hrejected)
  | @sum tag members _ ih =>
      cases hnamed : Decoding.memberOf? tag (.ofList members) value with
      | none => exact .unnamed hnamed
      | some member =>
          have hmember := memberOf?_foldMembers document.encoder tag members value
          rw [hnamed, Option.map_some] at hmember
          rw [Definition.fold] at hrejected
          refine .sum hnamed (ih member hnamed ?_)
          rw [member.fold_definition]
          exact (Encoding.accepts_sum hmember).symm.trans hrejected
  | union members => exact .unaccepted (encodingMember?_eq_none hrejected)
  | readonly _ ih =>
      rw [Definition.fold] at hrejected
      exact .readonly (ih hrejected)
  | ref hfind _ ih =>
      rw [Definition.fold, (encoder_of_find? hguarded hfind value).2] at hrejected
      exact .ref hfind (ih hrejected)

/-- **Foreign values that are left alone.**  A value that a used interpretation of a guarded
document does not accept is encoded to itself if it is a scalar, or if the root spares
it. -/
theorem encode_foreign (hguarded : document.Guarded) {i i' : Interpretation Blueprint}
    (hi : i.Used document) {value : Value}
    (haccepts : i.accepts document value = .ok (false, i'))
    (hspares : value.isScalar = true ∨ document.Spares value (.ref document.root)) :
    ∃ j, i'.encode document value = .ok (value, j) := by
  obtain ⟨_, hanswer, _⟩ := hi.accepts_answer hguarded value
  obtain ⟨hroot, _⟩ := Prod.mk.inj (Except.ok.inj (hanswer.symm.trans haccepts))
  obtain ⟨j, hencode, _⟩ := (hi.accepts haccepts).encode_answer hguarded value
  have hvalue : ((Definition.ref document.root).fold document.encoder).encode value = value := by
    rcases hspares with hscalar | hspares
    · refine fold_encode_scalar hguarded (fun name hname => ?_) hscalar
      rw [Definition.references, List.mem_singleton] at hname
      exact hname ▸ document.root_mem
    · refine (hspares.keeps_of_rejected hguarded ?_).encode_eq hguarded
      rw [Definition.fold]
      exact hroot
  rw [Definition.fold] at hvalue
  rw [hvalue] at hencode
  exact ⟨j, hencode⟩

/-- A mail address or a telephone number, under a name. -/
def contact : Document where
  root := "Contact"
  definitions := [
    ("Contact", .intersection
      (.union ⟨.object .required [("mail", .primitive .string)],
        [.object .required [("telephone", .primitive .string)]]⟩)
      (.object .required [("name", .primitive .string)]))]
  root_mem := by decide
  references_mem := by decide

theorem contact_guarded : contact.Guarded := guarded_of_rank (fun _ => 0) (by decide)

/-- Numbers under a name.  Neither member of the union accepts them, though each would leave
something out, and the other side keeps the name. -/
def numbers : Value :=
  .object [("mail", .number (.integer 1)), ("telephone", .number (.integer 2)),
    ("name", .string "Ann")]

theorem contact_spares :
    ∃ i j : Interpretation Blueprint,
      contact.interpret.accepts contact numbers = .ok (false, i) ∧
        i.encode contact numbers = .ok (numbers, j) := by
  have hfresh : (contact.interpret (A := Blueprint)).Used contact := .fresh
  obtain ⟨i, haccepts, _⟩ := hfresh.accepts_answer contact_guarded numbers
  have hname : ∀ field ∈ Entries.ofList [("name", Definition.primitive .string)], ∀ inner,
      Value.get? field.1 [("mail", .number (.integer 1)), ("telephone", .number (.integer 2)),
        ("name", .string "Ann")] = some inner → contact.Keeps inner field.2 inner :=
    List.forall_mem_singleton.2 fun _ _ => .primitive .string
  have hspares : contact.Spares numbers (.ref contact.root) :=
    .ref rfl (.keeps (.intersection (.unaccepted rfl) (.object .required hname)))
  obtain ⟨j, hencode⟩ := encode_foreign contact_guarded hfresh haccepts (.inr hspares)
  exact ⟨i, j, haccepts, hencode⟩

/-- Persons by their name. -/
def person : Document where
  root := "Person"
  definitions := [("Person", .object .required [("name", .primitive .string)])]
  root_mem := by decide
  references_mem := by decide

theorem person_guarded : person.Guarded := guarded_of_rank (fun _ => 0) (by decide)

/-- An object without a proper name is not accepted, and loses its age when encoded. -/
theorem person_damages :
    person.Guarded ∧ ∃ i j : Interpretation Blueprint,
      let nameless : Value :=
        .object [("name", .number (.integer 1)), ("age", .number (.integer 2))]
      person.interpret.accepts person nameless = .ok (false, i) ∧
        i.encode person nameless = .ok (.object [("name", .number (.integer 1))], j) := by
  obtain ⟨i, haccepts, hi⟩ := (Interpretation.Used.fresh (A := Blueprint)).accepts_answer
    person_guarded (.object [("name", .number (.integer 1)), ("age", .number (.integer 2))])
  obtain ⟨j, hencode, _⟩ := hi.encode_answer person_guarded
    (.object [("name", .number (.integer 1)), ("age", .number (.integer 2))])
  exact ⟨person_guarded, i, j, haccepts, hencode⟩

end Document

end Schemata
