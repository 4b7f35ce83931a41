import Schemata.Document.Json

/-!
# Documents survive being written and read

**Input.**  A document whose numbers are finite.  A map has no two entries of one key, so neither
have the fields of its definitions, the members of its sums and the definitions themselves.

**Algorithm.**  Writing gives an object of a kind and its parts, and reading finds the kind first
and then takes each part by its name.  The two meet at `Tagged`: a value is the object of a kind,
its members are read as the parts of this kind one by one, and these make up the definition.

**Results.**

* `Tagged.found`, `Tagged.readDefinition`: what is read from the object of a kind.
* `any_tagged`, `object_tagged`: a definition is written as the object of its kind.
* `read_written`: a document is read back from its value, in the order in which it was.
-/

namespace Schemata

open Json (Value Source)
open Shape (Reading)

/-- A reading that succeeds hands on what it gives. -/
theorem Shape.ok_bind {α β : Type} (value : α) (next : α → Reading β) :
    (Except.ok value >>= next) = next value := rfl

/-! ## Documents that can be written -/

/-- A number that is finite, or no number. -/
def Literal.Finite : Literal → Prop
  | .number value => value.isFinite = true
  | _ => True

mutual

/-- Numbers in a definition are finite, and its maps have no key twice. -/
def Definition.Plain : Definition → Prop
  | .literal value => value.Finite
  | .literals values => ∀ value ∈ values.toList, value.Finite
  | .literalsOr values fallback => (∀ value ∈ values.toList, value.Finite) ∧ fallback.Plain
  | .primitive _ => True
  | .object _ fields => (Entries.keys fields).Nodup ∧ PlainFields fields
  | .record codomain => codomain.Plain
  | .array item => item.Plain
  | .tuple components => PlainComponents components
  | .intersection left right => left.Plain ∧ right.Plain
  | .sum _ members => (Entries.keys members).Nodup ∧ PlainMembers members
  | .union ⟨head, tail⟩ => head.Plain ∧ PlainComponents tail
  | .readonly inner => inner.Plain
  | .ref _ => True

/-- Numbers in a definition of objects are finite, and its maps have no key twice. -/
def ObjectDefinition.Plain : ObjectDefinition → Prop
  | .unknown => True
  | .object _ fields => (Entries.keys fields).Nodup ∧ PlainFields fields
  | .record codomain => codomain.Plain
  | .sum _ members => (Entries.keys members).Nodup ∧ PlainMembers members
  | .intersection left right => left.Plain ∧ right.Plain
  | .readonly inner => inner.Plain

def PlainFields : List (String × Definition) → Prop
  | [] => True
  | (_, definition) :: rest => definition.Plain ∧ PlainFields rest

def PlainComponents : List Definition → Prop
  | [] => True
  | definition :: rest => definition.Plain ∧ PlainComponents rest

def PlainMembers : List (String × ObjectDefinition) → Prop
  | [] => True
  | (_, definition) :: rest => definition.Plain ∧ PlainMembers rest

end

/-- Numbers in a document are finite, and its maps have no key twice. -/
structure Document.Plain (document : Document) : Prop where
  keys : document.definitions.keys.Nodup
  definitions : PlainFields document.definitions

namespace Document

/-! ## Kinds -/

/-- The parts of the kinds of a family have distinct names, none of them that of the kind. -/
def Family.Named (family : Family) : Prop :=
  ∀ kind ∈ family.kinds, ("kind" :: kind.parts.map Prod.fst).Nodup

theorem anyFamily_named : anyFamily.Named := by
  intro kind hkind
  revert kind
  decide

theorem objectFamily_named : objectFamily.Named := by
  intro kind hkind
  revert kind
  decide

theorem mem_kinds_of_kindOfName {family : Family} {name : String} {kind : Kind}
    (h : family.kindOfName name = .ok kind) : kind ∈ family.kinds := by
  rw [Family.kindOfName] at h
  split at h
  case h_1 heq =>
    obtain rfl := Except.ok.inj h
    exact List.mem_of_find?_eq_some heq
  case h_2 => cases h

/-! ## Objects of a kind -/

/-- Values that are read as parts, each under its name. -/
inductive PartsOf (numbered : Bool) :
    List (String × PartKind) → List (String × Value) → Entries Part → Prop
  | nil : PartsOf numbered [] [] []
  | cons {name : String} {kind : PartKind} {value : Value} {part : Part}
      {kinds : List (String × PartKind)} {values : List (String × Value)} {parts : Entries Part} :
      readPart numbered kind value = .ok part → PartsOf numbered kinds values parts →
      PartsOf numbered ((name, kind) :: kinds) ((name, value) :: values) ((name, part) :: parts)

/-- A value is the object of a kind, of whose parts something is made. -/
inductive Tagged {α : Type} (numbered : Bool) (family : Family)
    (make : String → Entries Part → Reading α) : Value → α → Prop
  | intro (kind : Kind) {values : List (String × Value)} {parts : Entries Part} {made : α} :
      family.kindOfName kind.name = .ok kind → PartsOf numbered kind.parts values parts →
      make kind.name parts = .ok made →
        Tagged numbered family make (kindValue kind.name values) made

variable {numbered : Bool} {kinds : List (String × PartKind)} {values : List (String × Value)}
  {parts : Entries Part}

theorem PartsOf.names (h : PartsOf numbered kinds values parts) :
    values.map Prod.fst = kinds.map Prod.fst := by
  induction h with
  | nil => rfl
  | cons _ _ ih => rw [List.map_cons, List.map_cons, ih]

/-- Parts are found by their names. -/
theorem PartsOf.readByName (h : PartsOf numbered kinds values parts) :
    ∀ {all : Entries PartKind} {found : Entries Part},
      (found.keys ++ kinds.map Prod.fst).Nodup →
      (∀ entry ∈ kinds, all.lookup entry.1 = some entry.2) →
      Document.readByName numbered all found values = .ok (found ++ parts) := by
  induction h with
  | nil =>
      intro all found _ _
      rw [Document.readByName, List.append_nil]
      rfl
  | @cons name kind value part kinds values parts hpart _ ih =>
      intro all found hnames hall
      have hname : name ∉ found.keys := fun hmem =>
        (List.nodup_append.1 hnames).2.2 name hmem name List.mem_cons_self rfl
      have hnext : (Entries.keys (found ++ [(name, part)]) ++ kinds.map Prod.fst).Nodup := by
        simpa [Entries.keys] using hnames
      obtain ⟨hkind, hall⟩ := List.forall_mem_cons.1 hall
      have hrest := ih hnext hall
      rw [Document.readByName, hkind]
      simp only [Entries.lookup_eq_none hname, hpart, Option.isSome_none, Bool.false_eq_true,
        if_false, Shape.ok_bind]
      rw [hrest, List.append_assoc]
      rfl

theorem findKind_of_found {family : Family} (kind : Kind) (h : "kind" ∉ values.map Prod.fst) :
    findKind family numbered (some kind) values = .ok kind := by
  induction values with
  | nil => rfl
  | cons entry rest ih =>
      obtain ⟨key, value⟩ := entry
      obtain ⟨hkey, hrest⟩ : key ≠ "kind" ∧ "kind" ∉ rest.map Prod.fst := by
        simpa [eq_comm] using h
      rw [findKind, if_neg hkey, ih hrest]

theorem findKind_of_kindValue {family : Family} {kind : Kind}
    (hkind : family.kindOfName kind.name = .ok kind) (h : "kind" ∉ values.map Prod.fst) :
    findKind family numbered none (("kind", .string kind.name) :: values) = .ok kind := by
  rw [findKind, if_pos rfl]
  simp only [Option.isSome_none, Bool.false_eq_true, if_false, Family.kindOfValue, hkind,
    Shape.ok_bind]
  exact findKind_of_found kind h

/-- The members of a source are taken as values where there is room. -/
theorem splitMembers_ofMembers {room : Nat} (kind : Kind) :
    ∀ {values : List (String × Value)}, "kind" ∉ values.map Prod.fst →
      Value.membersDepth values ≤ room →
      splitMembers room true (some kind) (Source.ofMembers values) = .ok (kind, values)
  | [], _, _ => rfl
  | (key, value) :: rest, h, hroom => by
      obtain ⟨hkey, hrest⟩ : key ≠ "kind" ∧ "kind" ∉ rest.map Prod.fst := by
        simpa [eq_comm] using h
      obtain ⟨hvalue, hvalues⟩ : value.depth ≤ room ∧ Value.membersDepth rest ≤ room := by
        simpa [Value.membersDepth, Nat.max_le] using hroom
      have hbuffered : Shape.buffered room (Source.ofValue value) = .ok value := by
        rw [Shape.buffered, Source.valueWithin?_ofValue room value hvalue]
        rfl
      rw [Source.ofMembers, splitMembers]
      simp only [Shape.key, pure_bind, if_neg hkey, hbuffered, Shape.ok_bind,
        splitMembers_ofMembers kind hrest hvalues]
      rfl

/-- The parts of the object of a kind are those of the kind, under other names than this. -/
theorem PartsOf.of_kind {family : Family} (hnamed : family.Named) {kind : Kind}
    (hkind : family.kindOfName kind.name = .ok kind)
    (h : PartsOf numbered kind.parts values parts) :
    "kind" ∉ values.map Prod.fst ∧
      Document.readByName numbered kind.parts [] values = .ok parts := by
  obtain ⟨htag, hnames⟩ := List.nodup_cons.1 (hnamed kind (mem_kinds_of_kindOfName hkind))
  refine ⟨by rwa [h.names], ?_⟩
  exact h.readByName hnames fun entry hentry => Entries.lookup_of_mem hnames hentry

/-- The kind of an object is no part. -/
theorem readByName_kindValue {kind : Kind} (h : "kind" ∉ kind.parts.map Prod.fst) (tag : Value) :
    Document.readByName numbered kind.parts [] (("kind", tag) :: values) =
      Document.readByName numbered kind.parts [] values := by
  have hlookup : kind.parts.lookup "kind" = none := Entries.lookup_eq_none h
  rw [readByName, hlookup]

variable {value : Value}

/-- In the object of a kind the kind is found, and then the parts of which something is made. -/
theorem Tagged.found {α : Type} {family : Family} {make : String → Entries Part → Reading α}
    {made : α} (hnamed : family.Named) (h : Tagged numbered family make value made) :
    ∃ (kind : Kind) (members : List (String × Value)) (parts : Entries Part),
      value = .object members ∧ findKind family numbered none members = .ok kind ∧
      Document.readByName numbered kind.parts [] members = .ok parts ∧
      make kind.name parts = .ok made := by
  cases h with
  | @intro kind values parts made hkind hparts hmake =>
      obtain ⟨htag, hread⟩ := hparts.of_kind hnamed hkind
      refine ⟨kind, ("kind", .string kind.name) :: values, parts, rfl,
        findKind_of_kindValue hkind htag, ?_, hmake⟩
      rw [readByName_kindValue (hparts.names ▸ htag), hread]

/-- The object of a kind of definitions is read as the definition. -/
theorem Tagged.readPart_any {definition : Definition}
    (h : Tagged numbered anyFamily definitionOf value definition) :
    readPart numbered .definition value = .ok (.definition definition) := by
  obtain ⟨kind, members, parts, rfl, hkind, hparts, hmake⟩ := h.found anyFamily_named
  rw [readPart]
  simp only [hkind, hparts, hmake, Shape.ok_bind]
  rfl

/-- The object of a kind of definitions of objects is read as the definition. -/
theorem Tagged.readPart_object {definition : ObjectDefinition}
    (h : Tagged numbered objectFamily objectOf value definition) :
    readPart numbered .object value = .ok (.object definition) := by
  obtain ⟨kind, members, parts, rfl, hkind, hparts, hmake⟩ := h.found objectFamily_named
  rw [readPart]
  simp only [hkind, hparts, hmake, Shape.ok_bind]
  rfl

/-- The source of the object of a kind is read as the definition. -/
theorem Tagged.readDefinition {format : Format} {definition : Definition}
    (h : Tagged format.numbered anyFamily definitionOf value definition) {room : Nat}
    (hroom : value.depth ≤ room) :
    Document.readDefinition format room (Source.ofValue value) = .ok definition := by
  cases h with
  | @intro kind values parts made hkind hparts hmake =>
      obtain ⟨htag, hread⟩ := hparts.of_kind anyFamily_named hkind
      obtain ⟨room, rfl⟩ : ∃ inner, room = inner + 1 := by
        refine Nat.exists_eq_add_one.2 ?_
        rw [kindValue, Value.depth] at hroom
        omega
      have hvalues : Value.membersDepth values ≤ room := by
        simpa [kindValue, Value.depth, Value.membersDepth] using hroom
      have hsplit : splitMembers room true none
          ((some "kind", .string (some kind.name)) :: Source.ofMembers values) =
            .ok (kind, values) := by
        rw [splitMembers]
        simp only [Shape.key, pure_bind, if_true, Option.isSome_none, Bool.false_eq_true, if_false,
          Family.kindOfSource, hkind, Shape.ok_bind]
        exact splitMembers_ofMembers kind htag hvalues
      rw [kindValue, Source.ofValue, Source.ofMembers, Source.ofValue, Document.readDefinition]
      simp only [inside, pure_bind, hsplit, Shape.ok_bind, hread, hmake]

/-! ## Parts of definitions -/

theorem ofValue_toValue {value : Literal} (h : value.Finite) :
    Literal.ofValue value.toValue = .ok value := by
  cases value with
  | number value =>
      have hfinite : value.isFinite = true := h
      rw [Literal.toValue, if_pos hfinite]
      rfl
  | _ => rfl

theorem readPart_literal {value : Literal} (h : value.Finite) :
    readPart numbered .literal value.toValue = .ok (.literal value) := by
  rw [readPart_leaf numbered (.inl rfl), readLeaf, ofValue_toValue h]
  rfl

theorem readLiterals_toValue : ∀ {values : List Literal}, (∀ value ∈ values, value.Finite) →
    readLiterals (values.map Literal.toValue) = .ok values
  | [], _ => rfl
  | value :: rest, h => by
      obtain ⟨hvalue, hrest⟩ := List.forall_mem_cons.1 h
      rw [List.map_cons, readLiterals, ofValue_toValue hvalue, readLiterals_toValue hrest]
      rfl

theorem readPart_literals {values : NonEmpty Literal} (h : ∀ value ∈ values.toList, value.Finite) :
    readPart numbered .literals (literalValues values) = .ok (.literals values) := by
  rw [readPart_leaf numbered (.inr (.inl rfl)), literalValues, readLeaf, readLiterals_toValue h,
    Shape.ok_bind, Shape.nonEmpty_toList]
  rfl

theorem readPart_text (text : String) :
    readPart numbered .text (.string text) = .ok (.text text) := by
  rw [readPart_leaf numbered (.inr (.inr rfl))]
  rfl

theorem readPart_components {values : List Value} {components : List Definition}
    (h : readAll numbered .definition values = .ok (components.map .definition)) :
    readPart numbered .components (.array values) = .ok (.components components) := by
  rw [readPart, h, Shape.ok_bind, List.filterMap_map]
  simp only [Function.comp_def, Part.definition?, List.filterMap_some]
  rfl

theorem readPart_members {values : List Value} {members : NonEmpty Definition}
    (h : readAll numbered .definition values = .ok (members.toList.map .definition)) :
    readPart numbered .members (.array values) = .ok (.members members) := by
  rw [readPart, h, Shape.ok_bind, List.filterMap_map]
  simp only [Function.comp_def, Part.definition?, List.filterMap_some, Shape.nonEmpty_toList]
  rfl

theorem filterMap_entries {α : Type} (entries : Entries α) :
    entries.filterMap (fun entry => some (entry.1, entry.2)) = entries :=
  List.filterMap_some

theorem readPart_fields {values : List (String × Value)} {fields : Entries Definition}
    (hkeys : fields.keys.Nodup)
    (h : readEntries numbered .definition values =
      .ok (fields.map fun entry => (entry.1, .definition entry.2))) :
    readPart numbered .fields (.object values) = .ok (.fields fields) := by
  rw [readPart, h, Shape.ok_bind, List.filterMap_map]
  simp only [Function.comp_def, Part.definition?, Option.map_some, filterMap_entries,
    Entries.ofList_eq_self hkeys]
  rfl

theorem readPart_objects {values : List (String × Value)} {members : Entries ObjectDefinition}
    (hkeys : members.keys.Nodup)
    (h : readEntries numbered .object values =
      .ok (members.map fun entry => (entry.1, .object entry.2))) :
    readPart numbered .objects (.object values) = .ok (.objects members) := by
  rw [readPart, h, Shape.ok_bind, List.filterMap_map]
  simp only [Function.comp_def, Part.object?, Option.map_some, filterMap_entries,
    Entries.ofList_eq_self hkeys]
  rfl

/-! ## Definitions -/

mutual

/-- **A definition is written as the object of its kind.** -/
theorem any_tagged (numbered : Bool) : ∀ {definition : Definition}, definition.Plain →
    Tagged numbered anyFamily definitionOf definition.toValue definition
  | .literal value, h => by
      rw [Definition.Plain] at h
      rw [Definition.toValue]
      exact .intro ⟨"literal", "Literal", [("value", .literal)]⟩ rfl
        (.cons (readPart_literal h) .nil) rfl
  | .literals values, h => by
      rw [Definition.Plain] at h
      rw [Definition.toValue]
      exact .intro ⟨"literals", "Literals", [("values", .literals)]⟩ rfl
        (.cons (readPart_literals h) .nil) rfl
  | .literalsOr values fallback, h => by
      rw [Definition.Plain] at h
      rw [Definition.toValue]
      exact .intro ⟨"literals_or", "LiteralsOr", [("values", .literals), ("or", .definition)]⟩ rfl
        (.cons (readPart_literals h.1) (.cons (any_tagged numbered h.2).readPart_any .nil)) rfl
  | .primitive kind, _ => by
      rw [Definition.toValue]
      cases kind with
      | string => exact .intro ⟨"string", "String", []⟩ rfl .nil rfl
      | number => exact .intro ⟨"number", "Number", []⟩ rfl .nil rfl
      | boolean => exact .intro ⟨"boolean", "Boolean", []⟩ rfl .nil rfl
      | array => exact .intro ⟨"unknown_array", "UnknownArray", []⟩ rfl .nil rfl
      | object => exact .intro ⟨"unknown_record", "UnknownRecord", []⟩ rfl .nil rfl
  | .object kind fields, h => by
      rw [Definition.Plain] at h
      rw [Definition.toValue]
      have hfields := readPart_fields h.1 (readEntries_fieldValues numbered h.2)
      cases kind with
      | required =>
          exact .intro ⟨"type", "Type", [("fields", .fields)]⟩ rfl (.cons hfields .nil) rfl
      | optional =>
          exact .intro ⟨"partial", "Partial", [("fields", .fields)]⟩ rfl (.cons hfields .nil) rfl
  | .record codomain, h => by
      rw [Definition.Plain] at h
      rw [Definition.toValue]
      exact .intro ⟨"record", "Record", [("codomain", .definition)]⟩ rfl
        (.cons (any_tagged numbered h).readPart_any .nil) rfl
  | .array item, h => by
      rw [Definition.Plain] at h
      rw [Definition.toValue]
      exact .intro ⟨"array", "Array", [("item", .definition)]⟩ rfl
        (.cons (any_tagged numbered h).readPart_any .nil) rfl
  | .tuple components, h => by
      rw [Definition.Plain] at h
      rw [Definition.toValue]
      exact .intro ⟨"tuple", "Tuple", [("components", .components)]⟩ rfl
        (.cons (readPart_components (readAll_componentValues numbered h)) .nil) rfl
  | .intersection left right, h => by
      rw [Definition.Plain] at h
      rw [Definition.toValue]
      exact .intro ⟨"intersection", "Intersection", [("left", .definition), ("right", .definition)]⟩
        rfl (.cons (any_tagged numbered h.1).readPart_any
          (.cons (any_tagged numbered h.2).readPart_any .nil)) rfl
  | .sum tag members, h => by
      rw [Definition.Plain] at h
      rw [Definition.toValue]
      have hmembers := readPart_objects h.1 (readEntries_memberValues numbered h.2)
      exact .intro ⟨"sum", "Sum", [("tag", .text), ("members", .objects)]⟩ rfl
        (.cons (readPart_text tag) (.cons hmembers .nil)) rfl
  | .union ⟨head, tail⟩, h => by
      rw [Definition.Plain] at h
      rw [Definition.toValue]
      have hmembers : readAll numbered .definition (head.toValue :: componentValues tail) =
          .ok ((NonEmpty.toList ⟨head, tail⟩).map .definition) := by
        rw [readAll, (any_tagged numbered h.1).readPart_any, readAll_componentValues numbered h.2]
        rfl
      exact .intro ⟨"union", "Union", [("members", .members)]⟩ rfl
        (.cons (readPart_members hmembers) .nil) rfl
  | .readonly inner, h => by
      rw [Definition.Plain] at h
      rw [Definition.toValue]
      exact .intro ⟨"readonly", "Readonly", [("inner", .definition)]⟩ rfl
        (.cons (any_tagged numbered h).readPart_any .nil) rfl
  | .ref name, _ => by
      rw [Definition.toValue]
      exact .intro ⟨"ref", "Ref", [("name", .text)]⟩ rfl (.cons (readPart_text name) .nil) rfl

/-- A definition of objects is written as the object of its kind. -/
theorem object_tagged (numbered : Bool) : ∀ {definition : ObjectDefinition}, definition.Plain →
    Tagged numbered objectFamily objectOf definition.toValue definition
  | .unknown, _ => by
      rw [ObjectDefinition.toValue]
      exact .intro ⟨"unknown_record", "UnknownRecord", []⟩ rfl .nil rfl
  | .object kind fields, h => by
      rw [ObjectDefinition.Plain] at h
      rw [ObjectDefinition.toValue]
      have hfields := readPart_fields h.1 (readEntries_fieldValues numbered h.2)
      cases kind with
      | required =>
          exact .intro ⟨"type", "Type", [("fields", .fields)]⟩ rfl (.cons hfields .nil) rfl
      | optional =>
          exact .intro ⟨"partial", "Partial", [("fields", .fields)]⟩ rfl (.cons hfields .nil) rfl
  | .record codomain, h => by
      rw [ObjectDefinition.Plain] at h
      rw [ObjectDefinition.toValue]
      exact .intro ⟨"record", "Record", [("codomain", .definition)]⟩ rfl
        (.cons (any_tagged numbered h).readPart_any .nil) rfl
  | .sum tag members, h => by
      rw [ObjectDefinition.Plain] at h
      rw [ObjectDefinition.toValue]
      have hmembers := readPart_objects h.1 (readEntries_memberValues numbered h.2)
      exact .intro ⟨"sum", "Sum", [("tag", .text), ("members", .objects)]⟩ rfl
        (.cons (readPart_text tag) (.cons hmembers .nil)) rfl
  | .intersection left right, h => by
      rw [ObjectDefinition.Plain] at h
      rw [ObjectDefinition.toValue]
      exact .intro ⟨"intersection", "Intersection", [("left", .object), ("right", .object)]⟩ rfl
        (.cons (object_tagged numbered h.1).readPart_object
          (.cons (object_tagged numbered h.2).readPart_object .nil)) rfl
  | .readonly inner, h => by
      rw [ObjectDefinition.Plain] at h
      rw [ObjectDefinition.toValue]
      exact .intro ⟨"readonly", "Readonly", [("inner", .object)]⟩ rfl
        (.cons (object_tagged numbered h).readPart_object .nil) rfl

theorem readEntries_fieldValues (numbered : Bool) : ∀ {fields : List (String × Definition)},
    PlainFields fields → readEntries numbered .definition (fieldValues fields) =
      .ok (fields.map fun entry => (entry.1, .definition entry.2))
  | [], _ => rfl
  | (key, definition) :: rest, h => by
      rw [PlainFields] at h
      rw [fieldValues, readEntries, (any_tagged numbered h.1).readPart_any,
        readEntries_fieldValues numbered h.2]
      rfl

theorem readAll_componentValues (numbered : Bool) : ∀ {components : List Definition},
    PlainComponents components → readAll numbered .definition (componentValues components) =
      .ok (components.map .definition)
  | [], _ => rfl
  | definition :: rest, h => by
      rw [PlainComponents] at h
      rw [componentValues, readAll, (any_tagged numbered h.1).readPart_any,
        readAll_componentValues numbered h.2]
      rfl

theorem readEntries_memberValues (numbered : Bool) :
    ∀ {members : List (String × ObjectDefinition)}, PlainMembers members →
      readEntries numbered .object (memberValues members) =
        .ok (members.map fun entry => (entry.1, .object entry.2))
  | [], _ => rfl
  | (key, definition) :: rest, h => by
      rw [PlainMembers] at h
      rw [memberValues, readEntries, (object_tagged numbered h.1).readPart_object,
        readEntries_memberValues numbered h.2]
      rfl

end

/-! ## Documents -/

/-- Definitions are read one after the other, each under its name. -/
theorem readDefinitions_fieldValues (format : Format) {room : Nat} :
    ∀ {definitions : List (String × Definition)} (found : Entries Definition),
      PlainFields definitions → Value.membersDepth (fieldValues definitions) ≤ room →
      readDefinitions format room true found (Source.ofMembers (fieldValues definitions)) =
        .ok (found.setAll definitions)
  | [], _, _, _ => rfl
  | (key, definition) :: rest, found, h, hroom => by
      rw [PlainFields] at h
      rw [fieldValues, Value.membersDepth] at hroom
      have hdefinition := (any_tagged format.numbered h.1).readDefinition
        (Nat.le_trans (Nat.le_max_left _ _) hroom)
      have hrest := readDefinitions_fieldValues format (found.set key definition) h.2
        (Nat.le_trans (Nat.le_max_right _ _) hroom)
      rw [fieldValues, Source.ofMembers, readDefinitions]
      simp only [Shape.key, pure_bind, hdefinition, Shape.ok_bind, hrest]
      rfl

/-- The root and the definitions of a document make up the document. -/
theorem ofDefinitions_eq (document : Document) :
    ofDefinitions document.root document.definitions = .ok document := by
  rw [ofDefinitions, dif_pos document.root_mem]
  split
  case h_1 name hfind =>
    have hname := document.references_mem name (List.mem_of_find?_eq_some hfind)
    exact absurd hname (by simpa using List.find?_some hfind)
  case h_2 => rfl

/-- **Documents survive being written and read.**  A document in which numbers are finite, and
maps have no key twice, is read back from its value, in any format with room for it (a text has
room for so many containers, a value for all of its own): the root and the definitions in their
order, with fields and members in theirs, make up the document again. -/
theorem read_written {document : Document} (h : document.Plain) (format : Format)
    (hroom : document.toValue.depth ≤ format.room) :
    readWhole format (Source.ofValue document.toValue) =
      .ok (document.root, document.definitions) ∧
    ofDefinitions document.root document.definitions = .ok document := by
  refine ⟨?_, document.ofDefinitions_eq⟩
  obtain ⟨room, hformat⟩ : ∃ room, format.room = room + 2 := by
    refine ⟨format.room - 2, ?_⟩
    simp only [toValue, Value.depth, Value.membersDepth] at hroom
    omega
  have hdefinitions : definitionsOf format (room + 1)
      (.object (Source.ofMembers (fieldValues document.definitions)) true) =
        .ok document.definitions := by
    have hdepth : Value.membersDepth (fieldValues document.definitions) ≤ room := by
      simpa [toValue, Value.depth, Value.membersDepth, hformat] using hroom
    have hread := readDefinitions_fieldValues format [] h.definitions hdepth
    rw [definitionsOf, inside, pure_bind, hread]
    exact congrArg Except.ok (Entries.ofList_eq_self h.keys)
  rw [toValue, Source.ofValue, Source.ofMembers, Source.ofMembers, Source.ofMembers, readWhole,
    hformat, inside, pure_bind]
  simp only [readMembers, Shape.key, pure_bind, Option.isSome_none, Bool.false_eq_true, if_false,
    Source.ofValue, Shape.sourceText, hdefinitions, Shape.ok_bind, Shape.ending, if_true]
  rfl

/-- A document with literals, numbers among them, and a sum. -/
def shapes : Document where
  root := "Shape"
  definitions := [
    ("Shape", .sum "kind" [
      ("circle", .object .required [("radius", .primitive .number), ("unit", .ref "Unit")]),
      ("other", .unknown)]),
    ("Unit", .union ⟨.literals ⟨.number 1.5, [.number 2.5]⟩, [.literal (.string "inch")]⟩)]
  root_mem := by decide
  references_mem := by decide

/-- The shapes are read back from their value as from the text of a file. -/
theorem shapes_read_written :
    shapes.Plain ∧
    readWhole ⟨Json.nestingLimit, true⟩ (Source.ofValue shapes.toValue) =
      .ok (shapes.root, shapes.definitions) ∧
    ofDefinitions shapes.root shapes.definitions = .ok shapes := by
  have hplain : shapes.Plain := by
    have hnumbers : (1.5 : Float).isFinite = true ∧ (2.5 : Float).isFinite = true := by decide
    refine ⟨by decide, ?_⟩
    simp [shapes, PlainFields, Definition.Plain, PlainMembers, ObjectDefinition.Plain,
      PlainComponents, NonEmpty.toList, Literal.Finite, Entries.keys, hnumbers]
  exact ⟨hplain, read_written hplain ⟨Json.nestingLimit, true⟩ (by decide)⟩

end Document
end Schemata
