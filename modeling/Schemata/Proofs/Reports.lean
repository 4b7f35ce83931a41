import Schemata.Proofs.Idempotence

/-!
# What composites report

A composite decodes all of its parts and reports every part that fails, with one node for each, in
their order; only where none fails is there a value, rebuilt from what the parts give.

**Input.**  Any decoders for the parts of a composite, and a value of the shape that it takes apart.

**Algorithm.**  Every composite but two is a list of parts (`Part`): the step to a part, whether it
has to be there, its decoder and what is there.  The two sides of an intersection are decoded on
the value itself, and so are the members of a union, of which one that takes the value is enough.

**Results.**

* `Decoding.object_reports`, `record_reports`, `array_reports` and `tuple_reports`: what the
  composites with parts report and give.
* `Decoding.intersection_reports` and `Decoding.union_reports`: the same of sides and of members.
* `Decoding.all_reported`: all of this together, with what the union of two objects holds.
-/

namespace Schemata

open Json (Value Members)

/-! ## Failures of outcomes -/

namespace Outcome

variable {α β γ : Type}

/-- The nodes of the failure of an outcome; of a value there are none. -/
def failures : Outcome α → List ErrorNode
  | .ok _ => []
  | .error error => error.toList

@[simp]
theorem failures_map (f : α → β) (o : Outcome α) : (o.map f).failures = o.failures := by
  cases o <;> rfl

@[simp]
theorem failures_both (join : α → β → γ) (o : Outcome α) (p : Outcome β) :
    (o.both join p).failures = o.failures ++ p.failures := by
  cases o <;> cases p <;> simp [both, failures, NonEmpty.toList_append]

theorem failures_ne_nil {o : Outcome α} : o.failures ≠ [] ↔ ∃ error, o = .error error := by
  cases o with
  | ok _ => simp [failures]
  | error error => simp [failures, NonEmpty.toList_ne_nil]

end Outcome

namespace Decoding

/-! ## Parts -/

/-- A part of a composite: the step to it, whether it has to be there, its decoder, and what is
there. -/
structure Part where
  step : Step
  kind : FieldKind
  decoding : Decoding Id
  found : Option Value

namespace Part

/-- A part that is not there but has to be, or one that does not decode. -/
inductive Fails (part : Part) : Prop
  | absent : part.found = none → part.kind = .required → Fails part
  | refused {value : Value} {error : DecodeError} : part.found = some value →
      part.decoding.decode value = .error error → Fails part

/-- The node that reports a part which fails: that it is missing or its own failure, after the
step to it. -/
def report? (part : Part) : Option ErrorNode :=
  match part.found with
  | some value =>
      match (part.decoding.decode value : Outcome Value) with
      | .ok _ => none
      | .error error => some (.under part.step error)
  | none =>
      match part.kind with
      | .required => some (.under part.step DecodeError.missing)
      | .optional => none

variable {part : Part} {node : ErrorNode}

/-- A node that reports a part is about what is there, or about nothing where something has to
be. -/
theorem report?_eq_some (h : part.report? = some node) :
    (∃ value error, part.found = some value ∧ part.decoding.decode value = .error error ∧
      node = .under part.step error) ∨
    (part.found = none ∧ part.kind = .required ∧ node = .under part.step DecodeError.missing) := by
  rw [report?] at h
  cases hfound : part.found with
  | some value =>
      rw [hfound] at h
      cases hdecode : part.decoding.decode value with
      | ok _ =>
          simp only [hdecode] at h
          cases h
      | error error =>
          simp only [hdecode] at h
          exact .inl ⟨value, error, rfl, hdecode, (Option.some.inj h).symm⟩
  | none =>
      rw [hfound] at h
      cases hkind : part.kind with
      | required =>
          simp only [hkind] at h
          exact .inr ⟨rfl, rfl, (Option.some.inj h).symm⟩
      | optional =>
          simp only [hkind] at h
          cases h

theorem report?_of_error {value : Value} {error : DecodeError} (hfound : part.found = some value)
    (hdecode : part.decoding.decode value = .error error) :
    part.report? = some (.under part.step error) := by
  simp only [report?, hfound, hdecode]

/-- The parts that fail are those that are reported. -/
theorem fails_iff : part.Fails ↔ ∃ node, part.report? = some node := by
  constructor
  · intro hfails
    cases hfails with
    | absent hfound hkind =>
        exact ⟨.under part.step DecodeError.missing, by simp only [report?, hfound, hkind]⟩
    | @refused _ error hfound hdecode =>
        exact ⟨.under part.step error, report?_of_error hfound hdecode⟩
  · rintro ⟨node, hnode⟩
    rcases report?_eq_some hnode with ⟨value, error, hfound, hdecode, _⟩ | ⟨hfound, hkind, _⟩
    · exact .refused hfound hdecode
    · exact .absent hfound hkind

/-- What is there is reported by the failure of its decoder after the step. -/
theorem report?_found (step : Step) (kind : FieldKind) (decoding : Decoding Id) (value : Value) :
    (report? ⟨step, kind, decoding, some value⟩).toList =
      Outcome.failures (Outcome.under step (decoding.decode value)) := by
  simp only [report?]
  cases decoding.decode value <;> rfl

theorem filterMap_report?_cons (part : Part) (parts : List Part) :
    (part :: parts).filterMap report? = part.report?.toList ++ parts.filterMap report? := by
  rw [List.filterMap_cons]
  cases part.report? <;> rfl

end Part

/-- A composite reports its parts: its outcome is a failure exactly if one of them fails, then the
failure has one node for each part that fails, in their order, and otherwise the value is what the
parts give. -/
structure Reports (parts : List Part) (gives : Value → Prop) (outcome : Outcome Value) : Prop where
  fails_iff : (∃ error, outcome = .error error) ↔ ∃ part ∈ parts, part.Fails
  nodes : ∀ error, outcome = .error error → error.toList = parts.filterMap Part.report?
  value : ∀ a, outcome = .ok a → gives a

/-- A loop over the parts that collects their failures reports them. -/
theorem Reports.of_loop {parts : List Part} {α : Type} {loop : Outcome α} {make : α → Value}
    {gives : α → Prop} (hfailures : loop.failures = parts.filterMap Part.report?)
    (hvalue : ∀ out, loop = .ok out → gives out) :
    Reports parts (fun a => ∃ out, a = make out ∧ gives out) (loop.map make) where
  fails_iff := by
    rw [← Outcome.failures_ne_nil, Outcome.failures_map, hfailures, Ne, List.filterMap_eq_nil_iff]
    constructor
    · intro h
      by_contra hnone
      refine h fun part hpart => ?_
      cases hreport : part.report? with
      | none => rfl
      | some node => exact absurd ⟨part, hpart, Part.fails_iff.2 ⟨node, hreport⟩⟩ hnone
    · rintro ⟨part, hpart, hfails⟩ h
      obtain ⟨node, hnode⟩ := Part.fails_iff.1 hfails
      rw [h part hpart] at hnode
      cases hnode
  nodes error herror := by
    rw [← hfailures, ← Outcome.failures_map make, herror]
    rfl
  value a ha := by
    obtain ⟨out, hout, rfl⟩ := Outcome.map_eq_ok ha
    exact ⟨out, rfl, hvalue out hout⟩

/-! ## Fields -/

/-- The declared fields of an object as parts of it. -/
def fieldParts (kind : FieldKind) (members : Members) (fields : Entries (Decoding Id)) :
    List Part :=
  fields.map fun field => ⟨.key field.1 kind, kind, field.2, Value.get? field.1 members⟩

/-- There is a member for each declared field that an object has, in the order of declaration, and
it holds what the field is decoded to. -/
def GivesFields (members : Members) (fields : Entries (Decoding Id)) (out : Members) : Prop :=
  List.Forall₂
    (fun field entry => entry.1 = field.1 ∧
      ∃ value, Value.get? field.1 members = some value ∧ field.2.decode value = .ok entry.2)
    (fields.filter fun field => (Value.get? field.1 members).isSome) out

theorem field_failures (kind : FieldKind) (key : String) (part : Decoding Id)
    (found : Option Value) : Outcome.failures (field (m := Id) kind key part found) =
      (Part.report? ⟨.key key kind, kind, part, found⟩).toList := by
  cases found with
  | some value =>
      rw [Part.report?_found]
      exact Outcome.failures_map _ _
  | none => cases kind <;> rfl

theorem fields_failures (kind : FieldKind) (members : Members) :
    ∀ parts : Entries (Decoding Id), Outcome.failures (fields (m := Id) kind members parts) =
      (fieldParts kind members parts).filterMap Part.report?
  | [] => rfl
  | (key, part) :: parts => by
      rw [fields_cons, Outcome.failures_both, field_failures, fields_failures kind members parts,
        fieldParts, fieldParts, List.map_cons, Part.filterMap_report?_cons]

theorem givesFields_of_fields {kind : FieldKind} {members : Members} :
    ∀ {parts : Entries (Decoding Id)} {out : Members},
      fields kind members parts = .ok out → GivesFields members parts out
  | [], _, h => by
      obtain rfl := Except.ok.inj h
      exact .nil
  | (key, part) :: parts, _, h => by
      rw [fields_cons] at h
      obtain ⟨first, others, hfirst, hothers, rfl⟩ := Outcome.both_eq_ok h
      have hrest := givesFields_of_fields hothers
      rw [GivesFields, List.filter_cons]
      rcases field_eq_ok hfirst with ⟨value, a, hvalue, ha, rfl⟩ | ⟨hvalue, _, rfl⟩
      · rw [if_pos (by simp [hvalue])]
        exact .cons ⟨rfl, value, hvalue, ha⟩ hrest
      · rw [if_neg (by simp [hvalue])]
        exact hrest

/-- An object with declared fields reports them. -/
theorem object_reports (kind : FieldKind) (fields : Entries (Decoding Id)) (members : Members) :
    Reports (fieldParts kind members fields)
      (fun a => ∃ out, a = .object out ∧ GivesFields members fields out)
      ((object kind fields).decode (.object members)) :=
  .of_loop (fields_failures kind members fields) fun _ => givesFields_of_fields

/-! ## Entries -/

/-- The members of an object as parts of it. -/
def entryParts (part : Decoding Id) (members : Members) : List Part :=
  members.map fun entry => ⟨.key entry.1 .optional, .optional, part, some entry.2⟩

/-- There is a member for each member of an object, under the same key and in the same order, and
it holds what that one is decoded to. -/
def GivesEntries (part : Decoding Id) (members out : Members) : Prop :=
  List.Forall₂ (fun member entry => entry.1 = member.1 ∧ part.decode member.2 = .ok entry.2)
    members out

theorem entries_failures (part : Decoding Id) :
    ∀ members : Members, Outcome.failures (entries (m := Id) part members) =
      (entryParts part members).filterMap Part.report?
  | [] => rfl
  | (key, value) :: members => by
      rw [entries_cons, Outcome.failures_both, Outcome.failures_map, entries_failures part members,
        entryParts, entryParts, List.map_cons, Part.filterMap_report?_cons, Part.report?_found]

theorem givesEntries_of_entries {part : Decoding Id} : ∀ {members out : Members},
    entries part members = .ok out → GivesEntries part members out
  | [], _, h => by
      obtain rfl := Except.ok.inj h
      exact .nil
  | (key, value) :: members, _, h => by
      rw [entries_cons] at h
      obtain ⟨_, others, hfirst, hothers, rfl⟩ := Outcome.both_eq_ok h
      obtain ⟨a, hunder, rfl⟩ := Outcome.map_eq_ok hfirst
      exact .cons ⟨rfl, Outcome.under_eq_ok hunder⟩ (givesEntries_of_entries hothers)

/-- An object with values of one schema reports its members. -/
theorem record_reports (part : Decoding Id) (members : Members) :
    Reports (entryParts part members)
      (fun a => ∃ out, a = .object out ∧ GivesEntries part members out)
      ((record part).decode (.object members)) :=
  .of_loop (entries_failures part members) fun _ => givesEntries_of_entries

/-! ## Items -/

/-- The items of an array as parts of it, from an index on. -/
def itemParts (start : Nat) (part : Decoding Id) (values : List Value) : List Part :=
  values.mapIdx fun index value => ⟨.index (start + index) .optional, .optional, part, some value⟩

/-- There is an item for each item of an array, in the same order, and it is what that one is
decoded to. -/
def GivesItems (part : Decoding Id) (values out : List Value) : Prop :=
  List.Forall₂ (fun value item => part.decode value = .ok item) values out

theorem itemParts_cons (start : Nat) (part : Decoding Id) (value : Value) (values : List Value) :
    itemParts start part (value :: values) =
      ⟨.index start .optional, .optional, part, some value⟩ ::
        itemParts (start + 1) part values := by
  simp only [itemParts, List.mapIdx_cons, Nat.add_zero, Nat.add_right_comm, Nat.add_assoc]

theorem items_failures (part : Decoding Id) : ∀ (start : Nat) (values : List Value),
    Outcome.failures (items (m := Id) part start values) =
      (itemParts start part values).filterMap Part.report?
  | _, [] => rfl
  | start, value :: values => by
      rw [items_cons, Outcome.failures_both, items_failures part (start + 1) values, itemParts_cons,
        Part.filterMap_report?_cons, Part.report?_found]

theorem givesItems_of_items {part : Decoding Id} : ∀ {start : Nat} {values out : List Value},
    items part start values = .ok out → GivesItems part values out
  | _, [], _, h => by
      obtain rfl := Except.ok.inj h
      exact .nil
  | start, value :: values, _, h => by
      rw [items_cons] at h
      obtain ⟨a, others, hfirst, hothers, rfl⟩ := Outcome.both_eq_ok h
      exact .cons (Outcome.under_eq_ok hfirst) (givesItems_of_items hothers)

/-- An array reports its items. -/
theorem array_reports (part : Decoding Id) (values : List Value) :
    Reports (itemParts 0 part values)
      (fun a => ∃ out, a = .array out ∧ GivesItems part values out)
      ((array part).decode (.array values)) :=
  .of_loop (items_failures part 0 values) fun _ => givesItems_of_items

/-! ## Places -/

/-- The places of a tuple as parts of an array, from an index on. -/
def placeParts (start : Nat) (parts : List (Decoding Id)) (values : List Value) : List Part :=
  parts.mapIdx fun index part => ⟨.index (start + index) .required, .required, part, values[index]?⟩

/-- There is an item for each place of a tuple, and it is what the item of an array there is
decoded to. -/
def GivesPlaces (parts : List (Decoding Id)) (values out : List Value) : Prop :=
  out.length = parts.length ∧
    List.Forall₂ (fun place item => place.1.decode place.2 = .ok item) (parts.zip values) out

theorem placeParts_cons (start : Nat) (part : Decoding Id) (parts : List (Decoding Id))
    (values : List Value) : placeParts start (part :: parts) values =
      ⟨.index start .required, .required, part, values.head?⟩ ::
        placeParts (start + 1) parts values.tail := by
  simp only [placeParts, List.mapIdx_cons, Nat.add_zero, Nat.add_right_comm, Nat.add_assoc,
    List.getElem?_tail, List.head?_eq_getElem?]

theorem places_failures : ∀ (start : Nat) (parts : List (Decoding Id)) (values : List Value),
    Outcome.failures (places (m := Id) start parts values) =
      (placeParts start parts values).filterMap Part.report?
  | _, [], _ => rfl
  | start, part :: parts, [] => by
      rw [places_cons_nil, Outcome.failures_both, places_failures (start + 1) parts [],
        placeParts_cons, Part.filterMap_report?_cons]
      rfl
  | start, part :: parts, value :: values => by
      rw [places_cons, Outcome.failures_both, places_failures (start + 1) parts values,
        placeParts_cons, Part.filterMap_report?_cons, List.head?_cons, Part.report?_found]
      rfl

theorem givesPlaces_of_places : ∀ {start : Nat} {parts : List (Decoding Id)}
    {values out : List Value}, places start parts values = .ok out → GivesPlaces parts values out
  | _, [], _, _, h => by
      obtain rfl := Except.ok.inj h
      exact ⟨rfl, .nil⟩
  | start, part :: parts, [], _, h => by
      rw [places_cons_nil] at h
      obtain ⟨_, _, hfirst, _⟩ := Outcome.both_eq_ok h
      cases hfirst
  | start, part :: parts, value :: values, _, h => by
      rw [places_cons] at h
      obtain ⟨a, others, hfirst, hothers, rfl⟩ := Outcome.both_eq_ok h
      obtain ⟨hlength, hrest⟩ := givesPlaces_of_places hothers
      exact ⟨congrArg (· + 1) hlength, .cons (Outcome.under_eq_ok hfirst) hrest⟩

/-- An array with a schema for each place reports the places. -/
theorem tuple_reports (parts : List (Decoding Id)) (values : List Value) :
    Reports (placeParts 0 parts values)
      (fun a => ∃ out, a = .array out ∧ GivesPlaces parts values out)
      ((tuple parts).decode (.array values)) :=
  .of_loop (places_failures 0 parts values) fun _ => givesPlaces_of_places

/-! ## Sides -/

/-- An intersection reports its sides: its outcome is a failure exactly if one of theirs is, then
the failure has the nodes of the left one and then those of the right one, and otherwise the value
is what the sides give, merged. -/
structure ReportsSides (left right outcome : Outcome Value) : Prop where
  fails_iff : (∃ error, outcome = .error error) ↔
    (∃ error, left = .error error) ∨ ∃ error, right = .error error
  nodes : ∀ error, outcome = .error error → error.toList = left.failures ++ right.failures
  value : ∀ a, outcome = .ok a → ∃ b c, left = .ok b ∧ right = .ok c ∧ a = merge b c

/-- An intersection reports its sides. -/
theorem intersection_reports (left right : Decoding Id) (value : Value) :
    ReportsSides (left.decode value) (right.decode value)
      ((intersection left right).decode value) := by
  have hfailures := Outcome.failures_both merge (left.decode value) (right.decode value)
  refine ⟨?_, fun error herror => ?_, fun a ha => ?_⟩
  · rw [← Outcome.failures_ne_nil, ← Outcome.failures_ne_nil, ← Outcome.failures_ne_nil,
      ← not_and_or, ← List.append_eq_nil_iff, ← hfailures]
    rfl
  · rw [← hfailures]
    exact congrArg Outcome.failures herror.symm
  · obtain ⟨b, c, hleft, hright, rfl⟩ := intersection_eq_ok ha
    exact ⟨b, c, hleft, hright, rfl⟩

/-- The members of one object united with those of another: the keys of the first one in place and
the new ones of the second one after them, each with what the second one has under it or else with
what the first one has. -/
structure Unites (left right out : Members) : Prop where
  keys : Entries.keys out =
    Entries.keys left ++ (Entries.keys right).filter (· ∉ Entries.keys left)
  get? : ∀ key, Value.get? key out = (Value.get? key right).or (Value.get? key left)

/-- Merging two objects loses no part of them. -/
theorem merge_unites (left : Members) {right : Members} (hright : (Entries.keys right).Nodup) :
    ∃ out, merge (.object left) (.object right) = .object out ∧ Unites left right out :=
  ⟨_, rfl, Entries.keys_setAll hright, fun key => Entries.lookup_setAll key hright⟩

/-! ## Members of unions -/

/-- The members of a union as parts at one value, from an index on. -/
def memberParts (start : Nat) (members : List (Decoding Id)) (value : Value) : List Part :=
  members.mapIdx fun index member => ⟨.member (start + index), .required, member, some value⟩

/-- A union reports its members: its outcome is a failure exactly if all of them fail, then the
failure has one node for each of them, in their order, and otherwise the value is what the first
one that does not fail decodes the value to. -/
structure ReportsMembers (members : List Part) (outcome : Outcome Value) : Prop where
  fails_iff : (∃ error, outcome = .error error) ↔ ∀ member ∈ members, member.Fails
  nodes : ∀ error, outcome = .error error → members.map Part.report? = error.toList.map some
  value : ∀ a, outcome = .ok a → ∃ before member after value,
    members = before ++ member :: after ∧ (∀ part ∈ before, part.Fails) ∧
      member.found = some value ∧ member.decoding.decode value = .ok a

namespace ReportsMembers

variable {member : Part} {members : List Part} {value a : Value} {error : DecodeError}
  {outcome : Outcome Value}

/-- A member that takes the value. -/
theorem taken (hfound : member.found = some value)
    (hdecode : member.decoding.decode value = .ok a) :
    ReportsMembers (member :: members) (.ok a) where
  fails_iff := by
    constructor
    · rintro ⟨_, h⟩
      cases h
    · intro h
      obtain ⟨node, hnode⟩ := Part.fails_iff.1 (h member List.mem_cons_self)
      simp only [Part.report?, hfound, hdecode] at hnode
      cases hnode
  nodes _ h := by cases h
  value b h := by
    obtain rfl := Except.ok.inj h
    exact ⟨[], member, members, value, rfl, by simp, hfound, hdecode⟩

/-- The last member, where it refuses the value. -/
theorem last (hfound : member.found = some value)
    (hdecode : member.decoding.decode value = .error error) :
    ReportsMembers [member] (.error (.under member.step error)) where
  fails_iff := by
    refine iff_of_true ⟨_, rfl⟩ fun part hpart => ?_
    obtain rfl := List.mem_singleton.1 hpart
    exact .refused hfound hdecode
  nodes _ h := by
    obtain rfl := Except.error.inj h
    exact congrArg (fun node => [node]) (Part.report?_of_error hfound hdecode)
  value _ h := by cases h

/-- A member that refuses the value, before one that takes it. -/
theorem skipped (hfound : member.found = some value)
    (hdecode : member.decoding.decode value = .error error)
    (h : ReportsMembers members (.ok a)) : ReportsMembers (member :: members) (.ok a) where
  fails_iff := by
    rw [List.forall_mem_cons, ← h.fails_iff]
    simp
  nodes _ h := by cases h
  value b hb := by
    obtain ⟨before, next, after, inner, rfl, hbefore, hnext, hb⟩ := h.value b hb
    exact ⟨member :: before, next, after, inner, rfl,
      List.forall_mem_cons.2 ⟨.refused hfound hdecode, hbefore⟩, hnext, hb⟩

/-- A member that refuses the value, before others that refuse it. -/
theorem refused {others : DecodeError} (hfound : member.found = some value)
    (hdecode : member.decoding.decode value = .error error)
    (h : ReportsMembers members (.error others)) :
    ReportsMembers (member :: members) (.error (.under member.step error ++ others)) where
  fails_iff := iff_of_true ⟨_, rfl⟩
    (List.forall_mem_cons.2 ⟨.refused hfound hdecode, h.fails_iff.1 ⟨others, rfl⟩⟩)
  nodes _ herror := by
    obtain rfl := Except.error.inj herror
    rw [List.map_cons, Part.report?_of_error hfound hdecode, h.nodes others rfl]
    rfl
  value _ h := by cases h

end ReportsMembers

theorem memberParts_cons (start : Nat) (member : Decoding Id) (members : List (Decoding Id))
    (value : Value) : memberParts start (member :: members) value =
      ⟨.member start, .required, member, some value⟩ :: memberParts (start + 1) members value := by
  simp only [memberParts, List.mapIdx_cons, Nat.add_zero, Nat.add_right_comm, Nat.add_assoc]

/-- The first of several members that takes a value, from an index on. -/
theorem firstOf_reports (value : Value) : ∀ (start : Nat) (member : Decoding Id)
    (members : List (Decoding Id)), ReportsMembers (memberParts start (member :: members) value)
      (firstOf (m := Id) value start member members)
  | start, member, [] => by
      rw [memberParts_cons, firstOf]
      cases hdecode : member.decode value with
      | ok a => exact .taken rfl hdecode
      | error error => exact .last rfl hdecode
  | start, member, next :: members => by
      rw [memberParts_cons, firstOf]
      cases hdecode : member.decode value with
      | ok a => exact .taken rfl hdecode
      | error error =>
          have hmembers := firstOf_reports value (start + 1) next members
          cases hrest : firstOf value (start + 1) next members with
          | ok a =>
              rw [hrest] at hmembers
              exact .skipped rfl hdecode hmembers
          | error others =>
              rw [hrest] at hmembers
              exact .refused rfl hdecode hmembers

/-- A union reports its members. -/
theorem union_reports (members : NonEmpty (Decoding Id)) (value : Value) :
    ReportsMembers (memberParts 0 members.toList value) ((union members).decode value) :=
  firstOf_reports value 0 members.head members.tail

/-! ## All of them -/

/-- **All failures are reported, once and in order.**  Whatever the decoders of the parts are, a
composite fails on a value of its shape exactly if a part of it fails, or all members of a union,
and it reports each part that fails by one node, in the order of the parts.  Where it does not fail
there is a value with everything that the parts give and nothing else. -/
theorem all_reported (kind : FieldKind) (fields : Entries (Decoding Id))
    (part left right : Decoding Id) (places : List (Decoding Id))
    (alternatives : NonEmpty (Decoding Id)) (members : Members) (values : List Value)
    (value : Value) :
    Reports (fieldParts kind members fields)
      (fun a => ∃ out, a = .object out ∧ GivesFields members fields out)
      ((object kind fields).decode (.object members)) ∧
    Reports (entryParts part members)
      (fun a => ∃ out, a = .object out ∧ GivesEntries part members out)
      ((record part).decode (.object members)) ∧
    Reports (itemParts 0 part values)
      (fun a => ∃ out, a = .array out ∧ GivesItems part values out)
      ((array part).decode (.array values)) ∧
    Reports (placeParts 0 places values)
      (fun a => ∃ out, a = .array out ∧ GivesPlaces places values out)
      ((tuple places).decode (.array values)) ∧
    ReportsSides (left.decode value) (right.decode value)
      ((intersection left right).decode value) ∧
    (∀ first second, (Entries.keys second).Nodup →
      ∃ out, merge (.object first) (.object second) = .object out ∧ Unites first second out) ∧
    ReportsMembers (memberParts 0 alternatives.toList value) ((union alternatives).decode value) :=
  ⟨object_reports kind fields members, record_reports part members, array_reports part values,
    tuple_reports places values, intersection_reports left right value,
    fun first _ hsecond => merge_unites first hsecond, union_reports alternatives value⟩

/-- An object without its first field and with a text for its second one reports the one and then
the other; two objects without common keys are merged side by side. -/
theorem two_fields_reported :
    let number : Decoding Id := Vocabulary.primitive .number
    ∃ error : DecodeError,
      (object .required [("width", number), ("height", number)]).decode
          (.object [("height", .string "two")]) = .error error ∧
      error.toList = [.under (.key "width" .required) DecodeError.missing,
        .under (.key "height" .required) (DecodeError.leaf (.string "two") "number")] ∧
      ∃ out, merge (.object [("width", .null)]) (.object [("height", .null)]) = .object out ∧
        Unites [("width", .null)] [("height", .null)] out := by
  intro number
  obtain ⟨hobject, _, _, _, _, hmerge, _⟩ := all_reported .required
    [("width", number), ("height", number)] number number number [] (.singleton number)
    [("height", .string "two")] [] .null
  obtain ⟨error, herror⟩ := hobject.fails_iff.2 ⟨_, List.mem_cons_self, .absent rfl rfl⟩
  exact ⟨error, herror, hobject.nodes error herror, hmerge _ _ (List.nodup_singleton "height")⟩

end Decoding
end Schemata
