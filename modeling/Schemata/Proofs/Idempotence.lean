import Schemata.Proofs.Answers
import Schemata.Proofs.Requirement

/-!
# Decoding what was decoded

Fields that are not declared and items without a place are left out, and nothing else
changes on the way in.  So what is decoded decodes to itself, unless what was left out
counts the second time: for a sum that no longer finds its member, for the sides of an
intersection that read what the other one wrote, or for a union with an earlier member
that takes what a later one left (`Requirement.steady`).

**Input.**  A guarded document whose sums, intersections and unions are steady.

**Results.**

* `Decoding.fields_idempotent` and its companions: composites decode what they decoded to
  itself when their parts do.
* `Definition.fold_idempotent`: so does a definition, when its references do.
* `Document.decoder_idempotent`: so does every name.
-/

namespace Schemata

open Json (Value Members)

namespace Decoding

/-- A decoder takes what it makes of a value to itself. -/
def IdempotentAt (d : Decoding Id) (value : Value) : Prop :=
  ∀ ⦃a : Value⦄, d.decode value = .ok a → d.decode a = .ok a

/-! ## What decodes -/

theorem test_eq_ok {holds : Value → Bool} {expected : String} {value a : Value}
    (h : (test (m := Id) holds expected).decode value = .ok a) : a = value := by
  have h : (if holds value then .ok value else .error _ : Outcome Value) = .ok a := h
  split at h
  · exact (Except.ok.inj h).symm
  · cases h

theorem object_eq_ok {kind : FieldKind} {parts : Entries (Decoding Id)} {value a : Value}
    (h : (object kind parts).decode value = .ok a) :
    ∃ members out, value = .object members ∧ fields kind members parts = .ok out ∧
      a = .object out := by
  cases value with
  | object members =>
      have h : (fields (m := Id) kind members parts).map Value.object = .ok a := h
      obtain ⟨out, hout, rfl⟩ := Outcome.map_eq_ok h
      exact ⟨members, out, rfl, hout, rfl⟩
  | _ => cases h

theorem record_eq_ok {part : Decoding Id} {value a : Value}
    (h : (record part).decode value = .ok a) :
    ∃ members out, value = .object members ∧ entries part members = .ok out ∧
      a = .object out := by
  cases value with
  | object members =>
      have h : (entries (m := Id) part members).map Value.object = .ok a := h
      obtain ⟨out, hout, rfl⟩ := Outcome.map_eq_ok h
      exact ⟨members, out, rfl, hout, rfl⟩
  | _ => cases h

theorem array_eq_ok {part : Decoding Id} {value a : Value}
    (h : (array part).decode value = .ok a) :
    ∃ values out, value = .array values ∧ items part 0 values = .ok out ∧ a = .array out := by
  cases value with
  | array values =>
      have h : (items (m := Id) part 0 values).map Value.array = .ok a := h
      obtain ⟨out, hout, rfl⟩ := Outcome.map_eq_ok h
      exact ⟨values, out, rfl, hout, rfl⟩
  | _ => cases h

theorem tuple_eq_ok {parts : List (Decoding Id)} {value a : Value}
    (h : (tuple parts).decode value = .ok a) :
    ∃ values out, value = .array values ∧ places 0 parts values = .ok out ∧ a = .array out := by
  cases value with
  | array values =>
      have h : (places (m := Id) 0 parts values).map Value.array = .ok a := h
      obtain ⟨out, hout, rfl⟩ := Outcome.map_eq_ok h
      exact ⟨values, out, rfl, hout, rfl⟩
  | _ => cases h

theorem intersection_eq_ok {left right : Decoding Id} {value c : Value}
    (h : (intersection left right).decode value = .ok c) :
    ∃ a b, left.decode value = .ok a ∧ right.decode value = .ok b ∧ merge a b = c :=
  Outcome.both_eq_ok h

/-- What a sum decodes is decoded by the member that the value names. -/
theorem sum_eq_ok {tag : String} {parts : Entries (Decoding Id)} {value a : Value}
    (h : (sum tag parts).decode value = .ok a) :
    ∃ part, memberOf? tag parts value = some part ∧ part.decode value = .ok a := by
  cases hmember : memberOf? tag parts value with
  | some part =>
      rw [decode_sum hmember] at h
      exact ⟨part, rfl, h⟩
  | none =>
      cases value with
      | object members =>
          simp only [sum, hmember] at h
          cases hget : Value.get? tag members with
          | none =>
              rw [hget] at h
              cases h
          | some named =>
              rw [hget] at h
              cases h
      | _ => cases h

theorem firstOf_cons (value : Value) (index : Nat) (part next : Decoding Id)
    (rest : List (Decoding Id)) : firstOf value index part (next :: rest) =
      match (part.decode value : Outcome Value) with
      | .ok a => .ok a
      | .error e => match (firstOf value (index + 1) next rest : Outcome Value) with
        | .ok a => .ok a
        | .error f => .error (DecodeError.under (.member index) e ++ f) :=
  rfl

theorem firstOf_of_error {value a : Value} {part next : Decoding Id} {rest : List (Decoding Id)}
    {index : Nat} {error : DecodeError} (hpart : part.decode value = .error error)
    (h : firstOf value index part (next :: rest) = .ok a) :
    firstOf value (index + 1) next rest = .ok a := by
  rw [firstOf, hpart] at h
  cases hrest : firstOf value (index + 1) next rest with
  | ok b =>
      rw [hrest] at h
      exact h
  | error f =>
      rw [hrest] at h
      cases h

/-- What the first of several members decodes is decoded by one of them. -/
theorem exists_of_firstOf {value a : Value} : ∀ {rest : List (Decoding Id)} {part : Decoding Id}
    {index : Nat}, firstOf value index part rest = .ok a →
    ∃ d ∈ part :: rest, d.decode value = .ok a
  | [], part, _, h => ⟨part, List.mem_cons_self, Outcome.under_eq_ok h⟩
  | next :: rest, part, index, h => by
      cases hpart : part.decode value with
      | ok b =>
          rw [firstOf, hpart] at h
          obtain rfl := Except.ok.inj h
          exact ⟨part, List.mem_cons_self, hpart⟩
      | error e =>
          obtain ⟨d, hd, ha⟩ := exists_of_firstOf (firstOf_of_error hpart h)
          exact ⟨d, List.mem_cons_of_mem _ hd, ha⟩

theorem mem_of_memberOf? {α : Type} {tag : String} {parts : Entries α} {value : Value} {part : α}
    (h : memberOf? tag parts value = some part) : ∃ key, (key, part) ∈ parts := by
  obtain ⟨_, _, h⟩ := Option.bind_eq_some_iff.1 h
  obtain ⟨key, _, h⟩ := Option.bind_eq_some_iff.1 h
  exact ⟨key, Entries.mem_of_lookup h⟩

/-! ## Scalars and fallbacks -/

theorem test_idempotent (holds : Value → Bool) (expected : String) (value : Value) :
    IdempotentAt (test holds expected) value := by
  intro a h
  obtain rfl := test_eq_ok h
  exact h

theorem literalsOr_idempotent (values : NonEmpty Literal) {d : Decoding Id} {value : Value}
    (hd : IdempotentAt d value) : IdempotentAt (literalsOr values d) value := by
  intro a h
  have hdecode (v : Value) : (literalsOr values d).decode v =
      if values.toList.any (·.isMatch v) then .ok v else d.decode v := rfl
  have hrest : d.decode a = .ok a → (literalsOr values d).decode a = .ok a := by
    intro ha
    rw [hdecode, ha, ite_self]
  rw [hdecode] at h
  split at h
  · obtain rfl := Except.ok.inj h
    rw [hdecode, if_pos ‹_›]
  · exact hrest (hd h)

/-! ## Fields -/

section Fields

variable {kind : FieldKind} {members out : Members} {key : String} {part : Decoding Id}
  {parts : Entries (Decoding Id)}

theorem fields_cons : fields kind members ((key, part) :: parts) =
    Outcome.both (· ++ ·) (field (m := Id) kind key part (Value.get? key members))
      (fields (m := Id) kind members parts) :=
  rfl

/-- A field that decodes is there and its value decodes, or it may be absent and is. -/
theorem field_eq_ok {named : Option Value} {first : Members}
    (h : field kind key part named = .ok first) :
    (∃ value a, named = some value ∧ part.decode value = .ok a ∧ first = [(key, a)]) ∨
      (named = none ∧ kind = .optional ∧ first = []) := by
  cases named with
  | some value =>
      have h : ((part.decode value).under (.key key kind)).map (fun a => [(key, a)]) =
        .ok first := h
      obtain ⟨a, hunder, rfl⟩ := Outcome.map_eq_ok h
      exact .inl ⟨value, a, rfl, Outcome.under_eq_ok hunder, rfl⟩
  | none =>
      cases kind with
      | required => cases h
      | optional => exact .inr ⟨rfl, rfl, (Except.ok.inj h).symm⟩

/-- What fields give is under their keys, in the same order. -/
theorem keys_sublist_of_fields : ∀ {parts : Entries (Decoding Id)} {out : Members},
    fields kind members parts = .ok out → (Entries.keys out).Sublist parts.keys
  | [], _, h => by
      obtain rfl := Except.ok.inj h
      exact List.Sublist.slnil
  | (key, part) :: parts, _, h => by
      rw [fields_cons] at h
      obtain ⟨first, others, hfirst, hothers, rfl⟩ := Outcome.both_eq_ok h
      have hrest := keys_sublist_of_fields hothers
      rcases field_eq_ok hfirst with ⟨_, a, _, _, rfl⟩ | ⟨_, _, rfl⟩
      · exact hrest.cons_cons key
      · exact hrest.cons key

/-- Fields look at their keys only. -/
theorem fields_congr {members' : Members} : ∀ {parts : Entries (Decoding Id)},
    (∀ key ∈ parts.keys, Value.get? key members = Value.get? key members') →
    fields kind members parts = fields kind members' parts
  | [], _ => rfl
  | (key, part) :: parts, h => by
      rw [fields_cons, fields_cons, h key List.mem_cons_self,
        fields_congr fun key hkey => h key (List.mem_cons_of_mem _ hkey)]

theorem get?_cons_self (key : String) (value : Value) (members : Members) :
    Value.get? key ((key, value) :: members) = some value := by
  simp [Value.get?]

theorem get?_cons_of_ne {key other : String} (h : other ≠ key) (value : Value)
    (members : Members) :
    Value.get? other ((key, value) :: members) = Value.get? other members := by
  simp [Value.get?, List.lookup_cons, beq_eq_false_iff_ne.2 h]

/-- What fields give is what a declared key has, decoded by the part under it. -/
theorem get?_of_fields : ∀ {parts : Entries (Decoding Id)} {out : Members},
    fields kind members parts = .ok out → parts.keys.Nodup → key ∈ parts.keys →
    ∀ {value : Value}, Value.get? key members = some value →
    ∃ part a, (key, part) ∈ parts ∧ part.decode value = .ok a ∧ Value.get? key out = some a
  | (k, part) :: parts, _, h, hnodup, hkey, value, hvalue => by
      rw [fields_cons] at h
      obtain ⟨first, others, hfirst, hothers, rfl⟩ := Outcome.both_eq_ok h
      have hnodup : k ∉ Entries.keys parts ∧ (Entries.keys parts).Nodup := List.nodup_cons.1 hnodup
      rcases List.mem_cons.1 hkey with rfl | hkey
      · rw [hvalue] at hfirst
        rcases field_eq_ok hfirst with ⟨_, a, hnamed, ha, rfl⟩ | ⟨hnamed, _⟩
        · obtain rfl := Option.some.inj hnamed
          exact ⟨part, a, List.mem_cons_self, ha, get?_cons_self _ _ _⟩
        · cases hnamed
      · have hne : key ≠ k := fun heq => hnodup.1 (heq ▸ hkey)
        obtain ⟨part', a, hmem, ha, hget⟩ := get?_of_fields hothers hnodup.2 hkey hvalue
        refine ⟨part', a, List.mem_cons_of_mem _ hmem, ha, ?_⟩
        rcases field_eq_ok hfirst with ⟨_, _, _, _, rfl⟩ | ⟨_, _, rfl⟩
        · exact (get?_cons_of_ne hne _ _).trans hget
        · exact hget

theorem fields_idempotent : ∀ {parts : Entries (Decoding Id)} {out : Members},
    parts.keys.Nodup →
    (∀ entry ∈ parts, ∀ key value, Value.get? key members = some value →
      IdempotentAt entry.2 value) →
    fields kind members parts = .ok out → fields kind out parts = .ok out
  | [], _, _, _, h => h
  | (key, part) :: parts, _, hnodup, hparts, h => by
      rw [fields_cons] at h
      obtain ⟨first, others, hfirst, hothers, rfl⟩ := Outcome.both_eq_ok h
      have hnodup : key ∉ Entries.keys parts ∧ (Entries.keys parts).Nodup :=
        List.nodup_cons.1 hnodup
      have hrest := fields_idempotent hnodup.2
        (fun entry hentry => hparts entry (List.mem_cons_of_mem _ hentry)) hothers
      rcases field_eq_ok hfirst with ⟨value, a, hvalue, ha, rfl⟩ | ⟨_, rfl, rfl⟩
      · have hpart := hparts (key, part) List.mem_cons_self key value hvalue ha
        -- The fields after the first one do not look at its key.
        have hskip : fields kind ((key, a) :: others) parts = fields kind others parts := by
          refine fields_congr fun other hother => get?_cons_of_ne ?_ _ _
          rintro rfl
          exact hnodup.1 hother
        have hfirst : field kind key part (some a) = .ok [(key, a)] := by
          show ((part.decode a).under (.key key kind)).map (fun a => [(key, a)]) = .ok [(key, a)]
          rw [hpart]
          rfl
        rw [List.singleton_append, fields_cons, get?_cons_self, hfirst, hskip, hrest]
        rfl
      · have habsent : Value.get? key others = none :=
          Entries.lookup_eq_none fun hmem =>
            hnodup.1 ((keys_sublist_of_fields hothers).subset hmem)
        rw [List.nil_append, fields_cons, habsent, hrest]
        rfl

end Fields

theorem object_idempotent {kind : FieldKind} {parts : Entries (Decoding Id)} {value : Value}
    (hnodup : parts.keys.Nodup)
    (hparts : ∀ entry ∈ parts, ∀ inner : Value, inner.depth < value.depth →
      IdempotentAt entry.2 inner) : IdempotentAt (object kind parts) value := by
  intro a h
  obtain ⟨members, out, rfl, hout, rfl⟩ := object_eq_ok h
  have hagain := fields_idempotent hnodup (fun entry hentry _ _ hget =>
    hparts entry hentry _ (Value.depth_lt_of_get? hget)) hout
  show (fields (m := Id) kind out parts).map Value.object = .ok (.object out)
  rw [hagain]
  rfl

/-! ## Entries and items -/

section Items

variable {part : Decoding Id}

theorem entries_cons (key : String) (value : Value) (members : Members) :
    entries part ((key, value) :: members) =
      Outcome.both (· :: ·) (((part.decode value).under (.key key .optional)).map fun a => (key, a))
        (entries (m := Id) part members) :=
  rfl

theorem items_cons (start : Nat) (value : Value) (values : List Value) :
    items part start (value :: values) =
      Outcome.both (· :: ·) ((part.decode value).under (.index start .optional))
        (items (m := Id) part (start + 1) values) :=
  rfl

theorem places_cons (start : Nat) (parts : List (Decoding Id)) (value : Value)
    (values : List Value) : places start (part :: parts) (value :: values) =
      Outcome.both (· :: ·) ((part.decode value).under (.index start .required))
        (places (m := Id) (start + 1) parts values) :=
  rfl

theorem places_cons_nil (start : Nat) (parts : List (Decoding Id)) :
    places start (part :: parts) [] =
      Outcome.both (· :: ·)
        (.error (.under (.index start .required) .missing) : Outcome Value)
        (places (m := Id) (start + 1) parts []) :=
  rfl

theorem entries_idempotent : ∀ {members out : Members},
    (∀ entry ∈ members, IdempotentAt part entry.2) →
    entries part members = .ok out → entries part out = .ok out
  | [], _, _, h => by
      obtain rfl := Except.ok.inj h
      rfl
  | (key, value) :: rest, _, hpart, h => by
      rw [entries_cons] at h
      obtain ⟨_, others, hfirst, hothers, rfl⟩ := Outcome.both_eq_ok h
      obtain ⟨a, hunder, rfl⟩ := Outcome.map_eq_ok hfirst
      have ha := hpart (key, value) List.mem_cons_self (Outcome.under_eq_ok hunder)
      have hrest := entries_idempotent
        (fun entry hentry => hpart entry (List.mem_cons_of_mem _ hentry)) hothers
      rw [entries_cons, ha, hrest]
      rfl

theorem items_idempotent : ∀ {values out : List Value} {index : Nat},
    (∀ value ∈ values, IdempotentAt part value) →
    items part index values = .ok out → items part index out = .ok out
  | [], _, _, _, h => by
      obtain rfl := Except.ok.inj h
      rfl
  | value :: rest, _, index, hpart, h => by
      rw [items_cons] at h
      obtain ⟨a, others, hfirst, hothers, rfl⟩ := Outcome.both_eq_ok h
      have ha := hpart value List.mem_cons_self (Outcome.under_eq_ok hfirst)
      have hrest := items_idempotent
        (fun value hvalue => hpart value (List.mem_cons_of_mem _ hvalue)) hothers
      rw [items_cons, ha, hrest]
      rfl

/-- Items without a place are left out, and the others decode again. -/
theorem places_idempotent : ∀ {parts : List (Decoding Id)} {values out : List Value}
    {index : Nat}, (∀ part ∈ parts, ∀ value ∈ values, IdempotentAt part value) →
    places index parts values = .ok out → places index parts out = .ok out
  | [], _, _, _, _, h => by
      obtain rfl := Except.ok.inj h
      rfl
  | _ :: parts, [], _, index, _, h => by
      rw [places_cons_nil] at h
      obtain ⟨_, _, hfirst, _⟩ := Outcome.both_eq_ok h
      cases hfirst
  | part :: parts, value :: values, _, index, hparts, h => by
      rw [places_cons] at h
      obtain ⟨a, others, hfirst, hothers, rfl⟩ := Outcome.both_eq_ok h
      have ha := hparts part List.mem_cons_self value List.mem_cons_self
        (Outcome.under_eq_ok hfirst)
      have hrest := places_idempotent (fun part hpart value hvalue =>
        hparts part (List.mem_cons_of_mem _ hpart) value (List.mem_cons_of_mem _ hvalue)) hothers
      rw [places_cons, ha, hrest]
      rfl

theorem record_idempotent {value : Value}
    (hpart : ∀ inner : Value, inner.depth < value.depth → IdempotentAt part inner) :
    IdempotentAt (record part) value := by
  intro a h
  obtain ⟨members, out, rfl, hout, rfl⟩ := record_eq_ok h
  have hagain := entries_idempotent (fun entry hentry =>
    hpart entry.2 (Value.depth_lt_of_member hentry)) hout
  show (entries (m := Id) part out).map Value.object = .ok (.object out)
  rw [hagain]
  rfl

theorem array_idempotent {value : Value}
    (hpart : ∀ inner : Value, inner.depth < value.depth → IdempotentAt part inner) :
    IdempotentAt (array part) value := by
  intro a h
  obtain ⟨values, out, rfl, hout, rfl⟩ := array_eq_ok h
  have hagain := items_idempotent (fun item hitem =>
    hpart item (Value.depth_lt_of_item hitem)) hout
  show (items (m := Id) part 0 out).map Value.array = .ok (.array out)
  rw [hagain]
  rfl

theorem tuple_idempotent {parts : List (Decoding Id)} {value : Value}
    (hparts : ∀ inner : Value, inner.depth < value.depth → ∀ part ∈ parts,
      IdempotentAt part inner) : IdempotentAt (tuple parts) value := by
  intro a h
  obtain ⟨values, out, rfl, hout, rfl⟩ := tuple_eq_ok h
  have hagain := places_idempotent (fun part hpart item hitem =>
    hparts item (Value.depth_lt_of_item hitem) part hpart) hout
  show (places (m := Id) 0 parts out).map Value.array = .ok (.array out)
  rw [hagain]
  rfl

end Items

/-! ## Intersections and unions -/

theorem intersection_idempotent {left right : Decoding Id} {value : Value}
    (hleft : IdempotentAt left value) (hright : IdempotentAt right value)
    (hmerge : ∀ a b, left.decode value = .ok a → right.decode value = .ok b →
      left.decode (merge a b) = left.decode a ∧ right.decode (merge a b) = right.decode b) :
    IdempotentAt (intersection left right) value := by
  intro c h
  obtain ⟨a, b, ha, hb, rfl⟩ := intersection_eq_ok h
  obtain ⟨hkeepl, hkeepr⟩ := hmerge a b ha hb
  show Outcome.both merge (left.decode (merge a b)) (right.decode (merge a b)) = _
  rw [hkeepl, hkeepr, hleft ha, hright hb]
  rfl

/-- A member of a union that leaves what a later member decoded as it is, when it takes it
at all. -/
def Yields (earlier later : Decoding Id) : Prop :=
  ∀ ⦃value a b : Value⦄ ⦃error : DecodeError⦄, earlier.decode value = .error error →
    later.decode value = .ok a → later.decode a = .ok a → earlier.decode a = .ok b → b = a

theorem firstOf_idempotent {value a : Value} : ∀ {rest : List (Decoding Id)}
    {part : Decoding Id} {index : Nat}, (part :: rest).Pairwise Yields →
    (∀ d ∈ part :: rest, IdempotentAt d value) →
    firstOf value index part rest = .ok a → firstOf a index part rest = .ok a
  | [], part, _, _, hparts, h => by
      have ha := hparts part List.mem_cons_self (Outcome.under_eq_ok h)
      rw [firstOf, ha]
      rfl
  | next :: rest, part, index, hyields, hparts, h => by
      obtain ⟨hpart, hyields⟩ := List.pairwise_cons.1 hyields
      cases hfirst : part.decode value with
      | ok b =>
          rw [firstOf, hfirst] at h
          obtain rfl := Except.ok.inj h
          rw [firstOf, hparts part List.mem_cons_self hfirst]
          rfl
      | error e =>
          have hrest := firstOf_of_error hfirst h
          have hparts : ∀ d ∈ next :: rest, IdempotentAt d value :=
            fun d hd => hparts d (List.mem_cons_of_mem _ hd)
          have hagain := firstOf_idempotent hyields hparts hrest
          -- The later member that decoded the value has decoded what is decoded now.
          obtain ⟨later, hlater, ha⟩ := exists_of_firstOf hrest
          rw [firstOf]
          cases hb : part.decode a with
          | ok b =>
              obtain rfl := hpart later hlater hfirst ha (hparts later hlater ha) hb
              rfl
          | error f =>
              rw [hagain]
              rfl

end Decoding

/-! ## Definitions -/

/-- The sums, intersections and unions that decode what they decoded to itself, over the
meanings of names: sums whose members leave the value that names them, intersections whose
sides are not disturbed by what the other one writes, and unions whose members leave what
a later one decoded. -/
def Requirement.steady (f : String → Decoding Id) : Requirement where
  sum tag members := ∀ value member a,
    Decoding.memberOf? tag (.ofList members) value = some member →
    (member.fold f).decode value = .ok a →
    Decoding.memberOf? tag (.ofList members) a = some member
  intersection left right := ∀ value a b,
    (left.fold f).decode value = .ok a → (right.fold f).decode value = .ok b →
    (left.fold f).decode (merge a b) = (left.fold f).decode a ∧
      (right.fold f).decode (merge a b) = (right.fold f).decode b
  union members := members.toList.Pairwise fun earlier later =>
    Decoding.Yields (earlier.fold f) (later.fold f)

section Fold

open Decoding

theorem foldFields_eq_map {A : Type} [Vocabulary A] (f : String → A) :
    ∀ fields : List (String × Definition),
      foldFields f fields = fields.map fun entry => (entry.1, entry.2.fold f)
  | [] => by rw [foldFields, List.map_nil]
  | (key, definition) :: rest => by
      rw [foldFields, foldFields_eq_map f rest, List.map_cons]

theorem foldMembers_eq_map {A : Type} [Vocabulary A] (f : String → A) :
    ∀ members : List (String × ObjectDefinition),
      foldMembers f members = members.map fun entry => (entry.1, entry.2.fold f)
  | [] => by rw [foldMembers, List.map_nil]
  | (key, definition) :: rest => by
      rw [foldMembers, foldMembers_eq_map f rest, List.map_cons]

theorem keys_foldFields {A : Type} [Vocabulary A] (f : String → A)
    (fields : List (String × Definition)) :
    Entries.keys (foldFields f fields) = Entries.keys fields := by
  rw [foldFields_eq_map]
  exact Entries.keys_mapValues (Definition.fold f) fields

/-- The fields of an object are read each under its key, the last where one is repeated. -/
theorem ofList_foldFields {A : Type} [Vocabulary A] (f : String → A)
    (fields : List (String × Definition)) :
    Entries.ofList (foldFields f fields) =
      (Entries.ofList fields).mapValues (Definition.fold f) := by
  rw [foldFields_eq_map]
  exact Entries.ofList_mapValues _ fields

theorem exists_of_mem_foldFields {A : Type} [Vocabulary A] {f : String → A}
    {fields : List (String × Definition)} {part : String × A}
    (h : part ∈ Entries.ofList (foldFields f fields)) :
    ∃ field ∈ fields, (field.1, field.2.fold f) = part := by
  have hmem := Entries.mem_of_mem_ofList h
  rw [foldFields_eq_map] at hmem
  exact List.mem_map.1 hmem

variable {f : String → Decoding Id}

theorem foldFields_idempotent {kind : FieldKind} {fields : List (String × Definition)}
    {value : Value}
    (h : ∀ inner : Value, inner.depth < value.depth →
      ∀ entry ∈ fields, IdempotentAt (entry.2.fold f) inner) :
    IdempotentAt (object kind (.ofList (foldFields f fields))) value := by
  refine object_idempotent (Entries.nodup_ofList _) fun part hpart inner hinner => ?_
  obtain ⟨entry, hentry, rfl⟩ := exists_of_mem_foldFields hpart
  exact h inner hinner entry hentry

theorem foldMembers_idempotent {tag : String} {members : List (String × ObjectDefinition)}
    {value : Value} (hsteady : (Requirement.steady f).sum tag members)
    (h : ∀ entry ∈ members, IdempotentAt (entry.2.fold f) value) :
    IdempotentAt (sum tag (.ofList (foldMembers f members))) value := by
  intro a ha
  obtain ⟨part, hpart, ha⟩ := sum_eq_ok ha
  rw [memberOf?_foldMembers] at hpart
  obtain ⟨member, hmember, rfl⟩ := Option.map_eq_some_iff.1 hpart
  obtain ⟨key, hkey⟩ := mem_of_memberOf? hmember
  have hagain : memberOf? tag (.ofList (foldMembers f members)) a = some (member.fold f) := by
    rw [memberOf?_foldMembers, hsteady value member a hmember ha]
    rfl
  rw [decode_sum hagain]
  exact h (key, member) (Entries.mem_of_mem_ofList hkey) ha

theorem foldUnion_idempotent {head : Definition} {tail : List Definition} {value : Value}
    (hsteady : (Requirement.steady f).union ⟨head, tail⟩)
    (hhead : IdempotentAt (head.fold f) value)
    (htail : ∀ definition ∈ tail, IdempotentAt (definition.fold f) value) :
    IdempotentAt (union ⟨head.fold f, foldComponents f tail⟩) value := by
  intro a ha
  have hmap : head.fold f :: foldComponents f tail = (head :: tail).map (Definition.fold f) := by
    rw [foldComponents_eq_map, List.map_cons]
  refine firstOf_idempotent ?_ ?_ ha
  · rw [hmap, List.pairwise_map]
    exact hsteady
  · intro d hd
    rw [hmap] at hd
    obtain ⟨definition, hdefinition, rfl⟩ := List.mem_map.1 hd
    rcases List.mem_cons.1 hdefinition with rfl | hdefinition
    · exact hhead
    · exact htail definition hdefinition

/-- Every name of a list decodes what it decoded from a value to itself. -/
def NamesIdempotent (f : String → Decoding Id) (names : List String) (value : Value) : Prop :=
  ∀ name ∈ names, IdempotentAt (f name) value

/-- Every name of a list does so on the values inside of a value. -/
def NamesIdempotentInside (f : String → Decoding Id) (names : List String) (value : Value) :
    Prop :=
  ∀ inner : Value, inner.depth < value.depth → NamesIdempotent f names inner

theorem NamesIdempotent.mono {names names' : List String} {value : Value}
    (hsub : names ⊆ names') (h : NamesIdempotent f names' value) : NamesIdempotent f names value :=
  fun name hname => h name (hsub hname)

theorem NamesIdempotentInside.mono {names names' : List String} {value : Value}
    (hsub : names ⊆ names') (h : NamesIdempotentInside f names' value) :
    NamesIdempotentInside f names value :=
  fun inner hinner => (h inner hinner).mono hsub

theorem NamesIdempotentInside.inside {names : List String} {value inner : Value}
    (h : NamesIdempotentInside f names value) (hinner : inner.depth < value.depth) :
    NamesIdempotentInside f names inner :=
  fun deeper hdeeper => h deeper (hdeeper.trans hinner)

mutual

/-- A steady definition decodes what it decoded to itself when its references do. -/
theorem Definition.fold_idempotent : ∀ (definition : Definition) {value : Value},
    definition.Meets (.steady f) → NamesIdempotentInside f definition.references value →
    NamesIdempotent f definition.bareReferences value → IdempotentAt (definition.fold f) value
  | .literal _, value, _, _, _ => by
      rw [Definition.fold]
      exact test_idempotent _ _ value
  | .literals _, value, _, _, _ => by
      rw [Definition.fold]
      exact test_idempotent _ _ value
  | .literalsOr values fallback, _, hmeets, hin, hbare => by
      simp only [Definition.Meets] at hmeets
      simp only [Definition.references] at hin
      simp only [Definition.bareReferences] at hbare
      rw [Definition.fold]
      exact literalsOr_idempotent values (fallback.fold_idempotent hmeets hin hbare)
  | .primitive _, value, _, _, _ => by
      rw [Definition.fold]
      exact test_idempotent _ _ value
  | .object _ fields, _, hmeets, hin, _ => by
      simp only [Definition.Meets] at hmeets
      simp only [Definition.references] at hin
      rw [Definition.fold]
      exact foldFields_idempotent fun inner hinner =>
        fields_fold_idempotent fields hmeets (hin.inside hinner) (hin inner hinner)
  | .record codomain, _, hmeets, hin, _ => by
      simp only [Definition.Meets] at hmeets
      simp only [Definition.references] at hin
      rw [Definition.fold]
      exact record_idempotent fun inner hinner => codomain.fold_idempotent hmeets
        (hin.inside hinner) ((hin inner hinner).mono fun _ => codomain.mem_references_of_bare)
  | .array item, _, hmeets, hin, _ => by
      simp only [Definition.Meets] at hmeets
      simp only [Definition.references] at hin
      rw [Definition.fold]
      exact array_idempotent fun inner hinner => item.fold_idempotent hmeets
        (hin.inside hinner) ((hin inner hinner).mono fun _ => item.mem_references_of_bare)
  | .tuple components, _, hmeets, hin, _ => by
      simp only [Definition.Meets] at hmeets
      simp only [Definition.references] at hin
      rw [Definition.fold]
      refine tuple_idempotent fun inner hinner part hpart => ?_
      rw [foldComponents_eq_map] at hpart
      obtain ⟨definition, hdefinition, rfl⟩ := List.mem_map.1 hpart
      exact components_fold_idempotent components hmeets (hin.inside hinner)
        ((hin inner hinner).mono fun _ => mem_componentReferences_of_bare) definition hdefinition
  | .intersection left right, value, hmeets, hin, hbare => by
      simp only [Definition.Meets] at hmeets
      simp only [Definition.references] at hin
      simp only [Definition.bareReferences] at hbare
      rw [Definition.fold]
      exact intersection_idempotent
        (left.fold_idempotent hmeets.2.1 (hin.mono (List.subset_append_left _ _))
          (hbare.mono (List.subset_append_left _ _)))
        (right.fold_idempotent hmeets.2.2 (hin.mono (List.subset_append_right _ _))
          (hbare.mono (List.subset_append_right _ _)))
        (hmeets.1 value)
  | .sum tag members, _, hmeets, hin, _ => by
      simp only [Definition.Meets] at hmeets
      simp only [Definition.references] at hin
      rw [Definition.fold]
      exact foldMembers_idempotent hmeets.1 (members_fold_idempotent members hmeets.2 hin)
  | .union ⟨head, tail⟩, _, hmeets, hin, hbare => by
      simp only [Definition.Meets] at hmeets
      simp only [Definition.references] at hin
      simp only [Definition.bareReferences] at hbare
      rw [Definition.fold]
      exact foldUnion_idempotent hmeets.1
        (head.fold_idempotent hmeets.2.1 (hin.mono (List.subset_append_left _ _))
          (hbare.mono (List.subset_append_left _ _)))
        (components_fold_idempotent tail hmeets.2.2 (hin.mono (List.subset_append_right _ _))
          (hbare.mono (List.subset_append_right _ _)))
  | .readonly inner, _, hmeets, hin, hbare => by
      simp only [Definition.Meets] at hmeets
      simp only [Definition.references] at hin
      simp only [Definition.bareReferences] at hbare
      rw [Definition.fold]
      exact inner.fold_idempotent hmeets hin hbare
  | .ref name, _, _, _, hbare => by
      rw [Definition.fold]
      exact hbare name (by simp only [Definition.bareReferences, List.mem_singleton])

theorem ObjectDefinition.fold_idempotent : ∀ (definition : ObjectDefinition) {value : Value},
    definition.Meets (.steady f) → NamesIdempotentInside f definition.references value →
    IdempotentAt (definition.fold f) value
  | .unknown, value, _, _ => by
      rw [ObjectDefinition.fold]
      exact test_idempotent _ _ value
  | .object _ fields, _, hmeets, hin => by
      simp only [ObjectDefinition.Meets] at hmeets
      simp only [ObjectDefinition.references] at hin
      rw [ObjectDefinition.fold]
      exact foldFields_idempotent fun inner hinner =>
        fields_fold_idempotent fields hmeets (hin.inside hinner) (hin inner hinner)
  | .record codomain, _, hmeets, hin => by
      simp only [ObjectDefinition.Meets] at hmeets
      simp only [ObjectDefinition.references] at hin
      rw [ObjectDefinition.fold]
      exact record_idempotent fun inner hinner => codomain.fold_idempotent hmeets
        (hin.inside hinner) ((hin inner hinner).mono fun _ => codomain.mem_references_of_bare)
  | .sum tag members, _, hmeets, hin => by
      simp only [ObjectDefinition.Meets] at hmeets
      simp only [ObjectDefinition.references] at hin
      rw [ObjectDefinition.fold]
      exact foldMembers_idempotent hmeets.1 (members_fold_idempotent members hmeets.2 hin)
  | .intersection left right, value, hmeets, hin => by
      simp only [ObjectDefinition.Meets] at hmeets
      simp only [ObjectDefinition.references] at hin
      have hsteady := hmeets.1 value
      rw [left.fold_definition, right.fold_definition] at hsteady
      rw [ObjectDefinition.fold]
      exact intersection_idempotent
        (left.fold_idempotent hmeets.2.1 (hin.mono (List.subset_append_left _ _)))
        (right.fold_idempotent hmeets.2.2 (hin.mono (List.subset_append_right _ _))) hsteady
  | .readonly inner, _, hmeets, hin => by
      simp only [ObjectDefinition.Meets] at hmeets
      simp only [ObjectDefinition.references] at hin
      rw [ObjectDefinition.fold]
      exact inner.fold_idempotent hmeets hin

theorem fields_fold_idempotent : ∀ (fields : List (String × Definition)) {value : Value},
    FieldsMeet (.steady f) fields → NamesIdempotentInside f (fieldReferences fields) value →
    NamesIdempotent f (fieldReferences fields) value →
    ∀ entry ∈ fields, IdempotentAt (entry.2.fold f) value
  | [], _, _, _, _, _, hentry => nomatch hentry
  | (key, definition) :: rest, _, hmeets, hin, hnames, entry, hentry => by
      simp only [FieldsMeet] at hmeets
      simp only [fieldReferences] at hin hnames
      rcases List.mem_cons.1 hentry with rfl | hentry
      · exact definition.fold_idempotent hmeets.1 (hin.mono (List.subset_append_left _ _))
          (hnames.mono fun _ hname =>
            List.mem_append_left _ (definition.mem_references_of_bare hname))
      · exact fields_fold_idempotent rest hmeets.2 (hin.mono (List.subset_append_right _ _))
          (hnames.mono (List.subset_append_right _ _)) entry hentry

theorem components_fold_idempotent : ∀ (components : List Definition) {value : Value},
    ComponentsMeet (.steady f) components →
    NamesIdempotentInside f (componentReferences components) value →
    NamesIdempotent f (bareComponentReferences components) value →
    ∀ definition ∈ components, IdempotentAt (definition.fold f) value
  | [], _, _, _, _, _, hdefinition => nomatch hdefinition
  | first :: rest, _, hmeets, hin, hbare, definition, hdefinition => by
      simp only [ComponentsMeet] at hmeets
      simp only [componentReferences] at hin
      simp only [bareComponentReferences] at hbare
      rcases List.mem_cons.1 hdefinition with heq | hdefinition
      · rw [heq]
        exact first.fold_idempotent hmeets.1 (hin.mono (List.subset_append_left _ _))
          (hbare.mono (List.subset_append_left _ _))
      · exact components_fold_idempotent rest hmeets.2 (hin.mono (List.subset_append_right _ _))
          (hbare.mono (List.subset_append_right _ _)) definition hdefinition

theorem members_fold_idempotent : ∀ (members : List (String × ObjectDefinition)) {value : Value},
    MembersMeet (.steady f) members → NamesIdempotentInside f (memberReferences members) value →
    ∀ entry ∈ members, IdempotentAt (entry.2.fold f) value
  | [], _, _, _, _, hentry => nomatch hentry
  | (key, definition) :: rest, _, hmeets, hin, entry, hentry => by
      simp only [MembersMeet] at hmeets
      simp only [memberReferences] at hin
      rcases List.mem_cons.1 hentry with rfl | hentry
      · exact definition.fold_idempotent hmeets.1 (hin.mono (List.subset_append_left _ _))
      · exact members_fold_idempotent rest hmeets.2 (hin.mono (List.subset_append_right _ _))
          entry hentry

end

end Fold

/-- **What is decoded decodes to itself**, by every name of a guarded document that is
steady over its own names. -/
theorem Document.decoder_idempotent {document : Document} (hguarded : document.Guarded)
    (hsteady : document.Meets (.steady document.decoder)) {name : String}
    (hname : name ∈ document.definitions.keys) (value : Value) :
    (document.decoder name).IdempotentAt value := by
  refine guarded_induction hguarded
    (p := fun name value => (document.decoder name).IdempotentAt value)
    (fun name definition value hfind hinner hbare => ?_) name value hname
  have hdefinition : (definition.fold document.decoder).IdempotentAt value :=
    definition.fold_idempotent (hsteady name definition hfind)
      (fun inner hdepth next hnext => hinner next hnext inner hdepth) hbare
  intro a h
  rw [decoder_of_find? hguarded hfind] at h ⊢
  rw [hdefinition (Outcome.under_eq_ok h)]
  rfl

end Schemata
