import Schemata.Proofs.Composition

/-!
# Sums whose members pin their tag

A sum goes by the tag of a value, a union tries its members in order.  Where every member of a
sum declares the tag, as the literal of its own key, the two are one: of the members at most one
takes a value, and that is the one which the value names.

**Input.**  Members under distinct keys, whatever functions their other fields are.

**Algorithm.**  A member is pinned to a key (`Coding.Pinned`) when all values that it takes, in
either direction, name this key.  An object with the tag for a required field is, wherever the
tag stands among its fields.  So whether one of the members takes a value is the same question as
whether the member that it names does, and it answers for both.

**Results.**

* `Coding.object_pinned`: objects with the literal of a key for their tag are pinned to it.
* `Coding.union_eq_ok_iff` and its companions: a union of members which do not disagree on a
  value does with it what any member does that takes it.
* `Coding.decode_sum_eq_ok_iff` and its companions: so does a sum of pinned members.
* `Coding.sum_is_union`: sums of objects which pin the tag are the unions of them.
-/

namespace Schemata

open Json (Value Members)

namespace Coding

open Decoding Encoding

/-- Two codings decode the same values and to the same, accept the same values, and encode
alike what they accept. -/
structure Interchangeable (c d : Coding Id) : Prop where
  decodes (value a : Value) : c.decoder.decode value = .ok a ↔ d.decoder.decode value = .ok a
  accepts (value : Value) : c.encoder.accepts value = d.encoder.accepts value
  encodes {value : Value} : c.encoder.accepts value = true →
    c.encoder.encode value = d.encoder.encode value

/-! ## Pinned members -/

/-- A coding takes only values that name a key in the field `tag`. -/
structure Pinned (tag key : String) (c : Coding Id) : Prop where
  decodes {value a : Value} : c.decoder.decode value = .ok a →
    value.member? tag = some (.string key)
  accepts {value : Value} : c.encoder.accepts value = true →
    value.member? tag = some (.string key)

/-- Every required field is there and decodes. -/
theorem exists_of_fields {members : Members} {key : String} {part : Decoding Id} :
    ∀ {parts : Entries (Decoding Id)} {out : Members},
      fields .required members parts = .ok out → (key, part) ∈ parts →
      ∃ value a, Value.get? key members = some value ∧ part.decode value = .ok a
  | (_, _) :: parts, _, h, hmem => by
      rw [fields_cons] at h
      obtain ⟨_, others, hfirst, hothers, _⟩ := Outcome.both_eq_ok h
      rcases List.mem_cons.1 hmem with heq | hlater
      · obtain ⟨rfl, rfl⟩ := Prod.mk.inj heq
        rcases field_eq_ok hfirst with ⟨value, a, hvalue, ha, _⟩ | ⟨_, hkind, _⟩
        · exact ⟨value, a, hvalue, ha⟩
        · cases hkind
      · exact exists_of_fields hothers hlater

/-- Every required field is there and accepted. -/
theorem exists_of_acceptsFields {members : Members} {key : String} {part : Encoding Id} :
    ∀ {parts : Entries (Encoding Id)},
      acceptsFields (m := Id) .required members parts = true → (key, part) ∈ parts →
      ∃ value, Value.get? key members = some value ∧ part.accepts value = true
  | (k, first) :: parts, h, hmem => by
      rw [acceptsFields] at h
      cases hget : Value.get? k members with
      | none =>
          rw [hget] at h
          cases h
      | some value =>
          rw [hget] at h
          obtain ⟨hfirst, hrest⟩ := Bool.and_eq_true_iff.1 ((andAlso_eq _ _).symm.trans h)
          rcases List.mem_cons.1 hmem with heq | hlater
          · obtain ⟨rfl, rfl⟩ := Prod.mk.inj heq
            exact ⟨value, hget, hfirst⟩
          · exact exists_of_acceptsFields hrest hlater

theorem eq_of_isMatch_text {key : String} {value : Value}
    (h : (NonEmpty.singleton (Literal.string key)).toList.any (·.isMatch value) = true) :
    value = .string key := by
  cases value with
  | string text =>
      have hsame : (key == text || false) = true := h
      rw [Bool.or_false, beq_iff_eq] at hsame
      rw [hsame]
  | _ => cases h

theorem eq_of_decode_literal {key : String} {value a : Value}
    (h : (Vocabulary.literal (.string key) : Decoding Id).decode value = .ok a) :
    value = .string key := by
  by_cases hmatch :
      (NonEmpty.singleton (Literal.string key)).toList.any (·.isMatch value) = true
  · exact eq_of_isMatch_text hmatch
  · exact absurd ((if_neg hmatch).symm.trans h) nofun

/-- **An object with the literal of a key for its tag is pinned to this key**, wherever the tag
stands among its fields. -/
theorem object_pinned {tag key : String} {parts : Entries (Coding Id)}
    (h : (tag, Vocabulary.literal (.string key)) ∈ parts) :
    (Vocabulary.object .required parts : Coding Id).Pinned tag key where
  decodes {value a} hdecode := by
    obtain ⟨members, out, rfl, hout, _⟩ := object_eq_ok hdecode
    obtain ⟨named, b, hnamed, hb⟩ := exists_of_fields hout (List.mem_map_of_mem h)
    show Value.get? tag members = _
    rw [hnamed, eq_of_decode_literal hb]
  accepts {value} haccepts := by
    cases value with
    | object members =>
        obtain ⟨named, hnamed, hmatch⟩ := exists_of_acceptsFields haccepts (List.mem_map_of_mem h)
        show Value.get? tag members = _
        rw [hnamed, eq_of_isMatch_text hmatch]
    | _ => cases haccepts

/-! ## Unions of which one member takes a value -/

section Union

variable {value : Value}

/-- Where a member decodes a value, the first of them that does gives the answer. -/
theorem exists_firstOf {d : Decoding Id} {a : Value} (ha : d.decode value = .ok a) :
    ∀ {rest : List (Decoding Id)} {part : Decoding Id} {index : Nat}, d ∈ part :: rest →
      ∃ b, firstOf value index part rest = (.ok b : Outcome Value)
  | [], part, index, hd => by
      obtain rfl := List.mem_singleton.1 hd
      refine ⟨a, ?_⟩
      rw [firstOf, ha]
      rfl
  | next :: rest, part, index, hd => by
      rw [firstOf_cons]
      cases hpart : (part.decode value : Outcome Value) with
      | ok b => exact ⟨b, rfl⟩
      | error error =>
          have hlater : d ∈ next :: rest := by
            rcases List.mem_cons.1 hd with rfl | hlater
            · cases hpart.symm.trans ha
            · exact hlater
          obtain ⟨b, hb⟩ := @exists_firstOf d a ha rest next (index + 1) hlater
          exact ⟨b, by rw [hb]⟩

theorem acceptsAny_eq_true : ∀ {es : List (Encoding Id)},
    acceptsAny value es = true ↔ ∃ e ∈ es, e.accepts value = true
  | [] => iff_of_false nofun nofun
  | e :: es => by
      rw [acceptsAny_cons, Bool.or_eq_true, acceptsAny_eq_true]
      exact (List.exists_mem_cons_iff (fun e : Encoding Id => e.accepts value = true) e es).symm

theorem exists_of_encodeFirst : ∀ {es : List (Encoding Id)}, acceptsAny value es = true →
    ∃ e ∈ es, e.accepts value = true ∧ encodeFirst value es = e.encode value
  | e :: es, h => by
      cases haccepts : e.accepts value with
      | true => exact ⟨e, List.mem_cons_self, haccepts, encodeFirst_of_accepts haccepts es⟩
      | false =>
          rw [acceptsAny_cons, haccepts] at h
          obtain ⟨e', he', haccepts', hencode⟩ := exists_of_encodeFirst h
          exact ⟨e', List.mem_cons_of_mem _ he', haccepts',
            (encodeFirst_of_rejects haccepts es).trans hencode⟩

variable {parts : NonEmpty (Coding Id)}

theorem exists_of_union {a : Value}
    (h : (Vocabulary.union parts : Coding Id).decoder.decode value = .ok a) :
    ∃ c ∈ parts.toList, c.decoder.decode value = .ok a := by
  obtain ⟨_, hd, ha⟩ := exists_of_firstOf h
  obtain ⟨c, hc, rfl⟩ := NonEmpty.mem_toList_map.1 hd
  exact ⟨c, hc, ha⟩

/-- Where the members that decode a value give the same, a union decodes it as any of them. -/
theorem union_eq_ok_iff
    (hsame : ∀ c ∈ parts.toList, ∀ d ∈ parts.toList, ∀ a b, c.decoder.decode value = .ok a →
      d.decoder.decode value = .ok b → a = b) (a : Value) :
    (Vocabulary.union parts : Coding Id).decoder.decode value = .ok a ↔
      ∃ c ∈ parts.toList, c.decoder.decode value = .ok a := by
  refine ⟨exists_of_union, fun ⟨c, hc, ha⟩ => ?_⟩
  have hmem : c.decoder ∈ (parts.map decoder).toList := NonEmpty.mem_toList_map.2 ⟨c, hc, rfl⟩
  obtain ⟨b, hb⟩ : ∃ b, (Vocabulary.union parts : Coding Id).decoder.decode value = .ok b :=
    exists_firstOf ha hmem
  obtain ⟨d, hd, hdb⟩ := exists_of_union hb
  rw [hb, hsame c hc d hd a b ha hdb]

theorem accepts_union_iff : (Vocabulary.union parts : Coding Id).encoder.accepts value = true ↔
    ∃ c ∈ parts.toList, c.encoder.accepts value = true := by
  refine acceptsAny_eq_true.trans ⟨fun ⟨_, he, haccepts⟩ => ?_, fun ⟨c, hc, haccepts⟩ => ?_⟩
  · obtain ⟨c, hc, rfl⟩ := NonEmpty.mem_toList_map.1 he
    exact ⟨c, hc, haccepts⟩
  · exact ⟨c.encoder, NonEmpty.mem_toList_map.2 ⟨c, hc, rfl⟩, haccepts⟩

/-- A union encodes what it accepts by a member that accepts it. -/
theorem exists_of_accepts_union
    (h : (Vocabulary.union parts : Coding Id).encoder.accepts value = true) :
    ∃ c ∈ parts.toList, c.encoder.accepts value = true ∧
      (Vocabulary.union parts : Coding Id).encoder.encode value = c.encoder.encode value := by
  obtain ⟨_, he, haccepts, hencode⟩ := exists_of_encodeFirst h
  obtain ⟨c, hc, rfl⟩ := NonEmpty.mem_toList_map.1 he
  exact ⟨c, hc, haccepts, hencode⟩

end Union

/-! ## Sums of pinned members -/

section Sum

variable {tag key : String} {value : Value} {c : Coding Id} {members : Entries (Coding Id)}

/-- Under distinct keys, the member that a value names is the one under that key. -/
theorem memberOf?_eq_some {α : Type} (f : Coding Id → α) (hkeys : members.keys.Nodup)
    (hmem : (key, c) ∈ members) (hnames : value.member? tag = some (.string key)) :
    memberOf? tag (members.mapValues f) value = some (f c) := by
  rw [memberOf?, hnames]
  exact Entries.lookup_of_mem (by rwa [Entries.keys_mapValues]) (List.mem_map_of_mem hmem)

theorem exists_of_memberOf? {α : Type} {f : Coding Id → α} {part : α}
    (h : memberOf? tag (members.mapValues f) value = some part) :
    ∃ member ∈ members, f member.2 = part := by
  obtain ⟨_, hpart⟩ := mem_of_memberOf? h
  obtain ⟨member, hmember, heq⟩ := List.mem_map.1 hpart
  exact ⟨member, hmember, congrArg Prod.snd heq⟩

/-- A sum accepts values that name a member which accepts them. -/
theorem exists_of_accepts_sum {es : Entries (Encoding Id)}
    (h : (Encoding.sum tag es).accepts value = true) :
    ∃ e, memberOf? tag es value = some e ∧ e.accepts value = true := by
  cases he : memberOf? tag es value with
  | some e => exact ⟨e, rfl, (accepts_sum he).symm.trans h⟩
  | none =>
      simp only [Encoding.sum, he] at h
      cases h

variable (hkeys : members.keys.Nodup)
  (hpinned : ∀ member ∈ members, member.2.Pinned tag member.1)

include hkeys hpinned

/-- A sum of pinned members decodes what one of them does, and as this one does. -/
theorem decode_sum_eq_ok_iff (a : Value) :
    (Vocabulary.sum tag members : Coding Id).decoder.decode value = .ok a ↔
      ∃ member ∈ members, member.2.decoder.decode value = .ok a := by
  constructor
  · intro h
    obtain ⟨_, hpart, ha⟩ := sum_eq_ok h
    obtain ⟨member, hmember, rfl⟩ := exists_of_memberOf? hpart
    exact ⟨member, hmember, ha⟩
  · -- The member that takes the value is the one that it names.
    rintro ⟨member, hmember, ha⟩
    have hnames := (hpinned member hmember).decodes ha
    exact (decode_sum (memberOf?_eq_some decoder hkeys hmember hnames)).trans ha

/-- A sum of pinned members accepts what one of them does. -/
theorem accepts_sum_iff :
    (Vocabulary.sum tag members : Coding Id).encoder.accepts value = true ↔
      ∃ member ∈ members, member.2.encoder.accepts value = true := by
  constructor
  · intro h
    obtain ⟨_, hpart, haccepts⟩ := exists_of_accepts_sum h
    obtain ⟨member, hmember, rfl⟩ := exists_of_memberOf? hpart
    exact ⟨member, hmember, haccepts⟩
  · rintro ⟨member, hmember, haccepts⟩
    have hnames := (hpinned member hmember).accepts haccepts
    exact (accepts_sum (memberOf?_eq_some encoder hkeys hmember hnames)).trans haccepts

/-- A sum of pinned members encodes as each of them that accepts the value. -/
theorem encode_sum_eq {member : String × Coding Id} (hmember : member ∈ members)
    (haccepts : member.2.encoder.accepts value = true) :
    (Vocabulary.sum tag members : Coding Id).encoder.encode value =
      member.2.encoder.encode value :=
  encode_sum (memberOf?_eq_some encoder hkeys hmember ((hpinned member hmember).accepts haccepts))

end Sum

/-- Members under distinct keys that they are pinned to: the sum of them is their union. -/
theorem sum_is_union_of_pinned {tag : String} {members : NonEmpty (String × Coding Id)}
    (hkeys : (Entries.keys members.toList).Nodup)
    (hpinned : ∀ member ∈ members.toList, member.2.Pinned tag member.1) :
    Interchangeable (Vocabulary.sum tag members.toList)
      (Vocabulary.union (members.map Prod.snd)) := by
  have hparts (P : Coding Id → Prop) : (∃ member ∈ members.toList, P member.2) ↔
      ∃ c ∈ (members.map Prod.snd).toList, P c := by
    constructor
    · rintro ⟨member, hmember, h⟩
      exact ⟨member.2, NonEmpty.mem_toList_map.2 ⟨member, hmember, rfl⟩, h⟩
    · rintro ⟨c, hc, h⟩
      obtain ⟨member, hmember, rfl⟩ := NonEmpty.mem_toList_map.1 hc
      exact ⟨member, hmember, h⟩
  have hdecode (value a : Value) := (@decode_sum_eq_ok_iff tag value _ hkeys hpinned a).trans
    (hparts fun c => c.decoder.decode value = .ok a)
  have haccepts (value : Value) := (@accepts_sum_iff tag value _ hkeys hpinned).trans
    ((hparts fun c => c.encoder.accepts value = true).trans accepts_union_iff.symm)
  refine ⟨fun value a => ?_, fun value => Bool.eq_iff_iff.2 (haccepts value), fun {value} h => ?_⟩
  · refine (hdecode value a).trans (union_eq_ok_iff (fun c hc d hd a b ha hb => ?_) a).symm
    have ha := (hdecode value a).2 ⟨c, hc, ha⟩
    have hb := (hdecode value b).2 ⟨d, hd, hb⟩
    exact Except.ok.inj (ha.symm.trans hb)
  · obtain ⟨c, hc, hcaccepts, hencode⟩ := exists_of_accepts_union ((haccepts value).1 h)
    obtain ⟨member, hmember, rfl⟩ := NonEmpty.mem_toList_map.1 hc
    exact (encode_sum_eq hkeys hpinned hmember hcaccepts).trans hencode.symm

/-- **A sum whose members pin their tag is the union of its members.**  The members are
objects, each of which declares the tag as the literal of its own key, at any place among its
fields; the other fields are any functions. -/
theorem sum_is_union {tag : String} {members : NonEmpty (String × Entries (Coding Id))}
    (hkeys : (Entries.keys members.toList).Nodup)
    (htag : ∀ member ∈ members.toList, (tag, Vocabulary.literal (.string member.1)) ∈ member.2) :
    Interchangeable
      (Vocabulary.sum tag (Entries.mapValues (Vocabulary.object .required) members.toList))
      (Vocabulary.union (members.map fun member => Vocabulary.object .required member.2)) := by
  let objects : NonEmpty (String × Coding Id) :=
    members.map fun member => (member.1, Vocabulary.object .required member.2)
  have hobjects : objects.toList =
      Entries.mapValues (Vocabulary.object .required) members.toList := rfl
  have hunion : objects.map Prod.snd =
      members.map fun member => Vocabulary.object .required member.2 := by
    simp [objects, NonEmpty.map]
  rw [← hobjects, ← hunion]
  refine sum_is_union_of_pinned ?_ fun object hobject => ?_
  · rwa [hobjects, Entries.keys_mapValues]
  · obtain ⟨member, hmember, rfl⟩ := NonEmpty.mem_toList_map.1 hobject
    exact object_pinned (htag member hmember)

/-- Two kinds of entries, with the tag in front of the other field and after it. -/
def pagesAndLinks : NonEmpty (String × Entries (Coding Id)) where
  head := ("page",
    [("kind", Vocabulary.literal (.string "page")), ("title", Vocabulary.primitive .string)])
  tail := [("link",
    [("href", Vocabulary.primitive .string), ("kind", Vocabulary.literal (.string "link"))])]

theorem pagesAndLinks_interchangeable :
    let sum : Coding Id :=
      Vocabulary.sum "kind" (Entries.mapValues (Vocabulary.object .required) pagesAndLinks.toList)
    let union : Coding Id :=
      Vocabulary.union (pagesAndLinks.map fun member => Vocabulary.object .required member.2)
    let link : Value := .object [("kind", .string "link"), ("href", .string "a.html")]
    let decoded : Value := .object [("href", .string "a.html"), ("kind", .string "link")]
    Interchangeable sum union ∧
      sum.decoder.decode link = .ok decoded ∧ union.decoder.decode link = .ok decoded := by
  have hkeys : (Entries.keys pagesAndLinks.toList).Nodup := by decide
  have hinterchangeable := @sum_is_union "kind" pagesAndLinks hkeys (by
    intro member hmember
    rcases List.mem_cons.1 hmember with rfl | hmember
    · exact List.mem_cons_self
    · obtain rfl := List.mem_singleton.1 hmember
      exact List.mem_cons_of_mem _ List.mem_cons_self)
  intro sum union link decoded
  have hsum : sum.decoder.decode link = .ok decoded := rfl
  exact ⟨hinterchangeable, hsum, (hinterchangeable.decodes link decoded).1 hsum⟩

end Coding
end Schemata
