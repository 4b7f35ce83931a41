import Schemata.Proofs.Composition
import Schemata.Proofs.RoundTrip

/-!
# Round trips of intersections

Both sides of an intersection take the same input, and what they give is merged one level
deep: under a key that both give, the right value is kept.  So the left side may no longer
find what it gave, and an intersection of codings that round-trip need not round-trip
(`corners_not_round_trip`).

Nothing is lost when each side keeps to keys of its own, and under the keys that they share
both give the same in both directions (`Coding.Concurs`), as sides without a shared key do
(`Coding.Concurs.of_disjoint`).  A coding keeps to keys (`Coding.Within`) when they are all
that it gives and all that it looks at.

**Results.**

* `Coding.object_within` and its companions: what keeps to keys.
* `Coding.object_concurs`: objects with the same parts under the keys that they share concur.
* `Coding.intersection_within`: intersections keep to the keys of both sides.
* `Coding.intersection_round_trips`: intersections of sides that keep to keys and concur
  under shared ones round-trip when the sides do.
-/

namespace Schemata

open Json (Value Members)

/-! ## Members written over members -/

section Merge

variable {xs ys : Members} {ks ls : List String}

theorem get?_setAll (hys : (Entries.keys ys).Nodup) (key : String) :
    Value.get? key (Entries.setAll xs ys) = (Value.get? key ys).or (Value.get? key xs) :=
  Entries.lookup_setAll key hys

theorem get?_of_subset (h : Entries.keys xs ⊆ ks) {key : String} (hkey : key ∉ ks) :
    Value.get? key xs = none :=
  Entries.lookup_eq_none fun hmem => hkey (h hmem)

theorem keys_setAll_subset (hxs : Entries.keys xs ⊆ ks) (hys : Entries.keys ys ⊆ ls) :
    Entries.keys (Entries.setAll xs ys) ⊆ ks ++ ls := by
  intro key hkey
  rcases Entries.mem_keys_setAll.1 hkey with h | h
  · exact List.mem_append_right _ (hys h)
  · exact List.mem_append_left _ (hxs h)

/-- Where members over two sets of keys agree under the keys of both, each stands in the
merged ones as it was. -/
theorem get?_setAll_of_agree (hxs : Entries.keys xs ⊆ ks) (hys : Entries.keys ys ⊆ ls)
    (hnodup : (Entries.keys ys).Nodup)
    (hagree : ∀ key ∈ ks, key ∈ ls → Value.get? key xs = Value.get? key ys) :
    (∀ key ∈ ks, Value.get? key (Entries.setAll xs ys) = Value.get? key xs) ∧
      ∀ key ∈ ls, Value.get? key (Entries.setAll xs ys) = Value.get? key ys := by
  constructor
  · intro key hkey
    rw [get?_setAll hnodup]
    by_cases hmem : key ∈ ls
    · rw [← hagree key hkey hmem, Option.or_self]
    · rw [get?_of_subset hys hmem, Option.none_or]
  · intro key hkey
    rw [get?_setAll hnodup]
    by_cases hmem : key ∈ ks
    · rw [hagree key hmem hkey, Option.or_self]
    · rw [get?_of_subset hxs hmem, Option.or_none]

end Merge

namespace Coding

open Decoding Encoding

/-! ## Codings that keep to keys -/

/-- A coding that decodes to objects over some keys, and for which nothing else of an
object counts in either direction. -/
structure Within (c : Coding Id) (keys : List String) : Prop where
  decodes {input a : Value} : c.decoder.decode input = .ok a →
    ∃ out, a = .object out ∧ (Entries.keys out).Nodup ∧ Entries.keys out ⊆ keys
  reads {members members' : Members} {a : Value} :
    (∀ key ∈ keys, Value.get? key members = Value.get? key members') →
    c.decoder.decode (.object members) = .ok a → c.decoder.decode (.object members') = .ok a
  encodes (members : Members) :
    ∃ out, c.encoder.encode (.object members) = .object out ∧ (Entries.keys out).Nodup ∧
      Entries.keys out ⊆ keys
  writes {members members' : Members} :
    (∀ key ∈ keys, Value.get? key members = Value.get? key members') →
    c.encoder.encode (.object members) = c.encoder.encode (.object members')

/-- Where both decode an input, they give the same under the keys of both, also when that
is encoded. -/
def Concurs (left right : Coding Id) (ks ls : List String) : Prop :=
  ∀ ⦃input a b : Value⦄, left.decoder.decode input = .ok a → right.decoder.decode input = .ok b →
    ∀ key ∈ ks, key ∈ ls → a.member? key = b.member? key ∧
      (left.encoder.encode a).member? key = (right.encoder.encode b).member? key

variable {c left right : Coding Id} {ks ls keys : List String}

theorem Concurs.of_disjoint (h : ks.Disjoint ls) : Concurs left right ks ls :=
  fun _ _ _ _ _ _ hk hl => absurd hl (h hk)

theorem object_within (kind : FieldKind) {parts : Entries (Coding Id)}
    (hnodup : parts.keys.Nodup) :
    (Vocabulary.object kind parts : Coding Id).Within parts.keys where
  decodes {input a} h := by
    obtain ⟨_, out, _, hout, rfl⟩ := object_eq_ok h
    have hsub := keys_sublist_of_fields hout
    rw [Entries.keys_mapValues] at hsub
    exact ⟨out, rfl, hnodup.sublist hsub, hsub.subset⟩
  reads {members members' a} hget h := by
    have hfields : fields (m := Id) kind members (parts.mapValues decoder) =
        fields (m := Id) kind members' (parts.mapValues decoder) :=
      fields_congr (by rwa [Entries.keys_mapValues])
    show (fields (m := Id) kind members' (parts.mapValues decoder)).map Value.object = .ok a
    rw [← hfields]
    exact h
  encodes members := by
    have hsub := keys_sublist_of_encodeFields members (parts.mapValues encoder)
    rw [Entries.keys_mapValues] at hsub
    exact ⟨_, rfl, hnodup.sublist hsub, hsub.subset⟩
  writes {members members'} hget := by
    have hfields : encodeFields (m := Id) members (parts.mapValues encoder) =
        encodeFields (m := Id) members' (parts.mapValues encoder) :=
      encodeFields_congr (by rwa [Entries.keys_mapValues])
    exact congrArg Value.object hfields

theorem refine_within (h : c.Within keys) (holds : Value → Bool) (expected : String) :
    (Vocabulary.custom (.refine holds expected) c : Coding Id).Within keys where
  decodes ha := h.decodes (refine_eq_ok.1 ha).1
  reads hget ha := refine_eq_ok.2 ⟨h.reads hget (refine_eq_ok.1 ha).1, (refine_eq_ok.1 ha).2⟩
  encodes := h.encodes
  writes := h.writes

theorem reworded_within (h : c.Within keys) {change : Custom}
    (hchange : (∃ expected, change = .relabel expected) ∨ ∃ message, change = .annotate message) :
    (Vocabulary.custom change c : Coding Id).Within keys := by
  have hencode (value : Value) :
      (Vocabulary.custom change c : Coding Id).encoder.encode value = c.encoder.encode value := by
    rcases hchange with ⟨_, rfl⟩ | ⟨_, rfl⟩ <;> rfl
  exact {
    decodes := fun ha => h.decodes ((reworded_eq_ok hchange).1 ha)
    reads := fun hget ha =>
      (reworded_eq_ok hchange).2 (h.reads hget ((reworded_eq_ok hchange).1 ha))
    encodes := fun members => by
      rw [hencode]
      exact h.encodes members
    writes := fun hget => by
      rw [hencode, hencode]
      exact h.writes hget }

theorem intersection_within (hleft : left.Within ks) (hright : right.Within ls) :
    (Vocabulary.intersection left right : Coding Id).Within (ks ++ ls) where
  decodes {input c} h := by
    obtain ⟨_, _, ha, hb, rfl⟩ := intersection_eq_ok h
    obtain ⟨xs, rfl, hxs, hsubxs⟩ := hleft.decodes ha
    obtain ⟨ys, rfl, _, hsubys⟩ := hright.decodes hb
    exact ⟨_, rfl, Entries.nodup_setAll ys hxs, keys_setAll_subset hsubxs hsubys⟩
  reads {members members' c} hget h := by
    obtain ⟨a, b, ha, hb, rfl⟩ := intersection_eq_ok h
    have ha := hleft.reads (fun key hkey => hget key (List.mem_append_left _ hkey)) ha
    have hb := hright.reads (fun key hkey => hget key (List.mem_append_right _ hkey)) hb
    show Outcome.both merge (left.decoder.decode _) (right.decoder.decode _) = _
    rw [ha, hb]
    rfl
  encodes members := by
    obtain ⟨xs, hxs, hnodup, hsubxs⟩ := hleft.encodes members
    obtain ⟨ys, hys, _, hsubys⟩ := hright.encodes members
    refine ⟨Entries.setAll xs ys, ?_, Entries.nodup_setAll ys hnodup,
      keys_setAll_subset hsubxs hsubys⟩
    show merge (left.encoder.encode _) (right.encoder.encode _) = _
    rw [hxs, hys]
    rfl
  writes {members members'} hget := by
    have hl := hleft.writes fun key hkey => hget key (List.mem_append_left _ hkey)
    have hr := hright.writes fun key hkey => hget key (List.mem_append_right _ hkey)
    exact congrArg₂ merge hl hr

/-! ## Shared fields -/

section Shared

variable {kind kind' : FieldKind} {members out : Members} {key : String}

theorem exists_mem_of_mem_keys {α : Type} {entries : Entries α} (h : key ∈ entries.keys) :
    ∃ a, (key, a) ∈ entries := by
  obtain ⟨⟨_, a⟩, ha, rfl⟩ := List.mem_map.1 h
  exact ⟨a, ha⟩

theorem mem_mapValues {α β : Type} (f : α → β) {entries : Entries α} {a : α}
    (h : (key, a) ∈ entries) : (key, f a) ∈ entries.mapValues f :=
  List.mem_map.2 ⟨(key, a), h, rfl⟩

/-- What fields give under the key of a part is what the part makes of the value there. -/
theorem get?_fields : ∀ {parts : Entries (Decoding Id)} {out : Members} {part : Decoding Id},
    parts.keys.Nodup → fields kind members parts = .ok out → (key, part) ∈ parts →
    Value.get? key out = (Value.get? key members).bind fun value =>
      Except.toOption (part.decode value : Outcome Value)
  | (k, first) :: parts, _, part, hnodup, h, hmem => by
      obtain ⟨hk, hrest⟩ : k ∉ Entries.keys parts ∧ (Entries.keys parts).Nodup :=
        List.nodup_cons.1 hnodup
      rw [fields_cons] at h
      obtain ⟨given, others, hfirst, hothers, rfl⟩ := Outcome.both_eq_ok h
      rcases List.mem_cons.1 hmem with heq | hlater
      · obtain ⟨rfl, rfl⟩ := Prod.mk.inj heq
        rcases field_eq_ok hfirst with ⟨value, a, hvalue, ha, rfl⟩ | ⟨hvalue, _, rfl⟩
        · rw [hvalue, List.singleton_append, get?_cons_self, Option.bind_some, ha]
          rfl
        · rw [hvalue, List.nil_append]
          exact get?_of_subset (keys_sublist_of_fields hothers).subset hk
      · have hne : key ≠ k := by
          rintro rfl
          exact hk (List.mem_map.2 ⟨(key, part), hlater, rfl⟩)
        rw [← get?_fields hrest hothers hlater]
        rcases field_eq_ok hfirst with ⟨_, a, _, _, rfl⟩ | ⟨_, _, rfl⟩
        · exact get?_cons_of_ne hne _ _
        · rfl

theorem get?_encodeFields : ∀ {parts : Entries (Encoding Id)} {part : Encoding Id},
    parts.keys.Nodup → (key, part) ∈ parts →
    Value.get? key (encodeFields (m := Id) members parts) =
      (Value.get? key members).map fun value => (part.encode value : Value)
  | (k, first) :: parts, part, hnodup, hmem => by
      obtain ⟨hk, hrest⟩ : k ∉ Entries.keys parts ∧ (Entries.keys parts).Nodup :=
        List.nodup_cons.1 hnodup
      rcases List.mem_cons.1 hmem with heq | hlater
      · obtain ⟨rfl, rfl⟩ := Prod.mk.inj heq
        cases hget : Value.get? key members with
        | some value =>
            rw [encodeFields_of_some hget, get?_cons_self]
            rfl
        | none =>
            rw [encodeFields_of_none hget]
            exact get?_of_subset (keys_sublist_of_encodeFields members _).subset hk
      · have hne : key ≠ k := by
          rintro rfl
          exact hk (List.mem_map.2 ⟨(key, part), hlater, rfl⟩)
        rw [← get?_encodeFields hrest hlater]
        cases hget : Value.get? k members with
        | some value =>
            rw [encodeFields_of_some hget]
            exact get?_cons_of_ne hne _ _
        | none => rw [encodeFields_of_none hget]

/-- Objects with the same part under every key that they share concur. -/
theorem object_concurs {parts parts' : Entries (Coding Id)} (hnodup : parts.keys.Nodup)
    (hnodup' : parts'.keys.Nodup)
    (hshared : ∀ key c d, (key, c) ∈ parts → (key, d) ∈ parts' → c = d) :
    Concurs (Vocabulary.object kind parts) (Vocabulary.object kind' parts') parts.keys
      parts'.keys := by
  intro input a b ha hb key hkey hkey'
  obtain ⟨members, out, rfl, hout, rfl⟩ := object_eq_ok ha
  obtain ⟨_, out', heq, hout', rfl⟩ := object_eq_ok hb
  obtain rfl := Value.object.inj heq
  obtain ⟨c, hc⟩ := exists_mem_of_mem_keys hkey
  obtain ⟨d, hd⟩ := exists_mem_of_mem_keys hkey'
  obtain rfl := hshared key c d hc hd
  have hget : Value.get? key out = Value.get? key out' := by
    rw [get?_fields (by rwa [Entries.keys_mapValues]) hout (mem_mapValues decoder hc),
      get?_fields (by rwa [Entries.keys_mapValues]) hout' (mem_mapValues decoder hd)]
  refine ⟨hget, ?_⟩
  show Value.get? key (encodeFields (m := Id) out _) =
    Value.get? key (encodeFields (m := Id) out' _)
  rw [get?_encodeFields (by rwa [Entries.keys_mapValues]) (mem_mapValues encoder hc),
    get?_encodeFields (by rwa [Entries.keys_mapValues]) (mem_mapValues encoder hd), hget]

end Shared

/-! ## Intersections -/

/-- **Round trips of intersections.**  An intersection whose sides round-trip, keep to keys
and concur under the keys of both round-trips, and keeps to the keys of both. -/
theorem intersection_round_trips (hleft : left.RoundTrips) (hright : right.RoundTrips)
    (hks : left.Within ks) (hls : right.Within ls) (hconcur : Concurs left right ks ls) :
    (Vocabulary.intersection left right : Coding Id).RoundTrips ∧
      (Vocabulary.intersection left right : Coding Id).Within (ks ++ ls) := by
  refine ⟨?_, intersection_within hks hls⟩
  intro input c h
  obtain ⟨_, _, ha, hb, rfl⟩ := intersection_eq_ok h
  obtain ⟨xs, rfl, -, hxs⟩ := hks.decodes ha
  obtain ⟨ys, rfl, hnodup, hys⟩ := hls.decodes hb
  obtain ⟨xs', hxs', -, hsubxs⟩ := hks.encodes xs
  obtain ⟨ys', hys', hnodup', hsubys⟩ := hls.encodes ys
  have hagree := fun key hk hl => hconcur ha hb key hk hl
  rw [hxs', hys'] at hagree
  -- Each side finds what it decoded, and then what it encoded, in the merged object.
  obtain ⟨hgetl, hgetr⟩ := get?_setAll_of_agree hxs hys hnodup fun key hk hl => (hagree key hk hl).1
  obtain ⟨hgetl', hgetr'⟩ :=
    get?_setAll_of_agree hsubxs hsubys hnodup' fun key hk hl => (hagree key hk hl).2
  have hencode : (Vocabulary.intersection left right : Coding Id).encoder.encode
      (merge (.object xs) (.object ys)) = .object (Entries.setAll xs' ys') := by
    show merge (left.encoder.encode (.object (Entries.setAll xs ys)))
      (right.encoder.encode (.object (Entries.setAll xs ys))) = _
    rw [hks.writes hgetl, hls.writes hgetr, hxs', hys']
    rfl
  have ha' := hleft ha
  rw [hxs'] at ha'
  have hb' := hright hb
  rw [hys'] at hb'
  rw [hencode]
  show Outcome.both merge (left.decoder.decode _) (right.decoder.decode _) = _
  rw [hks.reads (fun key hkey => (hgetl' key hkey).symm) ha',
    hls.reads (fun key hkey => (hgetr' key hkey).symm) hb']
  rfl

/-- The fields of a line. -/
def lineFields : Entries (Coding Id) :=
  [("kind", Vocabulary.primitive .string), ("width", Vocabulary.primitive .number)]

/-- The fields of what has a unit. -/
def unitFields : Entries (Coding Id) :=
  [("unit", Vocabulary.primitive .string), ("kind", Vocabulary.primitive .string)]

/-- The field of a page. -/
def pageFields : Entries (Coding Id) := [("page", Vocabulary.primitive .number)]

/-- Whether an object has a positive number under the key of pages. -/
def hasPage (value : Value) : Bool :=
  match value.member? "page" with
  | some (.number (.integer number)) => decide (0 < number)
  | _ => false

/-- Pages, by positive numbers. -/
def page : Coding Id :=
  Vocabulary.custom (.annotate "not on a page") (Vocabulary.custom (.refine hasPage "a page")
    (Vocabulary.object .required pageFields))

/-- Lines with a unit, on a page.  The first two sides declare the kind, as a text. -/
def line : Coding Id :=
  Vocabulary.intersection
    (Vocabulary.intersection (Vocabulary.object .required lineFields)
      (Vocabulary.object .optional unitFields)) page

theorem page_roundTrips : page.RoundTrips := by
  have hfields : pageFields.keys.Nodup := List.nodup_singleton _
  have hparts : ∀ entry ∈ pageFields, entry.2.RoundTrips :=
    List.forall_mem_singleton.2 (primitive_roundTrips .number)
  have hobject := object_roundTrips .required hfields hparts
  exact reworded_roundTrips (refine_roundTrips hobject _ _) (.inr ⟨_, rfl⟩)

theorem page_within : page.Within pageFields.keys := by
  have hfields : pageFields.keys.Nodup := List.nodup_singleton _
  exact reworded_within (refine_within (object_within .required hfields) _ _) (.inr ⟨_, rfl⟩)

theorem line_round_trips :
    let decoded : Value := .object [("kind", .string "line"), ("width", .number (.integer 2)),
      ("unit", .string "cm"), ("page", .number (.integer 1))]
    line.decoder.decode (.object [("unit", .string "cm"), ("width", .number (.integer 2)),
        ("page", .number (.integer 1)), ("note", .null), ("kind", .string "line")]) =
        .ok decoded ∧
      line.decoder.decode (line.encoder.encode decoded) = .ok decoded := by
  have hleft : lineFields.keys.Nodup := by decide
  have hright : unitFields.keys.Nodup := by decide
  have hline : ∀ entry ∈ lineFields, entry.2.RoundTrips := by
    simp only [lineFields, List.forall_mem_cons]
    exact ⟨primitive_roundTrips .string, primitive_roundTrips .number, nofun⟩
  have hunit : ∀ entry ∈ unitFields, entry.2.RoundTrips := by
    simp only [unitFields, List.forall_mem_cons]
    exact ⟨primitive_roundTrips .string, primitive_roundTrips .string, nofun⟩
  have hshared : ∀ key c d, (key, c) ∈ lineFields → (key, d) ∈ unitFields → c = d := by
    intro key c d hc hd
    simp only [lineFields, unitFields, List.mem_cons, List.not_mem_nil, or_false,
      Prod.mk.injEq] at hc hd
    grind
  obtain ⟨hround, hwithin⟩ :=
    intersection_round_trips (object_roundTrips .required hleft hline)
      (object_roundTrips .optional hright hunit) (object_within .required hleft)
      (object_within .optional hright) (object_concurs hleft hright hshared)
  have hdisjoint : (lineFields.keys ++ unitFields.keys).Disjoint pageFields.keys :=
    List.disjoint_singleton.2 (by decide)
  have hround : line.RoundTrips :=
    (intersection_round_trips hround page_roundTrips hwithin page_within (.of_disjoint hdisjoint)).1
  have hdecode : line.decoder.decode (.object [("unit", .string "cm"),
      ("width", .number (.integer 2)), ("page", .number (.integer 1)), ("note", .null),
      ("kind", .string "line")]) =
      .ok (.object [("kind", .string "line"), ("width", .number (.integer 2)),
        ("unit", .string "cm"), ("page", .number (.integer 1))]) := rfl
  exact ⟨hdecode, hround hdecode⟩

/-- An object with a number under a key inside of it. -/
def corner (key : String) : Coding Id :=
  Vocabulary.object .required
    [("at", Vocabulary.object .required [(key, Vocabulary.primitive .number)])]

/-- Corners round-trip, and what two of them decode does not decode again: of what is at
the corner the left one finds nothing in the merged object. -/
theorem corners_not_round_trip :
    let both : Coding Id := Vocabulary.intersection (corner "x") (corner "y")
    let decoded : Value := .object [("at", .object [("y", .number (.integer 2))])]
    ((corner "x").RoundTrips ∧ (corner "y").RoundTrips) ∧
      both.decoder.decode (.object
        [("at", .object [("x", .number (.integer 1)), ("y", .number (.integer 2))])]) =
        .ok decoded ∧
      both.decoder.decode (both.encoder.encode decoded) =
        .error (.under (.key "at" .required) (.under (.key "x" .required) .missing)) := by
  have hcorner (key : String) : (corner key).RoundTrips := by
    refine object_roundTrips .required (List.nodup_singleton _) (List.forall_mem_singleton.2 ?_)
    exact object_roundTrips .required (List.nodup_singleton _)
      (List.forall_mem_singleton.2 (primitive_roundTrips .number))
  exact ⟨⟨hcorner "x", hcorner "y"⟩, rfl, rfl⟩

end Coding
end Schemata
