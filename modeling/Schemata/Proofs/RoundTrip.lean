import Schemata.Proofs.Idempotence

/-!
# Round trips

A codec takes what it decoded to itself in both directions when what it decoded decodes to
itself, since an encoder gives what the decoder gives.  That is so in a document that is
steady over its own names, and a document is steady when nothing that counts later can be
lost (`Document.lossless`): the members of sums keep the tag, the sides of intersections
declare different keys, and no two members of a union take one value.

Where the tag of a sum may be left out, what was decoded may not decode again
(`untagged_not_round_trip`).

**Input.**  Guarded documents.

**Results.**

* `Definition.Declares.decodes` and `Definition.Declares.congr`: what a definition with
  declared keys gives, and what it looks at.
* `ObjectDefinition.Keeps.fold`: what keeps a tag keeps the scalar under it.
* `Document.lossless_implies_steady`: where nothing is lost a document is steady.
* `Document.round_trip_of_steady` and `Document.round_trip_of_lossless`: the round trips.
-/

namespace Schemata

open Json (Value Members)

/-! ## Members of two objects -/

section Append

variable {key : String} {xs ys : Members}

theorem get?_append_of_not_mem_right (h : key ∉ Entries.keys ys) :
    Value.get? key (xs ++ ys) = Value.get? key xs := by
  have hnone : ys.lookup key = none := Entries.lookup_eq_none h
  rw [Value.get?, List.lookup_append, hnone, Option.or_none, Value.get?]

theorem get?_append_of_not_mem_left (h : key ∉ Entries.keys xs) :
    Value.get? key (xs ++ ys) = Value.get? key ys := by
  have hnone : xs.lookup key = none := Entries.lookup_eq_none h
  rw [Value.get?, List.lookup_append, hnone, Option.none_or, Value.get?]

theorem mem_keys_of_get? {value : Value} (h : Value.get? key xs = some value) :
    key ∈ Entries.keys xs :=
  List.mem_map.2 ⟨(key, value), Entries.mem_of_lookup h, rfl⟩

theorem merge_of_disjoint (hxs : (Entries.keys xs).Nodup) (hys : (Entries.keys ys).Nodup)
    (h : (Entries.keys xs).Disjoint (Entries.keys ys)) :
    merge (.object xs) (.object ys) = .object (xs ++ ys) := by
  rw [merge, Entries.setAll_eq_append (hxs.append hys h)]

end Append

/-! ## Declared keys -/

namespace Definition.Declares

variable {f : String → Decoding Id} {definition left right : Definition}
  {keys keys' : List String}

/-- What a definition with declared keys decodes is an object over them, and it has each of
them once. -/
theorem decodes (h : definition.Declares keys) : ∀ {value a : Value},
    (definition.fold f).decode value = .ok a →
    ∃ members, a = .object members ∧ (Entries.keys members).Nodup ∧
      Entries.keys members ⊆ keys := by
  induction h with
  | object kind fields =>
      intro value a ha
      rw [Definition.fold] at ha
      obtain ⟨_, out, _, hout, rfl⟩ := Decoding.object_eq_ok ha
      have hsub := Decoding.keys_sublist_of_fields hout
      refine ⟨out, rfl, (Entries.nodup_ofList _).sublist hsub, fun key hkey => ?_⟩
      exact keys_foldFields f fields ▸ Entries.mem_keys_ofList.1 (hsub.subset hkey)
  | readonly _ ih =>
      intro value a ha
      rw [Definition.fold] at ha
      exact ih ha
  | intersection _ _ hdisjoint ih ih' =>
      intro value c hc
      rw [Definition.fold] at hc
      obtain ⟨_, _, ha, hb, rfl⟩ := Decoding.intersection_eq_ok hc
      obtain ⟨xs, rfl, hxs, hsubxs⟩ := ih ha
      obtain ⟨ys, rfl, hys, hsubys⟩ := ih' hb
      have hkeys : (Entries.keys xs).Disjoint (Entries.keys ys) :=
        fun _ hx hy => hdisjoint (hsubxs hx) (hsubys hy)
      refine ⟨xs ++ ys, merge_of_disjoint hxs hys hkeys, ?_, ?_⟩
      · rw [Entries.keys, List.map_append]
        exact hxs.append hys hkeys
      · rw [Entries.keys, List.map_append]
        exact List.append_subset.2 ⟨fun _ hx => List.mem_append_left _ (hsubxs hx),
          fun _ hy => List.mem_append_right _ (hsubys hy)⟩

/-- A definition with declared keys looks at nothing else of an object. -/
theorem congr (h : definition.Declares keys) : ∀ {members members' : Members},
    (∀ key ∈ keys, Value.get? key members = Value.get? key members') →
    (definition.fold f).decode (.object members) =
      (definition.fold f).decode (.object members') := by
  induction h with
  | object kind fields =>
      intro members members' hget
      rw [Definition.fold]
      show Outcome.map Value.object (Decoding.fields (m := Id) _ _ _) =
        Outcome.map Value.object (Decoding.fields (m := Id) _ _ _)
      rw [Decoding.fields_congr fun key hkey => hget key ?_]
      exact keys_foldFields f fields ▸ Entries.mem_keys_ofList.1 hkey
  | readonly _ ih =>
      intro members members' hget
      rw [Definition.fold]
      exact ih hget
  | @intersection left right _ _ _ _ _ ih ih' =>
      intro members members' hget
      rw [Definition.fold]
      show Outcome.both merge ((left.fold f).decode _) ((right.fold f).decode _) =
        Outcome.both merge ((left.fold f).decode _) ((right.fold f).decode _)
      rw [ih fun key hkey => hget key (List.mem_append_left _ hkey),
        ih' fun key hkey => hget key (List.mem_append_right _ hkey)]

theorem sides (h : (Definition.intersection left right).Declares keys) :
    ∃ ks ls, left.Declares ks ∧ right.Declares ls ∧ ks.Disjoint ls := by
  cases h with
  | intersection hleft hright hdisjoint => exact ⟨_, _, hleft, hright, hdisjoint⟩

/-- What two definitions with different declared keys decode stands in the merged object
one after the other, and each of them finds its own keys there as it left them. -/
theorem merged (hleft : left.Declares keys) (hright : right.Declares keys')
    (hdisjoint : keys.Disjoint keys') {value a b : Value}
    (ha : (left.fold f).decode value = .ok a) (hb : (right.fold f).decode value = .ok b) :
    ∃ xs ys, a = .object xs ∧ b = .object ys ∧ merge a b = .object (xs ++ ys) ∧
      (∀ key ∈ keys, Value.get? key (xs ++ ys) = Value.get? key xs) ∧
      (∀ key ∈ keys', Value.get? key (xs ++ ys) = Value.get? key ys) ∧
      Entries.keys xs ⊆ keys ∧ Entries.keys ys ⊆ keys' := by
  obtain ⟨xs, rfl, hxs, hsubxs⟩ := hleft.decodes ha
  obtain ⟨ys, rfl, hys, hsubys⟩ := hright.decodes hb
  refine ⟨xs, ys, rfl, rfl, ?_, ?_, ?_, hsubxs, hsubys⟩
  · exact merge_of_disjoint hxs hys fun _ hx hy => hdisjoint (hsubxs hx) (hsubys hy)
  · exact fun key hkey => get?_append_of_not_mem_right fun hy => hdisjoint hkey (hsubys hy)
  · exact fun key hkey => get?_append_of_not_mem_left fun hx => hdisjoint (hsubxs hx) hkey

end Definition.Declares

/-! ## Kept tags -/

namespace Decoding

/-- A decoder that leaves a scalar under a tag as it is. -/
def Keeps (tag : String) (d : Decoding Id) : Prop :=
  ∀ ⦃value a named : Value⦄, value.member? tag = some named → named.isScalar = true →
    d.decode value = .ok a → a.member? tag = some named

/-- A decoder that decodes a scalar to nothing but itself. -/
def KeepsScalars (d : Decoding Id) : Prop :=
  ∀ ⦃value a : Value⦄, value.isScalar = true → d.decode value = .ok a → a = value

variable {tag : String}

theorem keeps_test (holds : Value → Bool) (expected : String) :
    Keeps tag (test holds expected) := by
  intro value a named hnamed _ h
  obtain rfl := test_eq_ok h
  exact hnamed

theorem keeps_object {kind : FieldKind} {parts : Entries (Decoding Id)}
    (hnodup : parts.keys.Nodup) (htag : tag ∈ parts.keys)
    (hparts : ∀ entry ∈ parts, KeepsScalars entry.2) : Keeps tag (object kind parts) := by
  intro value a named hnamed hscalar h
  obtain ⟨members, out, rfl, hout, rfl⟩ := object_eq_ok h
  obtain ⟨part, b, hpart, hb, hget⟩ := get?_of_fields hout hnodup htag hnamed
  obtain rfl := hparts (tag, part) hpart hscalar hb
  exact hget

theorem get?_of_entries {part : Decoding Id} {named : Value} : ∀ {members out : Members},
    entries part members = .ok out → Value.get? tag members = some named →
    ∃ a, part.decode named = .ok a ∧ Value.get? tag out = some a
  | (key, value) :: rest, _, h, hnamed => by
      rw [entries_cons] at h
      obtain ⟨_, others, hfirst, hothers, rfl⟩ := Outcome.both_eq_ok h
      obtain ⟨a, hunder, rfl⟩ := Outcome.map_eq_ok hfirst
      by_cases hkey : tag = key
      · subst hkey
        rw [get?_cons_self] at hnamed
        obtain rfl := Option.some.inj hnamed
        exact ⟨a, Outcome.under_eq_ok hunder, get?_cons_self _ _ _⟩
      · rw [get?_cons_of_ne hkey] at hnamed
        obtain ⟨b, hb, hget⟩ := get?_of_entries hothers hnamed
        exact ⟨b, hb, (get?_cons_of_ne hkey _ _).trans hget⟩

theorem keeps_record {part : Decoding Id} (hpart : KeepsScalars part) :
    Keeps tag (record part) := by
  intro value a named hnamed hscalar h
  obtain ⟨members, out, rfl, hout, rfl⟩ := record_eq_ok h
  obtain ⟨b, hb, hget⟩ := get?_of_entries hout hnamed
  obtain rfl := hpart hscalar hb
  exact hget

theorem keeps_sum {tag' : String} {parts : Entries (Decoding Id)}
    (hparts : ∀ entry ∈ parts, Keeps tag entry.2) : Keeps tag (sum tag' parts) := by
  intro value a named hnamed hscalar h
  obtain ⟨part, hmember, ha⟩ := sum_eq_ok h
  obtain ⟨key, hkey⟩ := mem_of_memberOf? hmember
  exact hparts (key, part) hkey hnamed hscalar ha

end Decoding

namespace Document

variable {document : Document}

/-- Sums whose members keep the tag, intersections whose sides declare different keys, and
unions of which no two members take one value. -/
def lossless (document : Document) : Requirement where
  sum := MembersKeep
  intersection left right := ∃ keys, (Definition.intersection left right).Declares keys
  union members := members.toList.Pairwise fun member other => ∀ value,
    ¬ ((member.fold document.encoder).accepts value = true ∧
      (other.fold document.encoder).accepts value = true)

end Document

section Lossless

open Decoding

variable {document : Document} {tag : String}

theorem keepsScalars_fold (hguarded : document.Guarded) {definition : Definition}
    (hnames : definition.references ⊆ document.definitions.keys) :
    KeepsScalars (definition.fold document.decoder) :=
  fun _ _ => Document.eq_of_decode_scalar hguarded fun _ hname => hnames hname

theorem keepsScalars_foldFields (hguarded : document.Guarded)
    {fields : List (String × Definition)}
    (hnames : fieldReferences fields ⊆ document.definitions.keys) :
    ∀ entry ∈ Entries.ofList (foldFields document.decoder fields), KeepsScalars entry.2 := by
  intro entry hentry
  obtain ⟨⟨key, definition⟩, hfield, rfl⟩ := exists_of_mem_foldFields hentry
  exact keepsScalars_fold hguarded fun _ hname => hnames (references_subset_of_field hfield hname)

mutual

/-- A definition of objects that keeps a tag decodes a scalar under it to itself. -/
theorem ObjectDefinition.Keeps.fold (hguarded : document.Guarded) :
    ∀ {definition : ObjectDefinition},
    definition.references ⊆ document.definitions.keys → definition.Meets document.lossless →
    definition.Keeps tag → Decoding.Keeps tag (definition.fold document.decoder)
  | .unknown, _, _, _ => by
      rw [ObjectDefinition.fold]
      exact keeps_test _ _
  | .object kind fields, hnames, _, htag => by
      simp only [ObjectDefinition.references] at hnames
      simp only [ObjectDefinition.Keeps] at htag
      rw [ObjectDefinition.fold]
      refine keeps_object (Entries.nodup_ofList _) (Entries.mem_keys_ofList.2 ?_)
        (keepsScalars_foldFields hguarded hnames)
      rw [keys_foldFields]
      exact htag
  | .record codomain, hnames, _, _ => by
      simp only [ObjectDefinition.references] at hnames
      rw [ObjectDefinition.fold]
      exact keeps_record (keepsScalars_fold hguarded hnames)
  | .sum tag' members, hnames, hmeets, htag => by
      simp only [ObjectDefinition.references] at hnames
      simp only [ObjectDefinition.Meets] at hmeets
      simp only [ObjectDefinition.Keeps] at htag
      rw [ObjectDefinition.fold]
      refine keeps_sum fun entry hentry => ?_
      have hmem := Entries.mem_of_mem_ofList hentry
      rw [foldMembers_eq_map] at hmem
      obtain ⟨member, hmember, rfl⟩ := List.mem_map.1 hmem
      exact MembersKeep.fold hguarded hnames hmeets.2 htag member hmember
  | .intersection left right, hnames, hmeets, htag => by
      simp only [ObjectDefinition.references, List.append_subset] at hnames
      simp only [ObjectDefinition.Meets] at hmeets
      simp only [ObjectDefinition.Keeps] at htag
      obtain ⟨⟨_, hkeys⟩, hmeetsl, hmeetsr⟩ := hmeets
      obtain ⟨_, _, hleft, hright, hdisjoint⟩ := hkeys.sides
      rw [ObjectDefinition.fold]
      intro value c named hnamed hscalar h
      obtain ⟨a, b, ha, hb, rfl⟩ := intersection_eq_ok h
      have ha' := ha
      rw [← left.fold_definition] at ha'
      have hb' := hb
      rw [← right.fold_definition] at hb'
      obtain ⟨xs, ys, rfl, rfl, hmerge, hgetl, hgetr, hxs, hys⟩ :=
        hleft.merged hright hdisjoint ha' hb'
      rw [hmerge]
      rcases htag with htag | htag
      · have hget := htag.fold hguarded hnames.1 hmeetsl hnamed hscalar ha
        exact (hgetl tag (hxs (mem_keys_of_get? hget))).trans hget
      · have hget := htag.fold hguarded hnames.2 hmeetsr hnamed hscalar hb
        exact (hgetr tag (hys (mem_keys_of_get? hget))).trans hget
  | .readonly inner, hnames, hmeets, htag => by
      simp only [ObjectDefinition.references] at hnames
      simp only [ObjectDefinition.Meets] at hmeets
      simp only [ObjectDefinition.Keeps] at htag
      rw [ObjectDefinition.fold]
      exact htag.fold hguarded hnames hmeets

theorem MembersKeep.fold (hguarded : document.Guarded) :
    ∀ {members : List (String × ObjectDefinition)},
    memberReferences members ⊆ document.definitions.keys →
    MembersMeet document.lossless members → MembersKeep tag members →
    ∀ entry ∈ members, Decoding.Keeps tag (entry.2.fold document.decoder)
  | [], _, _, _, _, hentry => nomatch hentry
  | (key, definition) :: rest, hnames, hmeets, htag, entry, hentry => by
      simp only [memberReferences, List.append_subset] at hnames
      simp only [MembersMeet] at hmeets
      simp only [MembersKeep] at htag
      rcases List.mem_cons.1 hentry with rfl | hentry
      · exact htag.1.fold hguarded hnames.1 hmeets.1
      · exact MembersKeep.fold hguarded hnames.2 hmeets.2 htag.2 entry hentry

end

/-- Where nothing is lost, what was decoded is where decoding looks for it again. -/
theorem Document.lossless_implies_steady (hguarded : document.Guarded) :
    document.lossless.Implies document.definitions.keys (.steady document.decoder) where
  sum {tag members} hnames hmeets hkeep value member a hmember ha := by
    obtain ⟨key, hkey⟩ := mem_of_memberOf? hmember
    obtain ⟨named, hnamed, hrest⟩ := Option.bind_eq_some_iff.1 hmember
    obtain ⟨text, htext, _⟩ := Option.bind_eq_some_iff.1 hrest
    have hscalar : named.isScalar = true := by
      cases named with
      | string _ => rfl
      | _ => cases htext
    have hagain := MembersKeep.fold hguarded hnames hmeets hkeep (key, member)
      (Entries.mem_of_mem_ofList hkey) hnamed hscalar ha
    exact Option.bind_eq_some_iff.2 ⟨named, hagain, hrest⟩
  intersection {left right} h value a b ha hb := by
    obtain ⟨_, hkeys⟩ := h
    obtain ⟨_, _, hleft, hright, hdisjoint⟩ := hkeys.sides
    obtain ⟨xs, ys, rfl, rfl, hmerge, hgetl, hgetr, _, _⟩ := hleft.merged hright hdisjoint ha hb
    rw [hmerge]
    exact ⟨hleft.congr hgetl, hright.congr hgetr⟩
  union {members} hnames hdisjoint := by
    have haccepts : ∀ member ∈ members.toList, ∀ value,
        (member.fold document.encoder).accepts value =
          Except.isOk ((member.fold document.decoder).decode value) := by
      intro member hmember value
      refine fold_accepts hguarded (fun name hname => hnames ?_) value
      exact references_subset_of_union hmember hname
    refine hdisjoint.imp_of_mem fun {earlier later} hearlier hlater h => ?_
    intro value a b error _ _ ha hb
    refine absurd ⟨?_, ?_⟩ (h a)
    · rw [haccepts earlier hearlier, hb]
      rfl
    · rw [haccepts later hlater, ha]
      rfl

end Lossless

/-! ## Round trips -/

namespace Document

variable {document : Document}

/-- What the root decodes to itself goes through every used interpretation as it is. -/
theorem runs_of_fixed {A : Type} [Artifact A] [LawfulArtifact A] (hguarded : document.Guarded)
    {i : Interpretation A} (hi : i.Used document) {a : Value}
    (ha : (document.decoder document.root).decode a = .ok a) :
    (∃ i', i.accepts document a = .ok (true, i')) ∧
      (∃ i', i.encode document a = .ok (a, i') ∧ i'.Used document) ∧
      ∃ i', i.decode document a = .ok (.ok a, i') := by
  obtain ⟨definition, hfind⟩ := document.exists_find? document.root_mem
  have hnames : ∀ name ∈ (Definition.ref document.root).references,
      name ∈ document.definitions.keys := by
    intro name hname
    rw [Definition.references, List.mem_singleton] at hname
    exact hname ▸ document.root_mem
  have hroot : ((Definition.ref document.root).fold document.decoder).decode a = .ok a := by
    rw [Definition.fold]
    exact ha
  have haccept := fold_accepts hguarded hnames a
  have hencode := fold_encode hguarded hnames hroot
  rw [hroot] at haccept
  rw [Definition.fold] at haccept hencode
  obtain ⟨i₁, h₁, _⟩ := hi.accepts_answer hguarded a
  obtain ⟨i₂, h₂, hused⟩ := hi.encode_answer hguarded a
  obtain ⟨i₃, h₃, _⟩ := hi.decode_answer hguarded a
  rw [haccept] at h₁
  rw [hencode] at h₂
  rw [ha] at h₃
  exact ⟨⟨i₁, h₁⟩, ⟨i₂, h₂, hused⟩, ⟨i₃, h₃⟩⟩

/-- What a used interpretation of a steady document decoded decodes to itself. -/
theorem fixed_of_decode {A : Type} [Artifact A] [LawfulArtifact A] (hguarded : document.Guarded)
    (hsteady : document.Meets (.steady document.decoder)) {i i' : Interpretation A}
    (hi : i.Used document) {input a : Value}
    (h : i.decode document input = .ok (.ok a, i')) :
    (document.decoder document.root).decode a = .ok a := by
  obtain ⟨_, hanswer, _⟩ := hi.decode_answer hguarded input
  obtain ⟨hinput, _⟩ := Prod.mk.inj (Except.ok.inj (hanswer.symm.trans h))
  exact decoder_idempotent hguarded hsteady document.root_mem input hinput

/-- **Round trips of steady documents.**  What a used codec of a guarded, steady document
decoded is encoded to itself, and decodes to itself after that. -/
theorem round_trip_of_steady (hguarded : document.Guarded)
    (hsteady : document.Meets (.steady document.decoder)) {i i' : Interpretation Codec}
    (hi : i.Used document) {input a : Value} (h : i.decode document input = .ok (.ok a, i')) :
    ∃ encoded j j', i'.encode document a = .ok (encoded, j) ∧
      j.decode document encoded = .ok (.ok a, j') := by
  have hfixed := fixed_of_decode hguarded hsteady hi h
  obtain ⟨_, ⟨j, hencode, hj⟩, _⟩ := runs_of_fixed hguarded (hi.decode h) hfixed
  obtain ⟨_, _, ⟨j', hdecode⟩⟩ := runs_of_fixed hguarded hj hfixed
  exact ⟨a, j, j', hencode, hdecode⟩

/-- A width or a title.  Both members take an object with a width, so members are not
disjoint, but what the second one leaves has none. -/
def setting : Document where
  root := "Setting"
  definitions := [
    ("Setting", .union ⟨.object .required [("width", .primitive .number)],
      [.object .optional [("title", .primitive .string)]]⟩)]
  root_mem := by decide
  references_mem := by decide

theorem setting_guarded : setting.Guarded := guarded_of_rank (fun _ => 0) (by decide)

theorem setting_steady : setting.Meets (.steady setting.decoder) := by
  intro name definition hfind
  have hmem := Entries.mem_of_lookup hfind
  simp only [setting, List.mem_singleton, Prod.mk.injEq] at hmem
  obtain ⟨rfl, rfl⟩ := hmem
  simp only [Definition.Meets, ComponentsMeet, FieldsMeet, and_true]
  refine List.pairwise_pair.2 ?_
  intro value a b _ _ ha _ hb
  obtain ⟨members, rfl, _, hkeys⟩ := (Definition.Declares.object _ _).decodes ha
  have hwidth : Value.get? "width" members = none :=
    Entries.lookup_eq_none fun hmem => absurd (hkeys hmem) (by decide)
  rw [Definition.fold] at hb
  have hfields : (Decoding.fields (m := Id) .required members
    [("width", Decoding.test Primitive.number.holds Primitive.number.label)]).map Value.object =
      .ok b := by
    simp only [foldFields, Definition.fold] at hb
    exact hb
  rw [Decoding.fields_cons, hwidth] at hfields
  cases hfields

theorem setting_round_trip :
    ∃ i j j' : Interpretation Codec,
      let title : Value := .object [("title", .string "Plan")]
      setting.interpret.decode setting
          (.object [("width", .string "wide"), ("title", .string "Plan")]) = .ok (.ok title, i) ∧
        i.encode setting title = .ok (title, j) ∧ j.decode setting title = .ok (.ok title, j') := by
  have hfresh : (setting.interpret (A := Codec)).Used setting := .fresh
  obtain ⟨i, hdecode, hi⟩ := hfresh.decode_answer setting_guarded
    (.object [("width", .string "wide"), ("title", .string "Plan")])
  obtain ⟨encoded, j, j', hencode, hagain⟩ :=
    round_trip_of_steady setting_guarded setting_steady hfresh hdecode
  obtain ⟨_, hanswer, _⟩ := hi.encode_answer setting_guarded (.object [("title", .string "Plan")])
  obtain ⟨rfl, _⟩ := Prod.mk.inj (Except.ok.inj (hencode.symm.trans hanswer))
  exact ⟨i, j, j', hdecode, hencode, hagain⟩

/-- A sum whose member leaves its tag out. -/
def untagged : Document where
  root := "Point"
  definitions := [
    ("Point", .sum "kind" [("line", .object .optional [("x", .primitive .number)])])]
  root_mem := by decide
  references_mem := by decide

theorem untagged_guarded : untagged.Guarded := guarded_of_rank (fun _ => 0) (by decide)

/-- A point on a line decodes without its kind, is encoded without it and does not decode
again. -/
theorem untagged_not_round_trip :
    untagged.Guarded ∧ ∃ i j k : Interpretation Codec,
      let point : Value := .object [("x", .number (.integer 1))]
      untagged.interpret.decode untagged
          (.object [("kind", .string "line"), ("x", .number (.integer 1))]) =
          .ok (.ok point, i) ∧
        i.encode untagged point = .ok (point, j) ∧
        j.decode untagged point =
          .ok (.error (.under (.lazy "Point") (.under (.key "kind" .required) .missing)), k) := by
  obtain ⟨i, hdecode, hi⟩ := (Interpretation.Used.fresh (A := Codec)).decode_answer
    untagged_guarded (.object [("kind", .string "line"), ("x", .number (.integer 1))])
  obtain ⟨j, hencode, hj⟩ := hi.encode_answer untagged_guarded
    (.object [("x", .number (.integer 1))])
  obtain ⟨k, hagain, _⟩ := hj.decode_answer untagged_guarded
    (.object [("x", .number (.integer 1))])
  exact ⟨untagged_guarded, i, j, k, hdecode, hencode, hagain⟩

/-- **Round trips where nothing is lost.**  What a used codec of a guarded, lossless
document decoded is accepted by every used codec, encoded to itself and decoded to
itself. -/
theorem round_trip_of_lossless (hguarded : document.Guarded)
    (hlossless : document.Meets document.lossless) {i i' j : Interpretation Codec}
    (hi : i.Used document) (hj : j.Used document) {input a : Value}
    (h : i.decode document input = .ok (.ok a, i')) :
    (∃ j', j.accepts document a = .ok (true, j')) ∧
      (∃ j', j.encode document a = .ok (a, j')) ∧
      ∃ j', j.decode document a = .ok (.ok a, j') := by
  have hsteady : document.Meets (.steady document.decoder) := fun name _ hfind =>
    (hlossless name _ hfind).imp (lossless_implies_steady hguarded)
      fun _ => mem_keys_of_reference hfind
  obtain ⟨haccept, ⟨j', hencode, _⟩, hdecode⟩ :=
    runs_of_fixed hguarded hj (fixed_of_decode hguarded hsteady hi h)
  exact ⟨haccept, ⟨j', hencode⟩, hdecode⟩

/-- Shapes by their kind; the parts of a group are texts or shapes. -/
def drawing : Document where
  root := "Shape"
  definitions := [
    ("Shape", .sum "kind" [
      ("circle", .object .required [("kind", .primitive .string), ("radius", .primitive .number)]),
      ("group", .intersection (.object .required [("kind", .primitive .string)])
        (.object .optional [("parts", .array (.ref "Part"))]))]),
    ("Part", .union ⟨.primitive .string, [.ref "Shape"]⟩)]
  root_mem := by decide
  references_mem := by decide

theorem drawing_guarded : drawing.Guarded :=
  guarded_of_rank (fun name => if name = "Part" then 1 else 0) (by decide)

/-- Both kinds keep the tag, the sides of a group declare different keys, and a text is no
shape. -/
theorem drawing_lossless : drawing.Meets drawing.lossless := by
  intro name definition hfind
  have hmem := Entries.mem_of_lookup hfind
  simp only [drawing, List.mem_cons, List.not_mem_nil, or_false, Prod.mk.injEq] at hmem
  rcases hmem with ⟨rfl, rfl⟩ | ⟨rfl, rfl⟩
  · simp only [Definition.Meets, ObjectDefinition.Meets, MembersMeet, FieldsMeet, and_true]
    refine ⟨?_, trivial, ?_⟩
    · simp only [lossless, MembersKeep, ObjectDefinition.Keeps, and_true]
      exact ⟨by decide, .inl (by decide)⟩
    · exact ⟨_, .intersection (.object _ _) (.object _ _) (by simp [Entries.keys])⟩
  · simp only [Definition.Meets, ComponentsMeet, and_true]
    refine List.pairwise_pair.2 ?_
    rintro value ⟨hstring, hshape⟩
    rw [Definition.fold, (encoder_of_find? drawing_guarded rfl value).2] at hshape
    cases value with
    | object _ => cases hstring
    | _ => cases hshape

/-- A group with a text and a circle, which has a unit that is not declared. -/
def labelledCircle : Value :=
  .object [("kind", .string "group"), ("page", .number (.integer 3)),
    ("parts", .array [.string "label",
      .object [("unit", .string "cm"), ("radius", .number (.integer 1)),
        ("kind", .string "circle")]])]

theorem drawing_round_trip :
    ∃ i j k l : Interpretation Codec,
      let decoded : Value := .object [("kind", .string "group"), ("parts", .array [.string "label",
        .object [("kind", .string "circle"), ("radius", .number (.integer 1))]])]
      drawing.interpret.decode drawing labelledCircle = .ok (.ok decoded, i) ∧
        i.accepts drawing decoded = .ok (true, j) ∧ i.encode drawing decoded = .ok (decoded, k) ∧
        i.decode drawing decoded = .ok (.ok decoded, l) := by
  have hfresh : (drawing.interpret (A := Codec)).Used drawing := .fresh
  obtain ⟨i, hdecode, hi⟩ := hfresh.decode_answer drawing_guarded labelledCircle
  obtain ⟨⟨j, hj⟩, ⟨k, hk⟩, ⟨l, hl⟩⟩ :=
    round_trip_of_lossless drawing_guarded drawing_lossless hfresh hi hdecode
  exact ⟨i, j, k, l, hdecode, hj, hk, hl⟩

end Document

end Schemata
