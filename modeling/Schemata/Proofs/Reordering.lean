import Schemata.Proofs.Composition
import Schemata.Proofs.RoundTrip

/-!
# The order of keys

Two runs are compared, on values that are equal up to the order of keys at every depth
(`Reorders`).  Objects are read by key, so whether a value is accepted does not depend on
their order.  What comes out has the order of the declarations, but for records and for
untyped arrays and objects, which keep the order of the input: with them the two results
are equal up to the order of keys, without them they are the same (`KeyOrder`).

**Input.**  A guarded document and two values that are equal up to the order of keys.

**Algorithm.**  What relates the two results (`Carried`) is kept by arrays, by objects with
the same keys in the same order and by merging, whether it is equality or `Reorders`; a
composite whose parts carry it over carries it over.  Records carry over `Reorders` only.

**Results.**

* `reorders_object_iff`: objects that are equal up to order have the same under every key.
* `Reorders.merge`: merged values are equal up to order when the sides are.
* `Decoding.object_carries` and its companions: composites carry over what relates the results
  of their parts.
* `Encoding.reorders_congruence`: so is what is encoded, and guards agree.
-/

namespace Schemata

open Json (Value Members)

/-! ## Values up to the order of keys -/

/-- Two values, with distinct keys in their objects, are equal up to the order of keys at
every depth. -/
inductive Reorders : Value → Value → Prop
  | scalar {value : Value} : value.isScalar = true → Reorders value value
  | array {items others : List Value} : List.Forall₂ Reorders items others →
      Reorders (.array items) (.array others)
  /-- The members with others in the place of their values, in another order. -/
  | object {members matched others : Members} : (Entries.keys members).Nodup →
      Entries.keys members = Entries.keys matched →
      List.Forall₂ Reorders (members.map Prod.snd) (matched.map Prod.snd) →
      matched.Perm others → Reorders (.object members) (.object others)

/-- Members with distinct keys that have values under the same keys, equal up to the order of
keys. -/
structure ReordersMembers (members others : Members) : Prop where
  nodup : (Entries.keys members).Nodup
  nodup_other : (Entries.keys others).Nodup
  get? (key : String) : Option.Rel Reorders (Value.get? key members) (Value.get? key others)

theorem forall₂_keyed_iff {α β : Type} {rel : α → β → Prop} : ∀ {xs : Entries α} {ys : Entries β},
    List.Forall₂ (Keyed rel) xs ys ↔
      xs.keys = ys.keys ∧ List.Forall₂ rel (xs.map Prod.snd) (ys.map Prod.snd)
  | [], [] => by simp [Entries.keys]
  | [], _ :: _ => by simp [Entries.keys]
  | _ :: _, [] => by simp [Entries.keys]
  | x :: xs, y :: ys => by
      have ih : List.Forall₂ (Keyed rel) xs ys ↔ _ := forall₂_keyed_iff
      simp only [Entries.keys] at ih
      simp only [List.forall₂_cons, ih, Keyed, Entries.keys, List.map_cons, List.cons.injEq]
      tauto

/-- The order of entries with distinct keys does not count where they are looked up. -/
theorem Entries.lookup_perm {α : Type} {xs ys : Entries α} (hxs : xs.keys.Nodup)
    (h : xs.Perm ys) (key : String) : xs.lookup key = ys.lookup key := by
  have hys : ys.keys.Nodup := (h.map Prod.fst).nodup_iff.1 hxs
  cases hx : xs.lookup key with
  | some a => exact (Entries.lookup_of_mem hys (h.mem_iff.1 (Entries.mem_of_lookup hx))).symm
  | none =>
      refine (Entries.lookup_eq_none fun hmem => ?_).symm
      exact Entries.not_mem_keys_of_lookup hx ((h.map Prod.fst).mem_iff.2 hmem)

namespace ReordersMembers

variable {members others : Members}

/-- Each member has a counterpart under its key. -/
theorem exists_other (h : ReordersMembers members others) {entry : String × Value}
    (hentry : entry ∈ members) :
    ∃ other, Value.get? entry.1 others = some other ∧ Reorders entry.2 other := by
  have hget : Value.get? entry.1 members = some entry.2 := Entries.lookup_of_mem h.nodup hentry
  have hrel := h.get? entry.1
  rw [hget] at hrel
  generalize Value.get? entry.1 others = found at hrel
  cases hrel with
  | some hreorders => exact ⟨_, rfl, hreorders⟩

/-- Each counterpart is that of a member. -/
theorem exists_member (h : ReordersMembers members others) {entry : String × Value}
    (hentry : entry ∈ others) :
    ∃ value, Value.get? entry.1 members = some value ∧ Reorders value entry.2 := by
  have hget : Value.get? entry.1 others = some entry.2 :=
    Entries.lookup_of_mem h.nodup_other hentry
  have hrel := h.get? entry.1
  rw [hget] at hrel
  generalize Value.get? entry.1 members = found at hrel
  cases hrel with
  | some hreorders => exact ⟨_, rfl, hreorders⟩

theorem get?_eq_none (h : ReordersMembers members others) {key : String}
    (hget : Value.get? key members = none) : Value.get? key others = none := by
  have hrel := h.get? key
  rw [hget] at hrel
  generalize Value.get? key others = found at hrel
  cases hrel
  rfl

/-- The counterparts, in the order of the members. -/
def matched (members others : Members) : Members :=
  members.map fun entry => (entry.1, (Value.get? entry.1 others).getD .null)

theorem mem_matched {key : String} {value other : Value} (hmem : (key, value) ∈ members)
    (hget : Value.get? key others = some other) : (key, other) ∈ matched members others := by
  refine List.mem_map.2 ⟨(key, value), hmem, ?_⟩
  show (key, (Value.get? key others).getD .null) = (key, other)
  rw [hget]
  rfl

theorem keyed_matched (h : ReordersMembers members others) :
    List.Forall₂ (Keyed Reorders) members (matched members others) := by
  refine List.forall₂_map_right_iff.2 (List.forall₂_same.2 fun entry hentry => ⟨rfl, ?_⟩)
  obtain ⟨other, hget, hreorders⟩ := h.exists_other hentry
  rw [hget]
  exact hreorders

theorem matched_perm (h : ReordersMembers members others) :
    (matched members others).Perm others := by
  have hkeys := Entries.keys_eq_of_forall₂ h.keyed_matched
  have hmatched : (Entries.keys (matched members others)).Nodup := hkeys ▸ h.nodup
  refine (List.perm_ext_iff_of_nodup hmatched.of_map h.nodup_other.of_map).2 fun entry => ?_
  constructor
  · intro hmem
    obtain ⟨original, horiginal, rfl⟩ := List.mem_map.1 hmem
    obtain ⟨other, hget, _⟩ := h.exists_other horiginal
    rw [hget]
    exact Entries.mem_of_lookup hget
  · intro hmem
    obtain ⟨value, hget, _⟩ := h.exists_member hmem
    exact mem_matched (Entries.mem_of_lookup hget) (Entries.lookup_of_mem h.nodup_other hmem)

end ReordersMembers

/-- Objects are equal up to order if they have the same under every key, up to order. -/
theorem reorders_object_iff {members others : Members} :
    Reorders (.object members) (.object others) ↔ ReordersMembers members others := by
  constructor
  · intro h
    cases h with
    | @object _ matched _ hnodup hkeys hvalues hperm =>
        have hmatched : (Entries.keys matched).Nodup := hkeys ▸ hnodup
        refine ⟨hnodup, (hperm.map Prod.fst).nodup_iff.1 hmatched, fun key => ?_⟩
        have hlookup := Entries.lookup_rel key (forall₂_keyed_iff.2 ⟨hkeys, hvalues⟩)
        rw [Entries.lookup_perm hmatched hperm] at hlookup
        exact hlookup
    | scalar hscalar => cases hscalar
  · intro h
    obtain ⟨hkeys, hvalues⟩ := forall₂_keyed_iff.1 h.keyed_matched
    exact .object h.nodup hkeys hvalues h.matched_perm

theorem rel_or {α β : Type} {rel : α → β → Prop} {x y : Option α} {x' y' : Option β}
    (h : Option.Rel rel x x') (h' : Option.Rel rel y y') :
    Option.Rel rel (x.or y) (x'.or y') := by
  cases h with
  | some hxx' => exact .some hxx'
  | none => exact h'

namespace Reorders

variable {value other a b c d : Value}

theorem of_object {members : Members} (h : Reorders (.object members) other) :
    ∃ others, other = .object others ∧ ReordersMembers members others := by
  cases h with
  | scalar hscalar => cases hscalar
  | object hnodup hkeys hvalues hperm =>
      exact ⟨_, rfl, reorders_object_iff.1 (.object hnodup hkeys hvalues hperm)⟩

theorem of_array {items : List Value} (h : Reorders (.array items) other) :
    ∃ others, other = .array others ∧ List.Forall₂ Reorders items others := by
  cases h with
  | scalar hscalar => cases hscalar
  | array hitems => exact ⟨_, rfl, hitems⟩

theorem eq_of_isScalar (h : Reorders value other) (hscalar : value.isScalar = true) :
    value = other := by
  cases h with
  | scalar _ => rfl
  | array _ => cases hscalar
  | object _ _ _ _ => cases hscalar

/-- Literals are scalars. -/
theorem isMatch_eq (h : Reorders value other) (literal : Literal) :
    literal.isMatch value = literal.isMatch other := by
  cases h with
  | scalar _ => rfl
  | array _ => cases literal <;> rfl
  | object _ _ _ _ => cases literal <;> rfl

theorem holds_eq (h : Reorders value other) (kind : Primitive) :
    kind.holds value = kind.holds other := by
  cases h with
  | scalar _ => rfl
  | array _ => cases kind <;> rfl
  | object _ _ _ _ => cases kind <;> rfl

theorem text?_eq (h : Reorders value other) : value.text? = other.text? := by
  cases h with
  | scalar _ => rfl
  | array _ => rfl
  | object _ _ _ _ => rfl

theorem member?_rel (h : Reorders value other) (key : String) :
    Option.Rel Reorders (value.member? key) (other.member? key) := by
  cases value with
  | object members =>
      obtain ⟨others, rfl, hmembers⟩ := h.of_object
      exact hmembers.get? key
  | array items =>
      obtain ⟨others, rfl, _⟩ := h.of_array
      exact .none
  | _ =>
      obtain rfl := h.eq_of_isScalar rfl
      exact .none

/-- A sum picks the same member. -/
theorem memberOf?_eq {α : Type} (h : Reorders value other) (tag : String) (parts : Entries α) :
    Decoding.memberOf? tag parts value = Decoding.memberOf? tag parts other := by
  have hmember := h.member?_rel tag
  unfold Decoding.memberOf?
  generalize value.member? tag = named at hmember
  generalize other.member? tag = named' at hmember
  cases hmember with
  | none => rfl
  | some hnamed =>
      show (Value.text? _).bind _ = (Value.text? _).bind _
      rw [hnamed.text?_eq]

theorem merge (h : Reorders a b) (h' : Reorders c d) : Reorders (merge a c) (merge b d) := by
  cases c with
  | object right =>
      obtain ⟨right', rfl, hright⟩ := h'.of_object
      cases a with
      | object left =>
          obtain ⟨left', rfl, hleft⟩ := h.of_object
          refine reorders_object_iff.2 ⟨Entries.nodup_setAll _ hleft.nodup,
            Entries.nodup_setAll _ hleft.nodup_other, fun key => ?_⟩
          rw [Value.get?, Value.get?, Entries.lookup_setAll key hright.nodup,
            Entries.lookup_setAll key hright.nodup_other]
          exact rel_or (hright.get? key) (hleft.get? key)
      | array _ =>
          obtain ⟨_, rfl, _⟩ := h.of_array
          exact h'
      | _ =>
          obtain rfl := h.eq_of_isScalar rfl
          exact h'
  | array _ =>
      obtain ⟨_, rfl, _⟩ := h'.of_array
      cases a <;> cases b <;> exact h'
  | _ =>
      obtain rfl := h'.eq_of_isScalar rfl
      cases a <;> cases b <;> exact h'

end Reorders

/-! ## Results of two runs -/

/-- Both outcomes are values, and they are related, or both are failures. -/
inductive Outcome.Rel {α β : Type} (rel : α → β → Prop) : Outcome α → Outcome β → Prop
  | ok {a : α} {b : β} : rel a b → Outcome.Rel rel (.ok a) (.ok b)
  | error (e f : DecodeError) : Outcome.Rel rel (.error e) (.error f)

namespace Outcome.Rel

variable {α β γ α' β' γ' : Type} {rel : α → α' → Prop} {rel' : β → β' → Prop}
  {rel'' : γ → γ' → Prop} {o : Outcome α} {o' : Outcome α'} {p : Outcome β} {p' : Outcome β'}

theorem under (step step' : Step) (h : Outcome.Rel rel o o') :
    Outcome.Rel rel (o.under step) (o'.under step') := by
  cases h with
  | ok h => exact .ok h
  | error _ _ => exact .error _ _

theorem map {f : α → β} {f' : α' → β'}
    (hf : ∀ a a', o = .ok a → o' = .ok a' → rel a a' → rel' (f a) (f' a'))
    (h : Outcome.Rel rel o o') : Outcome.Rel rel' (o.map f) (o'.map f') := by
  cases h with
  | ok h => exact .ok (hf _ _ rfl rfl h)
  | error _ _ => exact .error _ _

theorem both {join : α → β → γ} {join' : α' → β' → γ'}
    (hjoin : ∀ a a' b b', rel a a' → rel' b b' → rel'' (join a b) (join' a' b'))
    (h : Outcome.Rel rel o o') (h' : Outcome.Rel rel' p p') :
    Outcome.Rel rel'' (o.both join p) (o'.both join' p') := by
  cases h with
  | ok h =>
      cases h' with
      | ok h' => exact .ok (hjoin _ _ _ _ h h')
      | error _ _ => exact .error _ _
  | error _ _ =>
      cases h' with
      | ok _ => exact .error _ _
      | error _ _ => exact .error _ _

theorem isOk_eq (h : Outcome.Rel rel o o') : o.isOk = o'.isOk := by
  cases h with
  | ok _ => rfl
  | error _ _ => rfl

/-- Outcomes are related if both are values or none is and the values are. -/
theorem of_isOk (hisOk : o.isOk = o'.isOk) (h : ∀ a a', o = .ok a → o' = .ok a' → rel a a') :
    Outcome.Rel rel o o' := by
  cases o with
  | ok a =>
      cases o' with
      | ok a' => exact .ok (h a a' rfl rfl)
      | error _ => cases hisOk
  | error _ =>
      cases o' with
      | ok _ => cases hisOk
      | error _ => exact .error _ _

end Outcome.Rel

/-- What can relate the results of two runs: arrays and objects of related parts, with the
same keys in the same order, are related, and so are merged values. -/
structure Carried (s : Value → Value → Prop) : Prop where
  scalar {value : Value} : value.isScalar = true → s value value
  array {items others : List Value} : List.Forall₂ s items others → s (.array items) (.array others)
  object {members others : Members} : (Entries.keys members).Nodup →
    List.Forall₂ (Keyed s) members others → s (.object members) (.object others)
  merge {a b c d : Value} : s a b → s c d → s (merge a c) (merge b d)

theorem carried_eq : Carried Eq where
  scalar _ := rfl
  array h := congrArg Value.array (List.forall₂_eq_eq_eq ▸ h)
  object _ h := by
    have heq := h.imp fun x y (hxy : Keyed Eq x y) => Prod.ext hxy.1 hxy.2
    exact congrArg Value.object (List.forall₂_eq_eq_eq ▸ heq)
  merge h h' := congrArg₂ Schemata.merge h h'

theorem carried_reorders : Carried Reorders where
  scalar := .scalar
  array := .array
  object hnodup h :=
    have ⟨hkeys, hvalues⟩ := forall₂_keyed_iff.1 h
    .object hnodup hkeys hvalues (.refl _)
  merge := .merge

/-! ## Decoders -/

namespace Decoding

/-- The results of decoding a value and any other that is equal to it up to the order of
keys are related. -/
def Carries (s : Value → Value → Prop) (value : Value) (d : Decoding Id) : Prop :=
  ∀ ⦃other : Value⦄, Reorders value other → Outcome.Rel s (d.decode value) (d.decode other)

variable {s : Value → Value → Prop} {value : Value} {d left right : Decoding Id}
  {ds : List (Decoding Id)}

theorem test_carries {holds : Value → Bool} (expected : String)
    (hholds : ∀ other, Reorders value other → holds value = holds other)
    (hs : ∀ other, Reorders value other → holds value = true → s value other) :
    Carries s value (test holds expected) := by
  intro other h
  show Outcome.Rel s (if holds value then _ else _) (if holds other then _ else _)
  rw [← hholds other h]
  split
  · exact .ok (hs other h ‹_›)
  · exact .error _ _

theorem isScalar_of_isMatch {literal : Literal} (h : literal.isMatch value = true) :
    value.isScalar = true := by
  cases value with
  | array _ => cases literal <;> cases h
  | object _ => cases literal <;> cases h
  | _ => rfl

/-- A set of literals holds of scalars, and of both values or of none. -/
theorem any_isMatch (values : List Literal) {other : Value} (h : Reorders value other) :
    values.any (·.isMatch value) = values.any (·.isMatch other) ∧
      (values.any (·.isMatch value) = true → value.isScalar = true) := by
  constructor
  · exact congrArg values.any (funext fun literal => h.isMatch_eq literal)
  · intro hany
    obtain ⟨_, _, hmatch⟩ := List.any_eq_true.1 hany
    exact isScalar_of_isMatch hmatch

theorem literals_carries (hs : Carried s) (values : NonEmpty Literal) :
    Carries s value (literals values) :=
  test_carries _ (fun _ h => (any_isMatch _ h).1) fun _ h hholds =>
    h.eq_of_isScalar ((any_isMatch _ h).2 hholds) ▸ hs.scalar ((any_isMatch _ h).2 hholds)

theorem literalsOr_carries (hs : Carried s) (values : NonEmpty Literal) (hd : d.Carries s value) :
    Carries s value (literalsOr values d) := by
  intro other h
  obtain ⟨heq, hscalar⟩ := any_isMatch values.toList h
  show Outcome.Rel s (if _ then .ok value else d.decode value)
    (if _ then .ok other else d.decode other)
  rw [← heq]
  split
  · exact .ok (h.eq_of_isScalar (hscalar ‹_›) ▸ hs.scalar (hscalar ‹_›))
  · exact hd h

theorem field_carries (kind : FieldKind) (key : String) {given given' : Option Value}
    (hrel : Option.Rel Reorders given given')
    (hd : ∀ value, given = some value → d.Carries s value) :
    Outcome.Rel (List.Forall₂ (Keyed s)) (field kind key d given) (field kind key d given') := by
  cases hrel with
  | some h =>
      have hvalue := (hd _ rfl h).under (.key key kind) (.key key kind)
      exact hvalue.map fun _ _ _ _ ha => .cons ⟨rfl, ha⟩ .nil
  | none =>
      cases kind with
      | required => exact .error _ _
      | optional => exact .ok .nil

theorem fields_carries (kind : FieldKind) {members others : Members}
    (h : ReordersMembers members others) : ∀ {parts : Entries (Decoding Id)},
    (∀ part ∈ parts, ∀ key value, Value.get? key members = some value →
      part.2.Carries s value) →
    Outcome.Rel (List.Forall₂ (Keyed s)) (fields kind members parts) (fields kind others parts)
  | [], _ => .ok .nil
  | (key, part) :: parts, hparts => by
      have hfirst := field_carries kind key (h.get? key)
        (hparts (key, part) List.mem_cons_self key)
      have hrest := fields_carries kind h fun part hpart =>
        hparts part (List.mem_cons_of_mem _ hpart)
      rw [fields_cons, fields_cons]
      exact hfirst.both (fun _ _ _ _ hxs hys => List.rel_append hxs hys) hrest

theorem object_carries (hs : Carried s) (kind : FieldKind) {parts : Entries (Decoding Id)}
    (hnodup : parts.keys.Nodup)
    (hparts : ∀ part ∈ parts, ∀ inner : Value, inner.depth < value.depth →
      part.2.Carries s inner) : Carries s value (object kind parts) := by
  intro other h
  cases value with
  | object members =>
      obtain ⟨others, rfl, hmembers⟩ := h.of_object
      have hfields := fields_carries kind hmembers fun part hpart _ inner hget =>
        hparts part hpart inner (Value.depth_lt_of_get? hget)
      exact hfields.map fun _ _ hout _ =>
        hs.object (hnodup.sublist (keys_sublist_of_fields hout))
  | array _ =>
      obtain ⟨_, rfl, _⟩ := h.of_array
      exact .error _ _
  | _ =>
      obtain rfl := h.eq_of_isScalar rfl
      exact .error _ _

/-- Members that decode have the keys that they had, in the same order. -/
theorem keys_of_entries : ∀ {members out : Members}, entries d members = .ok out →
    Entries.keys out = Entries.keys members
  | [], _, h => by
      obtain rfl := Except.ok.inj h
      rfl
  | (key, value) :: rest, _, h => by
      rw [entries_cons] at h
      obtain ⟨_, others, hfirst, hothers, rfl⟩ := Outcome.both_eq_ok h
      obtain ⟨_, _, rfl⟩ := Outcome.map_eq_ok hfirst
      exact congrArg (key :: ·) (keys_of_entries hothers)

theorem isOk_entries : ∀ members : Members,
    (entries d members : Outcome Members).isOk =
      members.all fun entry => (d.decode entry.2 : Outcome Value).isOk
  | [] => rfl
  | (key, value) :: rest => by
      rw [entries_cons, Outcome.isOk_both, Outcome.isOk_map, Outcome.isOk_under,
        isOk_entries rest, List.all_cons]

theorem entries_carries {members others : Members} (h : ReordersMembers members others)
    (hd : ∀ entry ∈ members, d.Carries Reorders entry.2) :
    Outcome.Rel ReordersMembers (entries d members) (entries d others) := by
  refine .of_isOk ?_ fun out out' hout hout' => ?_
  · rw [isOk_entries, isOk_entries, Bool.eq_iff_iff, List.all_eq_true, List.all_eq_true]
    constructor
    · intro hall entry hentry
      obtain ⟨value, hget, hreorders⟩ := h.exists_member hentry
      have hmem := Entries.mem_of_lookup hget
      rw [← (hd _ hmem hreorders).isOk_eq]
      exact hall _ hmem
    · intro hall entry hentry
      obtain ⟨other, hget, hreorders⟩ := h.exists_other hentry
      rw [(hd entry hentry hreorders).isOk_eq]
      exact hall _ (Entries.mem_of_lookup hget)
  · have hkeys := keys_of_entries hout
    have hkeys' := keys_of_entries hout'
    refine ⟨hkeys ▸ h.nodup, hkeys' ▸ h.nodup_other, fun key => ?_⟩
    cases hget : Value.get? key members with
    | none =>
        have hnone {xs ys : Members} (heq : Entries.keys ys = Entries.keys xs)
            (hxs : Value.get? key xs = none) : Value.get? key ys = none :=
          Entries.lookup_eq_none (heq ▸ Entries.not_mem_keys_of_lookup hxs)
        rw [hnone hkeys hget, hnone hkeys' (h.get?_eq_none hget)]
        exact .none
    | some value =>
        obtain ⟨other, hget', hreorders⟩ := h.exists_other (Entries.mem_of_lookup hget)
        obtain ⟨a, ha, hout⟩ := get?_of_entries hout hget
        obtain ⟨a', ha', hout'⟩ := get?_of_entries hout' hget'
        have hboth := hd (key, value) (Entries.mem_of_lookup hget) hreorders
        rw [ha, ha'] at hboth
        rw [hout, hout']
        cases hboth with
        | ok hboth => exact .some hboth

/-- Records keep the order of the input. -/
theorem record_carries
    (hd : ∀ inner : Value, inner.depth < value.depth → d.Carries Reorders inner) :
    Carries Reorders value (record d) := by
  intro other h
  cases value with
  | object members =>
      obtain ⟨others, rfl, hmembers⟩ := h.of_object
      have hentries := entries_carries hmembers fun entry hentry =>
        hd entry.2 (Value.depth_lt_of_member hentry)
      exact hentries.map fun _ _ _ _ => reorders_object_iff.2
  | array _ =>
      obtain ⟨_, rfl, _⟩ := h.of_array
      exact .error _ _
  | _ =>
      obtain rfl := h.eq_of_isScalar rfl
      exact .error _ _

theorem items_carries : ∀ (index : Nat) {items others : List Value},
    List.Forall₂ Reorders items others → (∀ item ∈ items, d.Carries s item) →
    Outcome.Rel (List.Forall₂ s) (Decoding.items d index items) (Decoding.items d index others)
  | _, [], _, h, _ => by
      cases h
      exact .ok .nil
  | index, item :: items, _, h, hd => by
      obtain ⟨other, others, hitem, hitems, rfl⟩ := List.forall₂_cons_left_iff.1 h
      have hfirst := (hd item List.mem_cons_self hitem).under (.index index .optional)
        (.index index .optional)
      rw [items_cons, items_cons]
      exact hfirst.both (fun _ _ _ _ => .cons)
        (items_carries (index + 1) hitems fun item hmem => hd item (List.mem_cons_of_mem _ hmem))

theorem array_carries (hs : Carried s)
    (hd : ∀ inner : Value, inner.depth < value.depth → d.Carries s inner) :
    Carries s value (array d) := by
  intro other h
  cases value with
  | array items =>
      obtain ⟨others, rfl, hothers⟩ := h.of_array
      have hitems := items_carries 0 hothers fun item hitem =>
        hd item (Value.depth_lt_of_item hitem)
      exact hitems.map fun _ _ _ _ => hs.array
  | object _ =>
      obtain ⟨_, rfl, _⟩ := h.of_object
      exact .error _ _
  | _ =>
      obtain rfl := h.eq_of_isScalar rfl
      exact .error _ _

theorem places_carries : ∀ (index : Nat) {ds : List (Decoding Id)} {items others : List Value},
    List.Forall₂ Reorders items others → (∀ d ∈ ds, ∀ item ∈ items, d.Carries s item) →
    Outcome.Rel (List.Forall₂ s) (places index ds items) (places index ds others)
  | _, [], _, _, _, _ => .ok .nil
  | index, d :: ds, [], _, h, _ => by
      cases h
      rw [places_cons_nil]
      have hfirst : Outcome.Rel s (.error (.under (.index index .required) .missing))
          (.error (.under (.index index .required) .missing)) := .error _ _
      exact hfirst.both (fun _ _ _ _ => .cons)
        (places_carries (index + 1) .nil fun _ _ _ hitem => nomatch hitem)
  | index, d :: ds, item :: items, _, h, hds => by
      obtain ⟨other, others, hitem, hitems, rfl⟩ := List.forall₂_cons_left_iff.1 h
      have hfirst := (hds d List.mem_cons_self item List.mem_cons_self hitem).under
        (.index index .required) (.index index .required)
      rw [places_cons, places_cons]
      have hrest := places_carries (index + 1) hitems fun d hd item hmem =>
        hds d (List.mem_cons_of_mem _ hd) item (List.mem_cons_of_mem _ hmem)
      exact hfirst.both (fun _ _ _ _ => .cons) hrest

theorem tuple_carries (hs : Carried s)
    (hds : ∀ d ∈ ds, ∀ inner : Value, inner.depth < value.depth → d.Carries s inner) :
    Carries s value (tuple ds) := by
  intro other h
  cases value with
  | array items =>
      obtain ⟨others, rfl, hothers⟩ := h.of_array
      have hplaces := places_carries 0 hothers fun d hd item hitem =>
        hds d hd item (Value.depth_lt_of_item hitem)
      exact hplaces.map fun _ _ _ _ => hs.array
  | object _ =>
      obtain ⟨_, rfl, _⟩ := h.of_object
      exact .error _ _
  | _ =>
      obtain rfl := h.eq_of_isScalar rfl
      exact .error _ _

theorem intersection_carries (hs : Carried s) (hleft : left.Carries s value)
    (hright : right.Carries s value) : Carries s value (intersection left right) :=
  fun _ h => (hleft h).both (fun _ _ _ _ => hs.merge) (hright h)

theorem sum_carries (tag : String) {parts : Entries (Decoding Id)}
    (hparts : ∀ part ∈ parts, part.2.Carries s value) : Carries s value (sum tag parts) := by
  intro other h
  have hmember := h.memberOf?_eq tag parts
  cases hpart : memberOf? tag parts value with
  | some part =>
      obtain ⟨key, hmem⟩ := mem_of_memberOf? hpart
      rw [decode_sum hpart, decode_sum (hmember ▸ hpart)]
      exact hparts (key, part) hmem h
  | none =>
      have hfails {v : Value} (hv : memberOf? tag parts v = none) :
          ∃ e, (sum tag parts).decode v = (.error e : Outcome Value) := by
        cases hdecode : ((sum tag parts).decode v : Outcome Value) with
        | error e => exact ⟨e, rfl⟩
        | ok a =>
            obtain ⟨_, hsome, _⟩ := sum_eq_ok hdecode
            rw [hv] at hsome
            cases hsome
      obtain ⟨e, he⟩ := hfails hpart
      obtain ⟨f, hf⟩ := hfails (hmember ▸ hpart)
      rw [he, hf]
      exact .error _ _

theorem firstOf_carries {other : Value} (h : Reorders value other) :
    ∀ (index : Nat) {rest : List (Decoding Id)} {part : Decoding Id},
      (∀ d ∈ part :: rest, d.Carries s value) →
      Outcome.Rel s (firstOf value index part rest) (firstOf other index part rest)
  | index, [], part, hds => (hds part List.mem_cons_self h).under (.member index) (.member index)
  | index, next :: rest, part, hds => by
      have hfirst := hds part List.mem_cons_self h
      have hrest := firstOf_carries h (index + 1) fun d hd =>
        hds d (List.mem_cons_of_mem _ hd)
      rw [firstOf_cons, firstOf_cons]
      generalize (part.decode value : Outcome Value) = o at hfirst
      generalize (part.decode other : Outcome Value) = o' at hfirst
      cases hfirst with
      | ok ha => exact .ok ha
      | error e f =>
          generalize (firstOf value (index + 1) next rest : Outcome Value) = p at hrest
          generalize (firstOf other (index + 1) next rest : Outcome Value) = p' at hrest
          cases hrest with
          | ok ha => exact .ok ha
          | error _ _ => exact .error _ _

end Decoding

/-! ## Encoders -/

namespace Encoding

/-- A value and any other that is equal to it up to the order of keys are encoded to values
that are so too, and accepted together. -/
def Alike (value : Value) (e : Encoding Id) : Prop :=
  ∀ ⦃other : Value⦄, Reorders value other →
    Reorders (e.encode value) (e.encode other) ∧ e.accepts value = e.accepts other

variable {value : Value} {e left right : Encoding Id} {es : List (Encoding Id)}

theorem test_alike {holds : Value → Bool}
    (h : ∀ other, Reorders value other → holds value = holds other) : Alike value (test holds) :=
  fun other hother => ⟨hother, h other hother⟩

theorem literalsOr_alike (values : NonEmpty Literal) (he : e.Alike value) :
    Alike value (literalsOr values e) := by
  intro other h
  have heq := (Decoding.any_isMatch values.toList h).1
  show Reorders (if _ then value else e.encode value) (if _ then other else e.encode other) ∧
    (if _ then true else e.accepts value) = (if _ then true else e.accepts other)
  rw [← heq]
  split
  · exact ⟨h, rfl⟩
  · exact he h

theorem encodeFields_alike {members others : Members} (h : ReordersMembers members others) :
    ∀ {parts : Entries (Encoding Id)},
      (∀ part ∈ parts, ∀ key value, Value.get? key members = some value → part.2.Alike value) →
      List.Forall₂ (Keyed Reorders) (encodeFields (m := Id) members parts)
        (encodeFields (m := Id) others parts)
  | [], _ => .nil
  | (key, part) :: parts, hparts => by
      have hrest := encodeFields_alike h fun part hpart =>
        hparts part (List.mem_cons_of_mem _ hpart)
      cases hget : Value.get? key members with
      | some value =>
          obtain ⟨other, hget', hreorders⟩ := h.exists_other (Entries.mem_of_lookup hget)
          have hvalue := hparts (key, part) List.mem_cons_self key value hget hreorders
          rw [encodeFields_of_some hget, encodeFields_of_some hget']
          exact .cons ⟨rfl, hvalue.1⟩ hrest
      | none =>
          rw [encodeFields_of_none hget, encodeFields_of_none (h.get?_eq_none hget)]
          exact hrest

theorem acceptsFields_alike (kind : FieldKind) {members others : Members}
    (h : ReordersMembers members others) : ∀ {parts : Entries (Encoding Id)},
      (∀ part ∈ parts, ∀ key value, Value.get? key members = some value → part.2.Alike value) →
      acceptsFields (m := Id) kind members parts = acceptsFields (m := Id) kind others parts
  | [], _ => rfl
  | (key, part) :: parts, hparts => by
      have hrest := acceptsFields_alike kind h fun part hpart =>
        hparts part (List.mem_cons_of_mem _ hpart)
      simp only [acceptsFields]
      cases hget : Value.get? key members with
      | some value =>
          obtain ⟨other, hget', hreorders⟩ := h.exists_other (Entries.mem_of_lookup hget)
          have hvalue := hparts (key, part) List.mem_cons_self key value hget hreorders
          rw [hget']
          show andAlso _ _ = andAlso _ _
          rw [hvalue.2, hrest]
      | none => rw [h.get?_eq_none hget, hrest]

theorem object_alike (kind : FieldKind) {parts : Entries (Encoding Id)}
    (hnodup : parts.keys.Nodup)
    (hparts : ∀ part ∈ parts, ∀ inner : Value, inner.depth < value.depth → part.2.Alike inner) :
    Alike value (object kind parts) := by
  intro other h
  cases value with
  | object members =>
      obtain ⟨others, rfl, hmembers⟩ := h.of_object
      have hinner : ∀ part ∈ parts, ∀ key inner, Value.get? key members = some inner →
          part.2.Alike inner :=
        fun part hpart _ inner hget => hparts part hpart inner (Value.depth_lt_of_get? hget)
      exact ⟨carried_reorders.object (hnodup.sublist (keys_sublist_of_encodeFields members parts))
        (encodeFields_alike hmembers hinner), acceptsFields_alike kind hmembers hinner⟩
  | array _ =>
      obtain ⟨_, rfl, _⟩ := h.of_array
      exact ⟨h, rfl⟩
  | _ =>
      obtain rfl := h.eq_of_isScalar rfl
      exact ⟨h, rfl⟩

theorem keys_encodeEntries : ∀ members : Members,
    Entries.keys (encodeEntries (m := Id) e members) = Entries.keys members
  | [] => rfl
  | (key, _) :: members => congrArg (key :: ·) (keys_encodeEntries members)

theorem get?_encodeEntries (key : String) : ∀ members : Members,
    Value.get? key (encodeEntries (m := Id) e members) =
      (Value.get? key members).map fun value => (e.encode value : Value)
  | [] => rfl
  | (k, value) :: members => by
      show Value.get? key ((k, e.encode value) :: encodeEntries (m := Id) e members) = _
      by_cases hkey : key = k
      · subst hkey
        rw [Decoding.get?_cons_self, Decoding.get?_cons_self]
        rfl
      · rw [Decoding.get?_cons_of_ne hkey, Decoding.get?_cons_of_ne hkey,
          get?_encodeEntries key members]

theorem acceptsAll_eq (values : List Value) :
    acceptsAll (m := Id) e values = values.all fun value => (e.accepts value : Bool) := by
  induction values with
  | nil => rfl
  | cons value values ih =>
      rw [acceptsAll, ih, List.all_cons]
      exact andAlso_eq _ _

theorem record_alike
    (he : ∀ inner : Value, inner.depth < value.depth → e.Alike inner) :
    Alike value (record e) := by
  intro other h
  cases value with
  | object members =>
      obtain ⟨others, rfl, hmembers⟩ := h.of_object
      have hinner : ∀ entry ∈ members, e.Alike entry.2 :=
        fun entry hentry => he entry.2 (Value.depth_lt_of_member hentry)
      constructor
      · refine reorders_object_iff.2 ⟨?_, ?_, fun key => ?_⟩
        · rw [keys_encodeEntries]
          exact hmembers.nodup
        · rw [keys_encodeEntries]
          exact hmembers.nodup_other
        · rw [get?_encodeEntries, get?_encodeEntries]
          cases hget : Value.get? key members with
          | none =>
              rw [hmembers.get?_eq_none hget]
              exact .none
          | some inner =>
              have hmem := Entries.mem_of_lookup hget
              obtain ⟨other, hget', hreorders⟩ := hmembers.exists_other hmem
              rw [hget']
              exact .some (hinner _ hmem hreorders).1
      · show acceptsAll (m := Id) e _ = acceptsAll (m := Id) e _
        rw [acceptsAll_eq, acceptsAll_eq, List.all_map, List.all_map, Bool.eq_iff_iff,
          List.all_eq_true, List.all_eq_true]
        constructor
        · intro hall entry hentry
          obtain ⟨inner, hget, hreorders⟩ := hmembers.exists_member hentry
          have hmem := Entries.mem_of_lookup hget
          exact (hinner _ hmem hreorders).2.symm.trans (hall _ hmem)
        · intro hall entry hentry
          obtain ⟨other, hget, hreorders⟩ := hmembers.exists_other hentry
          exact (hinner _ hentry hreorders).2.trans (hall _ (Entries.mem_of_lookup hget))
  | array _ =>
      obtain ⟨_, rfl, _⟩ := h.of_array
      exact ⟨h, rfl⟩
  | _ =>
      obtain rfl := h.eq_of_isScalar rfl
      exact ⟨h, rfl⟩

theorem items_alike {items others : List Value} (h : List.Forall₂ Reorders items others)
    (he : ∀ item ∈ items, e.Alike item) :
    List.Forall₂ Reorders (encodeAll (m := Id) e items) (encodeAll (m := Id) e others) ∧
      acceptsAll (m := Id) e items = acceptsAll (m := Id) e others := by
  induction h with
  | nil => exact ⟨.nil, rfl⟩
  | cons hitem _ ih =>
      have hfirst := he _ List.mem_cons_self hitem
      have hrest := ih fun item hmem => he item (List.mem_cons_of_mem _ hmem)
      refine ⟨.cons hfirst.1 hrest.1, ?_⟩
      simp only [acceptsAll]
      rw [hfirst.2, hrest.2]

theorem array_alike (he : ∀ inner : Value, inner.depth < value.depth → e.Alike inner) :
    Alike value (array e) := by
  intro other h
  cases value with
  | array items =>
      obtain ⟨others, rfl, hothers⟩ := h.of_array
      have hitems := items_alike hothers fun item hitem => he item (Value.depth_lt_of_item hitem)
      exact ⟨.array hitems.1, hitems.2⟩
  | object _ =>
      obtain ⟨_, rfl, _⟩ := h.of_object
      exact ⟨h, rfl⟩
  | _ =>
      obtain rfl := h.eq_of_isScalar rfl
      exact ⟨h, rfl⟩

theorem places_alike : ∀ {es : List (Encoding Id)} {items others : List Value},
    List.Forall₂ Reorders items others → (∀ e ∈ es, ∀ item ∈ items, e.Alike item) →
    List.Forall₂ Reorders (encodePlaces (m := Id) es items) (encodePlaces (m := Id) es others) ∧
      acceptsPlaces (m := Id) es items = acceptsPlaces (m := Id) es others
  | [], _, _, _, _ => ⟨.nil, rfl⟩
  | _ :: _, [], _, h, _ => by
      cases h
      exact ⟨.nil, rfl⟩
  | e :: es, item :: items, _, h, hes => by
      obtain ⟨other, others, hitem, hitems, rfl⟩ := List.forall₂_cons_left_iff.1 h
      have hfirst := hes e List.mem_cons_self item List.mem_cons_self hitem
      have hrest := places_alike hitems fun e he item hmem =>
        hes e (List.mem_cons_of_mem _ he) item (List.mem_cons_of_mem _ hmem)
      refine ⟨.cons hfirst.1 hrest.1, ?_⟩
      simp only [acceptsPlaces]
      rw [hfirst.2, hrest.2]

theorem tuple_alike
    (hes : ∀ e ∈ es, ∀ inner : Value, inner.depth < value.depth → e.Alike inner) :
    Alike value (tuple es) := by
  intro other h
  cases value with
  | array items =>
      obtain ⟨others, rfl, hothers⟩ := h.of_array
      have hplaces := places_alike hothers fun e he item hitem =>
        hes e he item (Value.depth_lt_of_item hitem)
      refine ⟨.array hplaces.1, ?_⟩
      show (if es.length ≤ items.length then acceptsPlaces es items else pure false) =
        (if es.length ≤ others.length then acceptsPlaces es others else pure false)
      rw [hothers.length_eq, hplaces.2]
  | object _ =>
      obtain ⟨_, rfl, _⟩ := h.of_object
      exact ⟨h, rfl⟩
  | _ =>
      obtain rfl := h.eq_of_isScalar rfl
      exact ⟨h, rfl⟩

theorem intersection_alike (hleft : left.Alike value) (hright : right.Alike value) :
    Alike value (intersection left right) := by
  intro other h
  refine ⟨(hleft h).1.merge (hright h).1, ?_⟩
  show andAlso _ _ = andAlso _ _
  rw [(hleft h).2, (hright h).2]

theorem sum_alike (tag : String) {parts : Entries (Encoding Id)}
    (hparts : ∀ part ∈ parts, part.2.Alike value) : Alike value (sum tag parts) := by
  intro other h
  have hmember := h.memberOf?_eq tag parts
  simp only [sum]
  cases hpart : Decoding.memberOf? tag parts value with
  | some part =>
      obtain ⟨key, hmem⟩ := Decoding.mem_of_memberOf? hpart
      rw [← hmember, hpart]
      exact hparts (key, part) hmem h
  | none =>
      rw [← hmember, hpart]
      exact ⟨h, rfl⟩

theorem union_alike {other : Value} (h : Reorders value other) : ∀ {es : List (Encoding Id)},
    (∀ e ∈ es, e.Alike value) →
    Reorders (encodeFirst (m := Id) value es) (encodeFirst (m := Id) other es) ∧
      acceptsAny (m := Id) value es = acceptsAny (m := Id) other es
  | [], _ => ⟨h, rfl⟩
  | e :: es, hes => by
      have hfirst := hes e List.mem_cons_self h
      have hrest := union_alike h fun e he => hes e (List.mem_cons_of_mem _ he)
      refine ⟨?_, by rw [acceptsAny_cons, acceptsAny_cons, hfirst.2, hrest.2]⟩
      cases haccepts : e.accepts value with
      | true =>
          rw [encodeFirst_of_accepts haccepts,
            encodeFirst_of_accepts (hfirst.2.symm.trans haccepts)]
          exact hfirst.1
      | false =>
          rw [encodeFirst_of_rejects haccepts,
            encodeFirst_of_rejects (hfirst.2.symm.trans haccepts)]
          exact hrest.1

/-- What composites encode is equal up to the order of keys, and they accept both values or
none, when that is so of their parts. -/
theorem reorders_congruence (value : Value) :
    Congruence
      (fun (e _ : Encoding Id) => ∀ inner : Value, inner.depth < value.depth → e.Alike inner)
      (fun (e _ : Encoding Id) => e.Alike value) where
  literal _ := test_alike fun _ h => (Decoding.any_isMatch _ h).1
  literals _ := test_alike fun _ h => (Decoding.any_isMatch _ h).1
  literalsOr values {_ _} h := literalsOr_alike values h
  primitive kind := test_alike fun _ h => h.holds_eq kind
  object kind {_ _} hnodup h :=
    object_alike kind hnodup (forall_of_forall₂ (h.imp fun _ _ he => he.2))
  record {_ _} h := record_alike h
  array {_ _} h := array_alike h
  tuple {_ _} h := tuple_alike (forall_of_forall₂ h)
  intersection {_ _ _ _} hleft hright := intersection_alike hleft hright
  sum tag {_ _} _ h := sum_alike tag (forall_of_forall₂ (h.imp fun _ _ he => he.2))
  union {_ _ _ _} h hs := fun _ hother =>
    union_alike hother (List.forall_mem_cons.2 ⟨h, forall_of_forall₂ hs⟩)
  readonly {_ _} h := h

end Encoding
end Schemata
