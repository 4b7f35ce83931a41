import Schemata.Proofs.Transparency

/-!
# Decoders and encoders agree

The domain of an encoder is what the decoder of the same schema takes, and there it
encodes a value to what the decoder makes of it.  On a value, a decoder and an encoder
agree when the guard holds exactly if the outcome is a value, and then that value is
what the value is encoded to (`Agrees`).  Agreement goes through the combinators, so it
goes through the references of a document as well.

**Results.**

* `Agree.congruence`: composites agree when their parts do.
* `Document.decoding_agrees`: the two meanings of a name agree on every value.
* `Document.union_picks` and `Document.sum_picks`: unions pick the same member in both
  directions, and so do sums.
* `Document.engines_agree`: decoding a document gives a value exactly when encoding
  accepts the input, and then both give the same.
-/

namespace Schemata

open Json

/-! ## Outcomes -/

namespace Outcome

variable {α β γ : Type}

@[simp]
theorem isOk_under (step : Step) (o : Outcome α) : (o.under step).isOk = o.isOk := by
  cases o <;> rfl

@[simp]
theorem isOk_map (f : α → β) (o : Outcome α) : (o.map f).isOk = o.isOk := by
  cases o <;> rfl

@[simp]
theorem isOk_both (join : α → β → γ) (o : Outcome α) (p : Outcome β) :
    (o.both join p).isOk = (o.isOk && p.isOk) := by
  cases o <;> cases p <;> rfl

theorem under_eq_ok {step : Step} {o : Outcome α} {a : α} (h : o.under step = .ok a) :
    o = .ok a := by
  cases o with
  | ok _ => exact h
  | error _ => cases h

theorem map_eq_ok {f : α → β} {o : Outcome α} {b : β} (h : o.map f = .ok b) :
    ∃ a, o = .ok a ∧ f a = b := by
  cases o with
  | ok a => exact ⟨a, rfl, Except.ok.inj h⟩
  | error _ => cases h

theorem both_eq_ok {join : α → β → γ} {o : Outcome α} {p : Outcome β} {c : γ}
    (h : o.both join p = .ok c) : ∃ a b, o = .ok a ∧ p = .ok b ∧ join a b = c := by
  cases o with
  | error _ => cases p <;> cases h
  | ok a =>
      cases p with
      | error _ => cases h
      | ok b => exact ⟨a, b, rfl, rfl, Except.ok.inj h⟩

end Outcome

/-! ## Agreement -/

/-- A computation of an outcome, one of a condition and one of a value: where they have
answers, the condition holds exactly if the outcome is a value, and then it is the
same. -/
structure Agrees {α : Type} (x : Option (Outcome α)) (y : Option Bool) (z : Option α) : Prop where
  isOk {o : Outcome α} {b : Bool} : x = some o → y = some b → b = o.isOk
  value {a c : α} : x = some (.ok a) → z = some c → c = a

namespace Agrees

variable {α β γ : Type} {x : Option (Outcome α)} {y : Option Bool} {z : Option α}
  {x' : Option (Outcome β)} {y' : Option Bool} {z' : Option β}

theorem ok (a : α) : Agrees (pure (.ok a)) (pure true) (pure a) where
  isOk h h' := by
    obtain rfl := Option.some.inj h
    exact (Option.some.inj h').symm
  value h h' := by
    obtain rfl := Except.ok.inj (Option.some.inj h)
    exact (Option.some.inj h').symm

theorem error (e : DecodeError) : Agrees (pure (.error e)) (pure false) z where
  isOk h h' := by
    obtain rfl := Option.some.inj h
    exact (Option.some.inj h').symm
  value h _ := by cases h

/-- A decoding that does not come to an end agrees with anything. -/
theorem diverges : Agrees none y z where
  isOk h := by cases h
  value h := by cases h

/-- Nothing is accepted where the outcome is a failure. -/
theorem of_fails (h : ∀ o, x = some o → o.isOk = false) : Agrees x (pure false) z where
  isOk ho hb := by
    obtain rfl := Option.some.inj hb
    exact (h _ ho).symm
  value ho _ := by cases h _ ho

/-- A step above a failure changes nothing. -/
theorem under (step : Step) (h : Agrees x y z) :
    Agrees (x >>= fun o => pure (o.under step)) y z where
  isOk ho hb := by
    obtain ⟨o, hx, hu⟩ := Option.bind_eq_some_iff.1 ho
    obtain rfl := Option.some.inj hu
    rw [Outcome.isOk_under]
    exact h.isOk hx hb
  value ho hc := by
    obtain ⟨o, hx, hu⟩ := Option.bind_eq_some_iff.1 ho
    obtain rfl := Outcome.under_eq_ok (Option.some.inj hu)
    exact h.value hx hc

/-- The value is mapped in both directions. -/
theorem map (f : α → β) (h : Agrees x y z) :
    Agrees (x >>= fun o => pure (o.map f)) y (z >>= fun a => pure (f a)) where
  isOk ho hb := by
    obtain ⟨o, hx, hm⟩ := Option.bind_eq_some_iff.1 ho
    obtain rfl := Option.some.inj hm
    rw [Outcome.isOk_map]
    exact h.isOk hx hb
  value ho hc := by
    obtain ⟨o, hx, hm⟩ := Option.bind_eq_some_iff.1 ho
    obtain ⟨a, rfl, rfl⟩ := Outcome.map_eq_ok (Option.some.inj hm)
    obtain ⟨c, hz, hf⟩ := Option.bind_eq_some_iff.1 hc
    rw [← Option.some.inj hf, h.value hx hz]

/-- Both parts have to succeed, and then their values are joined. -/
theorem both (join : α → β → γ) (h : Agrees x y z) (h' : Agrees x' y' z') :
    Agrees (x >>= fun o => x' >>= fun p => pure (o.both join p)) (Encoding.andAlso y y')
      (z >>= fun a => z' >>= fun b => pure (join a b)) where
  isOk ho hb := by
    obtain ⟨o, hx, ho⟩ := Option.bind_eq_some_iff.1 ho
    obtain ⟨p, hx', ho⟩ := Option.bind_eq_some_iff.1 ho
    obtain rfl := Option.some.inj ho
    obtain ⟨b, hy, hb⟩ := Option.bind_eq_some_iff.1 hb
    rw [Outcome.isOk_both, ← h.isOk hx hy]
    cases b with
    | false => exact (Option.some.inj hb).symm
    | true => exact h'.isOk hx' hb
  value ho hc := by
    obtain ⟨o, hx, ho⟩ := Option.bind_eq_some_iff.1 ho
    obtain ⟨p, hx', ho⟩ := Option.bind_eq_some_iff.1 ho
    obtain ⟨a, b, rfl, rfl, rfl⟩ := Outcome.both_eq_ok (Option.some.inj ho)
    obtain ⟨c, hz, hc⟩ := Option.bind_eq_some_iff.1 hc
    obtain ⟨d, hz', hc⟩ := Option.bind_eq_some_iff.1 hc
    rw [← Option.some.inj hc, h.value hx hz, h'.value hx' hz']

/-- The first part that succeeds counts. -/
theorem orElse {x' : Option (Outcome α)} {z' : Option α} (h : Agrees x y z)
    (h' : Agrees x' y' z') (fail : DecodeError → DecodeError → DecodeError) :
    Agrees
      (x >>= fun o => match o with
        | .ok a => pure (.ok a)
        | .error e => x' >>= fun p => match p with
          | .ok a => pure (.ok a)
          | .error f => pure (.error (fail e f)))
      (Encoding.orElse y y') (y >>= fun b => if b then z else z') where
  isOk ho hb := by
    obtain ⟨o, hx, ho⟩ := Option.bind_eq_some_iff.1 ho
    obtain ⟨b, hy, hb⟩ := Option.bind_eq_some_iff.1 hb
    obtain rfl := h.isOk hx hy
    cases o with
    | ok a =>
        obtain rfl := Option.some.inj ho
        exact (Option.some.inj hb).symm
    | error e =>
        obtain ⟨p, hx', ho⟩ := Option.bind_eq_some_iff.1 ho
        rw [h'.isOk hx' hb]
        cases p with
        | ok a => rw [← Option.some.inj ho]
        | error f => rw [← Option.some.inj ho]; rfl
  value ho hc := by
    obtain ⟨o, hx, ho⟩ := Option.bind_eq_some_iff.1 ho
    obtain ⟨b, hy, hc⟩ := Option.bind_eq_some_iff.1 hc
    obtain rfl := h.isOk hx hy
    cases o with
    | ok a =>
        obtain rfl := Except.ok.inj (Option.some.inj ho)
        exact h.value hx hc
    | error e =>
        obtain ⟨p, hx', ho⟩ := Option.bind_eq_some_iff.1 ho
        cases p with
        | ok a =>
            obtain rfl := Except.ok.inj (Option.some.inj ho)
            exact h'.value hx' hc
        | error f => cases Option.some.inj ho

/-- Where nothing else is left, what the only part says counts. -/
theorem orElse_none (h : Agrees x y z) (rest : Option α) :
    Agrees x (Encoding.orElse y (pure false)) (y >>= fun b => if b then z else rest) where
  isOk ho hb := by
    obtain ⟨b, hy, hb⟩ := Option.bind_eq_some_iff.1 hb
    rw [← h.isOk ho hy]
    cases b <;> exact (Option.some.inj hb).symm
  value ho hc := by
    obtain ⟨b, hy, hc⟩ := Option.bind_eq_some_iff.1 hc
    obtain rfl := h.isOk ho hy
    exact h.value ho hc

end Agrees

/-- A decoder and an encoder that agree on every value. -/
def Agree (d : Decoding Option) (e : Encoding Option) : Prop :=
  ∀ value, Agrees (d.decode value) (e.accepts value) (e.encode value)

namespace Agree

/-! ## Combinators -/

theorem test (holds : Value → Bool) (expected : String) :
    Agree (Decoding.test holds expected) (Encoding.test holds) := by
  intro value
  show Agrees (pure (if holds value then _ else _)) (pure (holds value)) (pure value)
  cases holds value with
  | true => exact .ok value
  | false => exact .error _

theorem fields (kind : FieldKind) (members : Members) {ds : Entries (Decoding Option)}
    {es : Entries (Encoding Option)} (h : List.Forall₂ (Keyed Agree) ds es) :
    Agrees (Decoding.fields kind members ds) (Encoding.acceptsFields kind members es)
      (Encoding.encodeFields members es) := by
  induction h with
  | nil => exact .ok []
  | @cons d e ds es hde _ ih =>
      obtain ⟨key, d⟩ := d
      obtain ⟨_, e⟩ := e
      obtain ⟨rfl, hde⟩ := hde
      simp only [Decoding.fields, Encoding.acceptsFields, Encoding.encodeFields]
      cases Value.get? key members with
      | some value =>
          have hfirst := ((hde value).under (.key key kind)).map fun decoded => [(key, decoded)]
          have := hfirst.both (· ++ ·) ih
          simpa [Decoding.field, Option.bind_assoc] using this
      | none =>
          cases kind with
          | required =>
              refine .of_fails fun o ho => ?_
              obtain ⟨_, hfirst, ho⟩ := Option.bind_eq_some_iff.1 ho
              obtain rfl := Option.some.inj hfirst
              obtain ⟨p, _, ho⟩ := Option.bind_eq_some_iff.1 ho
              rw [← Option.some.inj ho, Outcome.isOk_both]
              rfl
          | optional =>
              have hskip : ∀ p : Outcome Members, Outcome.both (· ++ ·) (.ok []) p = p := by
                intro p
                cases p <;> rfl
              simpa [Decoding.field, hskip] using ih

theorem entries {d : Decoding Option} {e : Encoding Option} (h : Agree d e) :
    ∀ members : Members,
      Agrees (Decoding.entries d members) (Encoding.acceptsAll e (members.map Prod.snd))
        (Encoding.encodeEntries e members)
  | [] => .ok []
  | (key, value) :: rest => by
      have hfirst := ((h value).under (.key key .optional)).map fun decoded => (key, decoded)
      have := hfirst.both (· :: ·) (entries h rest)
      simpa [Decoding.entries, Encoding.acceptsAll, Encoding.encodeEntries, Option.bind_assoc]
        using this

theorem items {d : Decoding Option} {e : Encoding Option} (h : Agree d e) :
    ∀ (index : Nat) (values : List Value),
      Agrees (Decoding.items d index values) (Encoding.acceptsAll e values)
        (Encoding.encodeAll e values)
  | _, [] => .ok []
  | index, value :: rest => by
      have := ((h value).under (.index index .optional)).both (· :: ·) (items h (index + 1) rest)
      simpa [Decoding.items, Encoding.acceptsAll, Encoding.encodeAll, Option.bind_assoc] using this

theorem places {ds : List (Decoding Option)} {es : List (Encoding Option)}
    (h : List.Forall₂ Agree ds es) : ∀ (index : Nat) (values : List Value),
      Agrees (Decoding.places index ds values)
        (if es.length ≤ values.length then Encoding.acceptsPlaces es values else pure false)
        (Encoding.encodePlaces es values) := by
  induction h with
  | nil => exact fun _ _ => .ok []
  | @cons d e ds es hde _ ih =>
      intro index values
      cases values with
      | nil =>
          refine .of_fails fun o ho => ?_
          obtain ⟨p, _, ho⟩ := Option.bind_eq_some_iff.1 ho
          rw [← Option.some.inj ho, Outcome.isOk_both]
          rfl
      | cons value rest =>
          have hrest := ih (index + 1) rest
          by_cases hlength : es.length ≤ rest.length
          · rw [if_pos hlength] at hrest
            rw [if_pos (by simpa using hlength)]
            have := ((hde value).under (.index index .required)).both (· :: ·) hrest
            simpa [Decoding.places, Encoding.acceptsPlaces, Encoding.encodePlaces,
              Option.bind_assoc] using this
          · rw [if_neg hlength] at hrest
            rw [if_neg (by simpa using hlength)]
            refine .of_fails fun o ho => ?_
            obtain ⟨p, _, ho⟩ := Option.bind_eq_some_iff.1 ho
            obtain ⟨q, hq, ho⟩ := Option.bind_eq_some_iff.1 ho
            rw [← Option.some.inj ho, Outcome.isOk_both, ← hrest.isOk hq rfl, Bool.and_false]

theorem firstOf {value : Value} {ds : List (Decoding Option)} {es : List (Encoding Option)}
    (h : List.Forall₂ Agree ds es) : ∀ {d : Decoding Option} {e : Encoding Option} (index : Nat),
      Agree d e → Agrees (Decoding.firstOf value index d ds) (Encoding.acceptsAny value (e :: es))
        (Encoding.encodeFirst value (e :: es)) := by
  induction h with
  | nil =>
      intro d e index hde
      have hlast := ((hde value).under (.member index)).orElse_none (pure value)
      exact hlast
  | @cons d' e' ds es hnext _ ih =>
      intro d e index hde
      have := (hde value).orElse (ih (index + 1) hnext) fun error others =>
        DecodeError.under (.member index) error ++ others
      rw [Encoding.acceptsAny, Encoding.encodeFirst, Decoding.firstOf]
      convert this using 1
      refine bind_congr fun o => ?_
      cases o with
      | ok _ => rfl
      | error _ =>
          refine bind_congr fun p => ?_
          cases p <;> rfl

theorem sum {value : Value} {tag : String} {ds : Entries (Decoding Option)}
    {es : Entries (Encoding Option)} (h : List.Forall₂ (Keyed Agree) ds es) :
    Agrees ((Decoding.sum tag ds).decode value) ((Encoding.sum tag es).accepts value)
      ((Encoding.sum tag es).encode value) := by
  have hmember := Decoding.memberOf?_rel tag value h
  simp only [Encoding.sum]
  generalize hd : Decoding.memberOf? tag ds value = d at hmember
  generalize Decoding.memberOf? tag es value = e at hmember
  cases value with
  | object members =>
      simp only [Decoding.sum, hd]
      cases hget : Value.get? tag members with
      | none =>
          have hnone : Decoding.memberOf? tag ds (.object members) = none := by
            simp [Decoding.memberOf?, Value.member?, hget]
          rw [hnone] at hd
          subst hd
          cases hmember
          exact .error _
      | some named =>
          cases hmember with
          | none => exact .error _
          | some hde => exact hde (.object members)
  | _ =>
      obtain rfl : d = none := hd.symm
      cases hmember
      exact .error _

/-- Decoders and encoders agree when their parts do. -/
theorem congruence : Congruence Agree Agree where
  literal value := test _ _
  literals values := test _ _
  literalsOr values {d e} h := by
    intro value
    show Agrees (if _ then _ else _) (if _ then _ else _) (if _ then _ else _)
    cases values.toList.any (·.isMatch value) with
    | true => exact .ok value
    | false => exact h value
  primitive kind := test _ _
  object kind {ds es} _ h := by
    intro value
    cases value with
    | object members => exact (fields kind members h).map Value.object
    | _ => exact .error _
  record {d e} h := by
    intro value
    cases value with
    | object members => exact (entries h members).map Value.object
    | _ => exact .error _
  array {d e} h := by
    intro value
    cases value with
    | array values => exact (items h 0 values).map Value.array
    | _ => exact .error _
  tuple {ds es} h := by
    intro value
    cases value with
    | array values => exact (places h 0 values).map Value.array
    | _ => exact .error _
  intersection {_ _ _ _} h h' := fun value => (h value).both merge (h' value)
  sum tag {_ _} _ h := fun _ => sum h
  union {_ _ _ _} h hs := fun _ => firstOf hs 0 h
  readonly {_ _} h := h

end Agree

/-! ## Picks -/

/-- The place of the first member that decodes a value. -/
def Decoding.pick {m : Type → Type} [Monad m] (value : Value) : List (Decoding m) → m (Option Nat)
  | [] => pure none
  | part :: rest => do
      match ← part.decode value with
      | .ok _ => pure (some 0)
      | .error _ => do pure ((← pick value rest).map (· + 1))

/-- The place of the first member whose guard holds of a value. -/
def Encoding.pick {m : Type → Type} [Monad m] (value : Value) : List (Encoding m) → m (Option Nat)
  | [] => pure none
  | part :: rest => do
      if ← part.accepts value then pure (some 0)
      else do pure ((← pick value rest).map (· + 1))

/-- What members pick in both directions: one place, if any, and a union decodes and
encodes by the member at it. -/
def Picks (value : Value) (ds : List (Decoding Option)) (es : List (Encoding Option))
    (x : Option (Outcome Value)) (z : Option Value) : Prop :=
  ∃ pick, Decoding.pick value ds = some pick ∧ Encoding.pick value es = some pick ∧
    ∀ i, pick = some i → ∃ d e a, ds[i]? = some d ∧ es[i]? = some e ∧
      d.decode value = some (.ok a) ∧ x = some (.ok a) ∧ z = e.encode value

namespace Picks

variable {value : Value} {d : Decoding Option} {e : Encoding Option}
  {ds : List (Decoding Option)} {es : List (Encoding Option)}

/-- The first member is picked where it takes the value. -/
theorem here {a : Value} (hd : d.decode value = some (.ok a)) (he : e.accepts value = some true) :
    Picks value (d :: ds) (e :: es) (some (.ok a)) (e.encode value) := by
  refine ⟨some 0, by simp [Decoding.pick, hd], by simp [Encoding.pick, he], ?_⟩
  intro i hi
  obtain rfl := Option.some.inj hi
  exact ⟨d, e, a, rfl, rfl, hd, rfl, rfl⟩

/-- A later member is picked where the first one refuses the value. -/
theorem there {error : DecodeError} {x y : Option (Outcome Value)} {z : Option Value}
    (hd : d.decode value = some (.error error)) (he : e.accepts value = some false)
    (hx : ∀ a, x = some (.ok a) → y = some (.ok a)) (h : Picks value ds es x z) :
    Picks value (d :: ds) (e :: es) y z := by
  obtain ⟨pick, hdecode, haccept, hpick⟩ := h
  refine ⟨pick.map (· + 1), by simp [Decoding.pick, hd, hdecode],
    by simp [Encoding.pick, he, haccept], ?_⟩
  intro i hi
  obtain ⟨j, rfl, rfl⟩ := Option.map_eq_some_iff.1 hi
  obtain ⟨d', e', a, hd', he', ha, hxa, hz⟩ := hpick j rfl
  exact ⟨d', e', a, hd', he', ha, hx a hxa, hz⟩

/-- The members of a union that has answers. -/
theorem of_firstOf (h : List.Forall₂ Agree ds es) :
    ∀ {d : Decoding Option} {e : Encoding Option} {index : Nat} {o : Outcome Value} {b : Bool},
      Agree d e → Decoding.firstOf value index d ds = some o →
      Encoding.acceptsAny value (e :: es) = some b →
      Picks value (d :: ds) (e :: es) (Decoding.firstOf value index d ds)
        (Encoding.encodeFirst value (e :: es)) := by
  induction h with
  | nil =>
      intro d e index o b hde ho hb
      obtain ⟨o', hx, _⟩ := Option.bind_eq_some_iff.1 ho
      obtain ⟨b', hy, _⟩ := Option.bind_eq_some_iff.1 hb
      obtain rfl := (hde value).isOk hx hy
      cases o' with
      | ok a =>
          have hfirst : Decoding.firstOf value index d [] = some (.ok a) := by
            simp [Decoding.firstOf, hx, Outcome.under]
          have hencode : Encoding.encodeFirst value [e] = e.encode value := by
            rw [Encoding.encodeFirst, hy]
            rfl
          rw [hfirst, hencode]
          exact here hx hy
      | error _ =>
          exact there hx hy (fun _ h => h) ⟨none, rfl, rfl, fun i hi => nomatch hi⟩
  | @cons d' e' ds es hnext _ ih =>
      intro d e index o b hde ho hb
      obtain ⟨o', hx, hrest⟩ := Option.bind_eq_some_iff.1 ho
      obtain ⟨b', hy, hb⟩ := Option.bind_eq_some_iff.1 hb
      obtain rfl := (hde value).isOk hx hy
      cases o' with
      | ok a =>
          have hencode : Encoding.encodeFirst value (e :: e' :: es) = e.encode value := by
            rw [Encoding.encodeFirst, hy]
            rfl
          obtain rfl := Option.some.inj hrest
          rw [ho, hencode]
          exact here hx hy
      | error error =>
          obtain ⟨p, hp, hrest⟩ := Option.bind_eq_some_iff.1 hrest
          have hencode : Encoding.encodeFirst value (e :: e' :: es) =
              Encoding.encodeFirst value (e' :: es) := by
            rw [Encoding.encodeFirst, hy]
            rfl
          rw [hencode]
          refine there hx hy (fun a ha => ?_) (ih hnext hp hb)
          obtain rfl := Option.some.inj (hp.symm.trans ha)
          rw [ho, ← Option.some.inj hrest]

end Picks

section Sum

variable {m : Type → Type} [Monad m] {tag : String} {value : Value}

theorem Decoding.decode_sum {ds : Entries (Decoding m)} {d : Decoding m}
    (h : memberOf? tag ds value = some d) : (sum tag ds).decode value = d.decode value := by
  cases value with
  | object members =>
      cases hget : Value.get? tag members with
      | none => simp [memberOf?, Value.member?, hget] at h
      | some _ => simp only [sum, hget, h]
  | _ => cases h

theorem Encoding.encode_sum {es : Entries (Encoding m)} {e : Encoding m}
    (h : Decoding.memberOf? tag es value = some e) :
    (sum tag es).encode value = e.encode value := by
  simp only [sum, h]

theorem Encoding.accepts_sum {es : Entries (Encoding m)} {e : Encoding m}
    (h : Decoding.memberOf? tag es value = some e) :
    (sum tag es).accepts value = e.accepts value := by
  simp only [sum, h]

end Sum

/-! ## Documents -/

section Fold

variable {A : Type} [Vocabulary A] (f : String → A)

theorem foldComponents_eq_map : ∀ components : List Definition,
    foldComponents f components = components.map (Definition.fold f)
  | [] => by rw [foldComponents, List.map_nil]
  | definition :: rest => by
      rw [foldComponents, foldComponents_eq_map rest, List.map_cons]

theorem forall₂_foldMembers : ∀ members : List (String × ObjectDefinition),
    List.Forall₂ (Keyed fun definition a => definition.fold f = a) members (foldMembers f members)
  | [] => by
      rw [foldMembers]
      exact .nil
  | (key, definition) :: rest => by
      rw [foldMembers]
      exact .cons ⟨rfl, rfl⟩ (forall₂_foldMembers rest)

/-- The member of a sum that a value names is found before reading as well as after. -/
theorem memberOf?_foldMembers (tag : String) (members : List (String × ObjectDefinition))
    (value : Value) :
    Decoding.memberOf? tag (.ofList (foldMembers f members)) value =
      (Decoding.memberOf? tag (.ofList members) value).map (ObjectDefinition.fold f) := by
  have h := Decoding.memberOf?_rel tag value
    (Entries.forall₂_ofList (forall₂_foldMembers f members))
  generalize Decoding.memberOf? tag (.ofList members) value = x at h
  generalize Decoding.memberOf? tag (.ofList (foldMembers f members)) value = y at h
  cases h with
  | none => rfl
  | some h => rw [Option.map_some, h]

end Fold

namespace Document

variable {document : Document}

/-- **The two meanings of a name agree.** -/
theorem decoding_agrees (document : Document) : ∀ (depth : Nat) (name : String),
    Agree (document.decoding depth name) (document.encoding depth name)
  | 0, _ => fun _ => .diverges
  | depth + 1, name => by
      intro value
      cases hfind : document.find? name with
      | none =>
          have hdecode : (document.decoding (depth + 1) name).decode value = none := by
            simp [decoding, hfind]
          rw [hdecode]
          exact .diverges
      | some definition =>
          have hfold : Agree (definition.fold (document.decoding depth))
              (definition.fold (document.encoding depth)) :=
            definition.fold_rel Agree.congruence fun next _ => decoding_agrees document depth next
          have := (hfold value).under (.lazy name)
          rw [encoding_succ hfind]
          simpa [decoding, hfind] using this

/-- Both readings of a definition agree. -/
theorem fold_agrees (depth : Nat) (definition : Definition) :
    Agree (definition.fold (document.decoding depth))
      (definition.fold (document.encoding depth)) :=
  definition.fold_rel Agree.congruence fun name _ => document.decoding_agrees depth name

theorem callDepth_le_of_depth_le (document : Document) {value inner : Value}
    (h : inner.depth ≤ value.depth) : document.callDepth inner ≤ document.callDepth value :=
  Nat.mul_le_mul_right _ (Nat.add_le_add_right h 2)

/-- Both readings of a definition come to an end on a value at every depth that is
enough for it. -/
theorem fold_ends (hguarded : document.Guarded) {definition : Definition}
    (hnames : ∀ name ∈ definition.references, name ∈ document.definitions.keys) {value : Value}
    {depth : Nat} (hdepth : document.callDepth value ≤ depth) :
    (∃ o, (definition.fold (document.decoding depth)).decode value = some o) ∧
      (∃ b, (definition.fold (document.encoding depth)).accepts value = some b) := by
  have henough : ∀ name (inner : Value), inner.depth ≤ value.depth →
      document.cost name inner ≤ depth := by
    intro name inner hinner
    have := document.cost_le_callDepth name inner
    have := document.callDepth_le_of_depth_le hinner
    omega
  constructor
  · have hends : Decoding.RelOn bothEnd (fun inner => inner.depth ≤ value.depth)
        (definition.fold (document.decoding depth)) (definition.fold (document.decoding depth)) :=
      definition.fold_rel (Decoding.congruence_on bothEnd fun _ _ hv hw => by omega)
        fun name hname inner hinner => decoding_ends hguarded depth depth name inner
          (hnames name hname) (henough name inner hinner) (henough name inner hinner)
    obtain ⟨o, ho, _⟩ := hends value (Nat.le_refl _)
    exact ⟨o, ho⟩
  · have hends : Encoding.RelOn bothEnd (fun inner => inner.depth ≤ value.depth)
        (definition.fold (document.encoding depth)) (definition.fold (document.encoding depth)) :=
      definition.fold_rel (Encoding.congruence_on bothEnd fun _ _ hv hw => by omega)
        fun name hname inner hinner => encoding_ends hguarded depth depth name inner
          (hnames name hname) (henough name inner hinner) (henough name inner hinner)
    obtain ⟨_, b, hb, _⟩ := hends value (Nat.le_refl _)
    exact ⟨b, hb⟩

/-- The members of a union over the names of a document pick one place. -/
theorem union_picks (hguarded : document.Guarded) {members : NonEmpty Definition}
    (hnames : ∀ name ∈ (Definition.union members).references, name ∈ document.definitions.keys)
    {value : Value} {depth : Nat} (hdepth : document.callDepth value ≤ depth) :
    Picks value (members.toList.map (Definition.fold (document.decoding depth)))
      (members.toList.map (Definition.fold (document.encoding depth)))
      (((Definition.union members).fold (document.decoding depth)).decode value)
      (((Definition.union members).fold (document.encoding depth)).encode value) := by
  obtain ⟨head, tail⟩ := members
  obtain ⟨⟨o, ho⟩, b, hb⟩ := fold_ends hguarded hnames hdepth
  have htail : List.Forall₂ Agree (tail.map (Definition.fold (document.decoding depth)))
      (tail.map (Definition.fold (document.encoding depth))) := by
    rw [List.forall₂_map_left_iff, List.forall₂_map_right_iff]
    exact List.forall₂_same.2 fun definition _ => fold_agrees depth definition
  rw [Definition.fold, foldComponents_eq_map] at ho hb ⊢
  rw [Definition.fold, foldComponents_eq_map]
  exact Picks.of_firstOf htail (fold_agrees depth head) ho hb

/-- A sum over the names of a document picks the same member in both directions, and
decodes and encodes by it. -/
theorem sum_picks (depth : Nat) (tag : String) (members : List (String × ObjectDefinition))
    (value : Value) :
    ∃ pick : Option ObjectDefinition,
      Decoding.memberOf? tag (.ofList (foldMembers (document.decoding depth) members)) value =
        pick.map (ObjectDefinition.fold (document.decoding depth)) ∧
      Decoding.memberOf? tag (.ofList (foldMembers (document.encoding depth) members)) value =
        pick.map (ObjectDefinition.fold (document.encoding depth)) ∧
      ∀ member, pick = some member →
        ((Definition.sum tag members).fold (document.decoding depth)).decode value =
          (member.fold (document.decoding depth)).decode value ∧
        ((Definition.sum tag members).fold (document.encoding depth)).encode value =
          (member.fold (document.encoding depth)).encode value := by
  refine ⟨Decoding.memberOf? tag (.ofList members) value, memberOf?_foldMembers _ tag members value,
    memberOf?_foldMembers _ tag members value, fun member hmember => ?_⟩
  have hdecode := memberOf?_foldMembers (document.decoding depth) tag members value
  have hencode := memberOf?_foldMembers (document.encoding depth) tag members value
  rw [hmember, Option.map_some] at hdecode hencode
  rw [Definition.fold, Definition.fold]
  constructor
  · exact Decoding.decode_sum hdecode
  · exact Encoding.encode_sum hencode

/-- **The two engines agree.**  Decoding a value by a guarded document gives a value
exactly when the encoder accepts it and encodes it to that value.  Over the names of the
document, a union picks the same member in both directions, and so does a sum. -/
theorem engines_agree (hguarded : document.Guarded) (value : Value) :
    (∃ outcome encoded accepted,
      document.decode value = .ok outcome ∧ document.encode value = .ok encoded ∧
      document.accepts value = .ok accepted ∧
      (∀ a, outcome = .ok a ↔ accepted = true ∧ encoded = a) ∧
      (accepted = true ↔ ∃ a, outcome = .ok a)) ∧
    ∀ depth, document.callDepth value ≤ depth →
      (∀ members : NonEmpty Definition,
        (∀ name ∈ (Definition.union members).references, name ∈ document.definitions.keys) →
        Picks value (members.toList.map (Definition.fold (document.decoding depth)))
          (members.toList.map (Definition.fold (document.encoding depth)))
          (((Definition.union members).fold (document.decoding depth)).decode value)
          (((Definition.union members).fold (document.encoding depth)).encode value)) ∧
      ∀ (tag : String) (members : List (String × ObjectDefinition)),
        ∃ pick : Option ObjectDefinition,
          Decoding.memberOf? tag (.ofList (foldMembers (document.decoding depth) members)) value =
            pick.map (ObjectDefinition.fold (document.decoding depth)) ∧
          Decoding.memberOf? tag (.ofList (foldMembers (document.encoding depth) members)) value =
            pick.map (ObjectDefinition.fold (document.encoding depth)) ∧
          ∀ member, pick = some member →
            ((Definition.sum tag members).fold (document.decoding depth)).decode value =
              (member.fold (document.decoding depth)).decode value ∧
            ((Definition.sum tag members).fold (document.encoding depth)).encode value =
              (member.fold (document.encoding depth)).encode value := by
  constructor
  · obtain ⟨outcome, houtcome⟩ := exists_outcome hguarded value
    obtain ⟨encoded, accepted, hencoded⟩ := exists_encoded hguarded value
    have hdecode := houtcome _ (Nat.le_refl _)
    obtain ⟨hencode, haccept⟩ := hencoded _ (Nat.le_refl _)
    have hagrees := document.decoding_agrees (document.callDepth value) document.root value
    rw [hdecode, hencode, haccept] at hagrees
    have hok : accepted = outcome.isOk := hagrees.isOk rfl rfl
    have haccepted : accepted = true ↔ ∃ a, outcome = .ok a := by
      rw [hok]
      cases outcome with
      | ok a => exact ⟨fun _ => ⟨a, rfl⟩, fun _ => rfl⟩
      | error _ =>
          constructor
          · intro h
            cases h
          · rintro ⟨_, h⟩
            cases h
    refine ⟨outcome, encoded, accepted, decode_eq hdecode, encode_eq hencode, accepts_eq haccept,
      fun a => ⟨fun h => ?_, fun h => ?_⟩, haccepted⟩
    · subst h
      exact ⟨haccepted.2 ⟨a, rfl⟩, hagrees.value rfl rfl⟩
    · obtain ⟨a', rfl⟩ := haccepted.1 h.1
      rw [← h.2, hagrees.value rfl rfl]
  · intro depth hdepth
    exact ⟨fun _ hnames => union_picks hguarded hnames hdepth,
      fun tag members => sum_picks depth tag members value⟩

/-- A list of two nodes is accepted and encoded to the list that it decodes to. -/
theorem linkedList_engines_agree :
    linkedList.decode namedList = .ok (.ok plainList) ∧ linkedList.accepts namedList = .ok true ∧
      linkedList.encode namedList = .ok plainList := by
  have hdecode : linkedList.decode namedList = .ok (.ok plainList) := by
    refine decode_eq ?_
    rfl
  obtain ⟨⟨outcome, encoded, accepted, houtcome, hencoded, haccepted, hagree, _⟩, _⟩ :=
    engines_agree linkedList_guarded namedList
  obtain rfl := Except.ok.inj (hdecode.symm.trans houtcome)
  obtain ⟨rfl, rfl⟩ := (hagree plainList).1 rfl
  exact ⟨hdecode, haccepted, hencoded⟩

end Document

end Schemata
