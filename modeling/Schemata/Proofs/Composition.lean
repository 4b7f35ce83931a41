import Schemata.Proofs.Idempotence
import Schemata.Proofs.Lazy.Leaves
import Schemata.Proofs.Lazy.Simulation

/-!
# Round trips of composites

A coding is a decoder with an encoder, whatever functions they are.  It round-trips when
what it decoded, once encoded, decodes to the same (`Coding.RoundTrips`), and its guard
covers it when the guard holds of all that it decodes (`Coding.Covers`).  Changes map
values, so what is encoded need not look like what was decoded, and idempotence says
nothing here.  A composite round-trips because what its encoder gives has the keys and the
places that its decoder goes through, and under them what the encoders of its parts gave.

**Input.**  Codings that round-trip, under distinct keys where they have keys.

**Results.**

* `Codec.respects_coding` and `Codec.coding_custom`: a codec that was built is read as a
  coding, combinator by combinator.
* `Codec.runs_coding`: a codec without lazy schemas runs as the coding that it is read as.
* `Coding.object_roundTrips` and its companions: composites round-trip when their parts do.
* `Coding.imap_covers_iff`: when the guard covers mapped values.
* `Coding.round_trip_composes`: all of them.
-/

namespace Schemata

open Json (Value Members)

/-- A decoder and an encoder. -/
structure Coding (m : Type → Type) where
  decoder : Decoding m
  encoder : Encoding m

namespace Coding

section Vocabulary

variable {m : Type → Type} [Monad m]

/-- Each direction is composed on its own. -/
instance : Vocabulary (Coding m) where
  literal value := ⟨Vocabulary.literal value, Vocabulary.literal value⟩
  literals values := ⟨Vocabulary.literals values, Vocabulary.literals values⟩
  literalsOr values fallback :=
    ⟨Vocabulary.literalsOr values fallback.decoder, Vocabulary.literalsOr values fallback.encoder⟩
  primitive kind := ⟨Vocabulary.primitive kind, Vocabulary.primitive kind⟩
  object kind parts :=
    ⟨Vocabulary.object kind (parts.mapValues decoder),
      Vocabulary.object kind (parts.mapValues encoder)⟩
  record part := ⟨Vocabulary.record part.decoder, Vocabulary.record part.encoder⟩
  array part := ⟨Vocabulary.array part.decoder, Vocabulary.array part.encoder⟩
  tuple parts := ⟨Vocabulary.tuple (parts.map decoder), Vocabulary.tuple (parts.map encoder)⟩
  intersection left right :=
    ⟨Vocabulary.intersection left.decoder right.decoder,
      Vocabulary.intersection left.encoder right.encoder⟩
  sum tag parts :=
    ⟨Vocabulary.sum tag (parts.mapValues decoder), Vocabulary.sum tag (parts.mapValues encoder)⟩
  union parts := ⟨Vocabulary.union (parts.map decoder), Vocabulary.union (parts.map encoder)⟩
  readonly part := ⟨Vocabulary.readonly part.decoder, Vocabulary.readonly part.encoder⟩
  custom change part :=
    ⟨Vocabulary.custom change part.decoder, Vocabulary.custom change part.encoder⟩
  pair first second := ⟨first.decoder, second.encoder⟩

end Vocabulary

/-- What was decoded, once encoded, decodes to the same. -/
def RoundTrips (c : Coding Id) : Prop :=
  ∀ ⦃input a : Value⦄, c.decoder.decode input = .ok a →
    c.decoder.decode (c.encoder.encode a) = .ok a

/-- The guard holds of all that is decoded. -/
def Covers (c : Coding Id) : Prop :=
  ∀ ⦃input a : Value⦄, c.decoder.decode input = .ok a → c.encoder.accepts a = true

end Coding

/-! ## Codecs as codings -/

namespace Codec

section Reading

variable {m : Type → Type} [Monad m] (owned referred : CellId → Coding m)

/-- The reading of a codec as a coding, given the meaning of its cells. -/
def coding (c : Codec) : Coding m where
  decoder := c.decoder.fold (fun k => (owned k).decoder) fun k => (referred k).decoder
  encoder := c.encoder.fold (fun k => (owned k).encoder) fun k => (referred k).encoder

theorem respects_coding : Respects (coding owned referred) where
  literal value := by simp only [coding, Vocabulary.literal, Blueprint.fold]
  literals values := by simp only [coding, Vocabulary.literals, Blueprint.fold]
  literalsOr values c := by simp only [coding, Vocabulary.literalsOr, Blueprint.fold]
  primitive kind := by simp only [coding, Vocabulary.primitive, Blueprint.fold]
  object kind parts := by
    simp only [coding, Vocabulary.object, Blueprint.fold, Blueprint.foldFields_eq, decoders,
      encoders, Entries.mapValues, List.map_map]
    rfl
  record c := by simp only [coding, Vocabulary.record, Blueprint.fold]
  array c := by simp only [coding, Vocabulary.array, Blueprint.fold]
  tuple parts := by
    simp only [coding, Vocabulary.tuple, Blueprint.fold, Blueprint.foldAll_eq, List.map_map]
    rfl
  intersection c d := by simp only [coding, Vocabulary.intersection, Blueprint.fold]
  sum tag parts := by
    simp only [coding, Vocabulary.sum, Blueprint.fold, Blueprint.foldFields_eq, decoders,
      encoders, Entries.mapValues, List.map_map]
    rfl
  union c cs := by
    simp only [coding, Vocabulary.union, NonEmpty.map, Blueprint.fold, Blueprint.foldAll_eq,
      List.map_map]
    rfl
  readonly c := by simp only [coding, Vocabulary.readonly, Blueprint.fold]

theorem coding_custom (change : Custom) (c : Codec) :
    (Vocabulary.custom change c : Codec).coding owned referred =
      Vocabulary.custom change (c.coding owned referred) := by
  simp only [coding, Vocabulary.custom, Blueprint.fold]

end Reading

section Running

variable {A : Type}

/-- Calls that give the same answer on every store and leave it as it is. -/
def still (A : Type) : Correspondence (Lazy.Run A) Id where
  rel x a := ∀ s, Lazy.Runs x s a.run s
  pure a s := .pure a s
  bind hx hf s := (hx s).bind (hf _ s)

theorem still_holding {α : Type} {a : A} {x : Lazy.Run A α} {b : Id α}
    (h : (still A).rel x b) : (still A).rel (Lazy.holding a x) b := fun s =>
  (Lazy.Runs.update _ s).bind ((h _).bind ((Lazy.Runs.update _ _).bind (.pure _ _)))

end Running

/-- **Codecs run as codings.**  A codec without lazy schemas does on every store what the
coding that it is read as does, and leaves the store as it is. -/
theorem runs_coding {c : Codec} (hleaves : Artifact.leaves c = [])
    (owned referred : CellId → Coding Id) (definitions : Entries Definition) (depth : Nat)
    (value : Value) (s : Lazy.Store Codec) :
    Lazy.Runs (Lazy.decode definitions depth c value) s
        ((c.coding owned referred).decoder.decode value) s ∧
      Lazy.Runs (Lazy.encode definitions depth c value) s
        ((c.coding owned referred).encoder.encode value) s ∧
      Lazy.Runs (Lazy.accepts definitions depth c value) s
        ((c.coding owned referred).encoder.accepts value) s := by
  have hleaves : c.decoder.leaves = [] ∧ c.encoder.leaves = [] := List.append_eq_nil_iff.1 hleaves
  have hdecoder : (still Codec).rel
      ((c.decoder.fold (Lazy.cellDecoding definitions depth)
        fun id => Lazy.handleDecoding id (Lazy.cellDecoding definitions depth id)).decode value)
      ((c.coding owned referred).decoder.decode value) :=
    Blueprint.fold_rel (Decoding.compatible (still Codec)) c.decoder
      (by rw [hleaves.1]; exact fun _ h => nomatch h) value trivial
  have hencoder : Encoding.RelAt (still Codec) value (Lazy.encoding definitions depth c)
      (c.coding owned referred).encoder :=
    Blueprint.fold_rel (Encoding.compatible (still Codec)) c.encoder
      (by rw [hleaves.2]; exact fun _ h => nomatch h) value trivial
  exact ⟨still_holding hdecoder s, still_holding hencoder.1 s, still_holding hencoder.2 s⟩

end Codec

/-! ## What encoders give -/

namespace Encoding

theorem andAlso_eq (x y : Bool) : andAlso (m := Id) x y = (x && y) := by
  cases x <;> rfl

section Fields

variable {members : Members} {key : String} {part : Encoding Id} {parts : Entries (Encoding Id)}

theorem encodeFields_of_some {value : Value} (h : Value.get? key members = some value) :
    encodeFields members ((key, part) :: parts) =
      ((key, part.encode value) :: encodeFields (m := Id) members parts : Members) := by
  rw [encodeFields, h]
  rfl

theorem encodeFields_of_none (h : Value.get? key members = none) :
    encodeFields members ((key, part) :: parts) = encodeFields members parts := by
  rw [encodeFields, h]

/-- What encoded fields give is under their keys, in the same order. -/
theorem keys_sublist_of_encodeFields (members : Members) : ∀ parts : Entries (Encoding Id),
    (Entries.keys (encodeFields (m := Id) members parts)).Sublist parts.keys
  | [] => List.Sublist.slnil
  | (key, part) :: parts => by
      have hrest := keys_sublist_of_encodeFields members parts
      cases hget : Value.get? key members with
      | some value =>
          rw [encodeFields_of_some hget]
          exact hrest.cons_cons key
      | none =>
          rw [encodeFields_of_none hget]
          exact hrest.cons key

/-- Encoded fields look at their keys only. -/
theorem encodeFields_congr {members' : Members} : ∀ {parts : Entries (Encoding Id)},
    (∀ key ∈ parts.keys, Value.get? key members = Value.get? key members') →
    encodeFields members parts = encodeFields members' parts
  | [], _ => rfl
  | (key, part) :: parts, h => by
      have hkey := h key List.mem_cons_self
      have hrest : encodeFields members parts = encodeFields members' parts :=
        encodeFields_congr fun key hkey => h key (List.mem_cons_of_mem _ hkey)
      cases hget : Value.get? key members with
      | some value =>
          rw [encodeFields_of_some hget, encodeFields_of_some (hkey.symm.trans hget), hrest]
      | none =>
          rw [encodeFields_of_none hget, encodeFields_of_none (hkey.symm.trans hget), hrest]

end Fields

end Encoding

/-! ## Composites -/

namespace Coding

open Decoding Encoding

variable {c : Coding Id} {kind : FieldKind}

theorem primitive_roundTrips (kind : Primitive) :
    (Vocabulary.primitive kind : Coding Id).RoundTrips := by
  intro input a h
  obtain rfl := test_eq_ok h
  exact h

/-- A decoded field decodes again where its encoded value stands. -/
theorem field_again (hc : c.RoundTrips) {key : String} {value a : Value}
    (ha : c.decoder.decode value = .ok a) :
    field kind key c.decoder (some (c.encoder.encode a)) = (.ok [(key, a)] : Outcome Members) := by
  show ((c.decoder.decode (c.encoder.encode a)).under (.key key kind)).map _ = _
  rw [hc ha]
  rfl

/-- Decoded fields, once encoded, decode to the same.  The induction is on the declared
fields; the first one does not look at the keys of the others, nor they at its own. -/
theorem fields_roundTrip {members : Members} : ∀ {parts : Entries (Coding Id)} {out : Members},
    parts.keys.Nodup → (∀ entry ∈ parts, entry.2.RoundTrips) →
    fields kind members (parts.mapValues decoder) = .ok out →
    fields kind (encodeFields (m := Id) out (parts.mapValues encoder)) (parts.mapValues decoder) =
      .ok out
  | [], _, _, _, h => h
  | (key, c) :: parts, _, hnodup, hparts, h => by
      have hnodup : key ∉ Entries.keys parts ∧ (Entries.keys parts).Nodup :=
        List.nodup_cons.1 hnodup
      have hkey {A : Type} (f : Coding Id → A) : key ∉ (Entries.mapValues f parts).keys := by
        rw [Entries.keys_mapValues]
        exact hnodup.1
      have hcons {A : Type} (f : Coding Id → A) :
          Entries.mapValues f ((key, c) :: parts) = (key, f c) :: Entries.mapValues f parts := rfl
      rw [hcons, fields_cons] at h
      obtain ⟨first, others, hfirst, hothers, rfl⟩ := Outcome.both_eq_ok h
      have hrest := fields_roundTrip hnodup.2
        (fun entry hentry => hparts entry (List.mem_cons_of_mem _ hentry)) hothers
      rcases field_eq_ok hfirst with ⟨value, a, -, ha, rfl⟩ | ⟨-, rfl, rfl⟩
      · have hencode :
            encodeFields (m := Id) ((key, a) :: others) (Entries.mapValues encoder parts) =
            encodeFields (m := Id) others (Entries.mapValues encoder parts) :=
          encodeFields_congr fun other hother => get?_cons_of_ne
            (ne_of_mem_of_not_mem hother (hkey encoder)) _ _
        have hskip (encoded : Value) (rest : Members) :
            fields (m := Id) kind ((key, encoded) :: rest) (Entries.mapValues decoder parts) =
              fields (m := Id) kind rest (Entries.mapValues decoder parts) :=
          fields_congr fun other hother => get?_cons_of_ne
            (ne_of_mem_of_not_mem hother (hkey decoder)) _ _
        rw [List.singleton_append, hcons, hcons, encodeFields_of_some (get?_cons_self _ _ _),
          hencode, fields_cons, get?_cons_self, hskip, hrest,
          field_again (hparts (key, c) List.mem_cons_self) ha]
        rfl
      · have habsent {xs : Members} {A : Type} {f : Coding Id → A}
            (hsub : (Entries.keys xs).Sublist (Entries.mapValues f parts).keys) :
            Value.get? key xs = none :=
          Entries.lookup_eq_none fun hmem => hkey f (hsub.subset hmem)
        rw [List.nil_append, hcons, hcons,
          encodeFields_of_none (habsent (keys_sublist_of_fields hothers)), fields_cons,
          habsent (keys_sublist_of_encodeFields others _), hrest]
        rfl

theorem object_roundTrips (kind : FieldKind) {parts : Entries (Coding Id)}
    (hnodup : parts.keys.Nodup) (hparts : ∀ entry ∈ parts, entry.2.RoundTrips) :
    (Vocabulary.object kind parts : Coding Id).RoundTrips := by
  intro input a h
  obtain ⟨members, out, rfl, hout, rfl⟩ := object_eq_ok h
  have hagain := fields_roundTrip hnodup hparts hout
  show (fields (m := Id) kind (encodeFields (m := Id) out (parts.mapValues encoder))
    (parts.mapValues decoder)).map Value.object = .ok (.object out)
  rw [hagain]
  rfl

theorem entries_roundTrip (hc : c.RoundTrips) : ∀ {members out : Members},
    entries c.decoder members = .ok out →
    entries c.decoder (encodeEntries (m := Id) c.encoder out) = .ok out
  | [], _, h => by
      obtain rfl := Except.ok.inj h
      rfl
  | (key, value) :: rest, _, h => by
      rw [entries_cons] at h
      obtain ⟨_, others, hfirst, hothers, rfl⟩ := Outcome.both_eq_ok h
      obtain ⟨a, hunder, rfl⟩ := Outcome.map_eq_ok hfirst
      have hencode : encodeEntries (m := Id) c.encoder ((key, a) :: others) =
          (key, c.encoder.encode a) :: encodeEntries (m := Id) c.encoder others := rfl
      rw [hencode, entries_cons, hc (Outcome.under_eq_ok hunder), entries_roundTrip hc hothers]
      rfl

theorem record_roundTrips (hc : c.RoundTrips) : (Vocabulary.record c : Coding Id).RoundTrips := by
  intro input a h
  obtain ⟨members, out, rfl, hout, rfl⟩ := record_eq_ok h
  have hagain := entries_roundTrip hc hout
  show (entries (m := Id) c.decoder (encodeEntries (m := Id) c.encoder out)).map Value.object =
    .ok (.object out)
  rw [hagain]
  rfl

theorem items_roundTrip (hc : c.RoundTrips) : ∀ {values out : List Value} {index : Nat},
    items c.decoder index values = .ok out →
    items c.decoder index (encodeAll (m := Id) c.encoder out) = .ok out
  | [], _, _, h => by
      obtain rfl := Except.ok.inj h
      rfl
  | value :: rest, _, index, h => by
      rw [items_cons] at h
      obtain ⟨a, others, hfirst, hothers, rfl⟩ := Outcome.both_eq_ok h
      have hencode : encodeAll (m := Id) c.encoder (a :: others) =
          c.encoder.encode a :: encodeAll (m := Id) c.encoder others := rfl
      rw [hencode, items_cons, hc (Outcome.under_eq_ok hfirst), items_roundTrip hc hothers]
      rfl

theorem array_roundTrips (hc : c.RoundTrips) : (Vocabulary.array c : Coding Id).RoundTrips := by
  intro input a h
  obtain ⟨values, out, rfl, hout, rfl⟩ := array_eq_ok h
  have hagain := items_roundTrip hc hout
  show (items (m := Id) c.decoder 0 (encodeAll (m := Id) c.encoder out)).map Value.array =
    .ok (.array out)
  rw [hagain]
  rfl

/-- Decoded places are as many as there are parts, so all of them are encoded. -/
theorem places_roundTrip : ∀ {parts : List (Coding Id)} {values out : List Value} {index : Nat},
    (∀ part ∈ parts, part.RoundTrips) →
    places index (parts.map decoder) values = .ok out →
    places index (parts.map decoder) (encodePlaces (m := Id) (parts.map encoder) out) = .ok out
  | [], _, _, _, _, h => by
      obtain rfl := Except.ok.inj h
      rfl
  | c :: parts, [], _, index, _, h => by
      rw [List.map_cons, places_cons_nil] at h
      obtain ⟨_, _, hfirst, _⟩ := Outcome.both_eq_ok h
      cases hfirst
  | c :: parts, value :: values, _, index, hparts, h => by
      rw [List.map_cons, places_cons] at h
      obtain ⟨a, others, hfirst, hothers, rfl⟩ := Outcome.both_eq_ok h
      have ha := hparts c List.mem_cons_self (Outcome.under_eq_ok hfirst)
      have hrest := places_roundTrip
        (fun part hpart => hparts part (List.mem_cons_of_mem _ hpart)) hothers
      have hencode : encodePlaces (m := Id) ((c :: parts).map encoder) (a :: others) =
          c.encoder.encode a :: encodePlaces (m := Id) (parts.map encoder) others := rfl
      rw [hencode, List.map_cons, places_cons, ha, hrest]
      rfl

theorem tuple_roundTrips {parts : List (Coding Id)} (hparts : ∀ part ∈ parts, part.RoundTrips) :
    (Vocabulary.tuple parts : Coding Id).RoundTrips := by
  intro input a h
  obtain ⟨values, out, rfl, hout, rfl⟩ := tuple_eq_ok h
  have hagain := places_roundTrip hparts hout
  show (places (m := Id) 0 (parts.map decoder)
    (encodePlaces (m := Id) (parts.map encoder) out)).map Value.array = .ok (.array out)
  rw [hagain]
  rfl

/-! ## Changes -/

variable {holds : Value → Bool} {forth back : Value → Value} {expected : String}

/-- What is decoded with a predicate is decoded without it, and is in it. -/
theorem refine_eq_ok {input a : Value} :
    (Vocabulary.custom (.refine holds expected) c : Coding Id).decoder.decode input = .ok a ↔
      c.decoder.decode input = .ok a ∧ holds a = true := by
  show customOutcome input (.refine holds expected) (c.decoder.decode input) = .ok a ↔ _
  cases c.decoder.decode input with
  | error _ =>
      constructor
      · intro h
        cases h
      · rintro ⟨h, _⟩
        cases h
  | ok b =>
      show (if holds b then .ok b else .error _ : Outcome Value) = .ok a ↔ _
      constructor
      · intro h
        split at h
        · obtain rfl := Except.ok.inj h
          exact ⟨rfl, ‹_›⟩
        · cases h
      · rintro ⟨hb, ha⟩
        obtain rfl := Except.ok.inj hb
        rw [if_pos ha]

/-- What is decoded with a map is the image of what is decoded without it. -/
theorem imap_eq_ok {input b : Value} :
    (Vocabulary.custom (.imap forth back) c : Coding Id).decoder.decode input = .ok b ↔
      ∃ a, c.decoder.decode input = .ok a ∧ forth a = b := by
  show (c.decoder.decode input : Outcome Value).map forth = .ok b ↔ _
  constructor
  · exact Outcome.map_eq_ok
  · rintro ⟨a, ha, rfl⟩
    rw [ha]
    rfl

/-- A change that only rewords failures decodes what is decoded without it. -/
theorem reworded_eq_ok {change : Custom} {input a : Value}
    (hchange : (∃ expected, change = .relabel expected) ∨ ∃ message, change = .annotate message) :
    (Vocabulary.custom change c : Coding Id).decoder.decode input = .ok a ↔
      c.decoder.decode input = .ok a := by
  show customOutcome input change (c.decoder.decode input) = .ok a ↔ _
  cases c.decoder.decode input with
  | ok b => rcases hchange with ⟨_, rfl⟩ | ⟨_, rfl⟩ <;> exact Iff.rfl
  | error _ => rcases hchange with ⟨_, rfl⟩ | ⟨_, rfl⟩ <;> exact ⟨nofun, nofun⟩

theorem refine_roundTrips (hc : c.RoundTrips) (holds : Value → Bool) (expected : String) :
    (Vocabulary.custom (.refine holds expected) c : Coding Id).RoundTrips := by
  intro input a h
  obtain ⟨hdecode, ha⟩ := refine_eq_ok.1 h
  exact refine_eq_ok.2 ⟨hc hdecode, ha⟩

theorem reworded_roundTrips (hc : c.RoundTrips) {change : Custom}
    (hchange : (∃ expected, change = .relabel expected) ∨ ∃ message, change = .annotate message) :
    (Vocabulary.custom change c : Coding Id).RoundTrips := by
  intro input a h
  have hencode :
      (Vocabulary.custom change c : Coding Id).encoder.encode a = c.encoder.encode a := by
    rcases hchange with ⟨_, rfl⟩ | ⟨_, rfl⟩ <;> rfl
  rw [hencode]
  exact (reworded_eq_ok hchange).2 (hc ((reworded_eq_ok hchange).1 h))

theorem imap_roundTrips (hc : c.RoundTrips)
    (hback : ∀ input a, c.decoder.decode input = .ok a → back (forth a) = a) :
    (Vocabulary.custom (.imap forth back) c : Coding Id).RoundTrips := by
  intro input b h
  obtain ⟨a, ha, rfl⟩ := imap_eq_ok.1 h
  have hagain : c.decoder.decode (c.encoder.encode (back (forth a))) = .ok a := by
    rw [hback input a ha]
    exact hc ha
  exact imap_eq_ok.2 ⟨a, hagain, rfl⟩

theorem accepts_custom (change : Custom) (value : Value) :
    (Vocabulary.custom change c : Coding Id).encoder.accepts value =
      (c.encoder.accepts (customValue value change) && customAccepts value change : Bool) := by
  exact andAlso_eq _ _

theorem refine_covers (hc : c.Covers) (holds : Value → Bool) (expected : String) :
    (Vocabulary.custom (.refine holds expected) c : Coding Id).Covers := by
  intro input a h
  obtain ⟨hdecode, ha⟩ := refine_eq_ok.1 h
  rw [accepts_custom]
  show (c.encoder.accepts a && holds a : Bool) = true
  rw [hc hdecode, ha]
  rfl

/-- The guard covers mapped values exactly if it holds of what they are mapped back to. -/
theorem imap_covers_iff : (Vocabulary.custom (.imap forth back) c : Coding Id).Covers ↔
    ∀ input a, c.decoder.decode input = .ok a → c.encoder.accepts (back (forth a)) = true := by
  have haccepts (b : Value) :
      (Vocabulary.custom (.imap forth back) c : Coding Id).encoder.accepts b =
        c.encoder.accepts (back b) := by
    rw [accepts_custom]
    exact Bool.and_true _
  constructor
  · intro h input a ha
    rw [← haccepts]
    exact h (imap_eq_ok.2 ⟨a, ha, rfl⟩)
  · intro h input b hb
    obtain ⟨a, ha, rfl⟩ := imap_eq_ok.1 hb
    rw [haccepts]
    exact h input a ha

/-- **Round trips compose.**  Composites of codings that round-trip do, with every label,
message and predicate, and with maps one of which undoes the other on what is decoded.
With predicates and such maps the guard goes on to cover what is decoded. -/
theorem round_trip_composes {c d : Coding Id} {fields : Entries (Coding Id)}
    {places : List (Coding Id)} (hc : c.RoundTrips) (hd : d.Covers)
    (hkeys : fields.keys.Nodup) (hfields : ∀ entry ∈ fields, entry.2.RoundTrips)
    (hplaces : ∀ part ∈ places, part.RoundTrips) :
    ((∀ kind, (Vocabulary.object kind fields : Coding Id).RoundTrips) ∧
      (Vocabulary.record c : Coding Id).RoundTrips ∧
      (Vocabulary.array c : Coding Id).RoundTrips ∧
      (Vocabulary.tuple places : Coding Id).RoundTrips ∧
      (Vocabulary.readonly c : Coding Id).RoundTrips) ∧
    ((∀ holds expected, (Vocabulary.custom (.refine holds expected) c : Coding Id).RoundTrips) ∧
      (∀ expected, (Vocabulary.custom (.relabel expected) c : Coding Id).RoundTrips) ∧
      (∀ message, (Vocabulary.custom (.annotate message) c : Coding Id).RoundTrips) ∧
      ∀ forth back, (∀ input a, c.decoder.decode input = .ok a → back (forth a) = a) →
        (Vocabulary.custom (.imap forth back) c : Coding Id).RoundTrips) ∧
    (∀ holds expected, (Vocabulary.custom (.refine holds expected) d : Coding Id).Covers) ∧
      ∀ forth back, (∀ input a, d.decoder.decode input = .ok a → back (forth a) = a) →
        (Vocabulary.custom (.imap forth back) d : Coding Id).Covers := by
  refine ⟨⟨fun kind => object_roundTrips kind hkeys hfields, record_roundTrips hc,
    array_roundTrips hc, tuple_roundTrips hplaces, hc⟩, ⟨refine_roundTrips hc, ?_, ?_, ?_⟩,
    refine_covers hd, ?_⟩
  · exact fun expected => reworded_roundTrips hc (.inl ⟨expected, rfl⟩)
  · exact fun message => reworded_roundTrips hc (.inr ⟨message, rfl⟩)
  · exact fun _ _ hback => imap_roundTrips hc hback
  · intro forth back hback
    refine imap_covers_iff.2 fun input a ha => ?_
    rw [hback input a ha]
    exact hd ha

/-- Texts, put into arrays when they are decoded. -/
def boxed : Coding Id :=
  Vocabulary.custom
    (.imap (fun value => .array [value]) fun
      | .array [value] => value
      | value => value)
    (Vocabulary.primitive .string)

theorem boxed_round_trips :
    let task : Coding Id := Vocabulary.object .required [("due", boxed)]
    let decoded : Value := .object [("due", .array [.string "May"])]
    task.decoder.decode (.object [("page", .string "one"), ("due", .string "May")]) =
        .ok decoded ∧
      task.decoder.decode (task.encoder.encode decoded) = .ok decoded ∧ boxed.Covers := by
  have hstring : (Vocabulary.primitive .string : Coding Id).Covers := by
    intro input a h
    obtain rfl := test_eq_ok h
    cases a with
    | string _ => rfl
    | _ => cases h
  obtain ⟨-, ⟨-, -, -, himap⟩, -, hcovers⟩ := @round_trip_composes _ _ [] []
    (primitive_roundTrips .string) hstring List.nodup_nil nofun nofun
  have hboxed : boxed.RoundTrips := himap _ _ fun _ _ _ => rfl
  have hbox : boxed.Covers := hcovers _ _ fun _ _ _ => rfl
  obtain ⟨⟨hobject, -⟩, -⟩ := @round_trip_composes _ _ [("due", boxed)] [boxed]
    hboxed hbox (List.nodup_singleton _) (List.forall_mem_singleton.2 hboxed)
    (List.forall_mem_singleton.2 hboxed)
  have hdecode : (Vocabulary.object .required [("due", boxed)] : Coding Id).decoder.decode
      (.object [("page", .string "one"), ("due", .string "May")]) =
      .ok (.object [("due", .array [.string "May"])]) := rfl
  exact ⟨hdecode, hobject .required hdecode, hbox⟩

end Coding
end Schemata
