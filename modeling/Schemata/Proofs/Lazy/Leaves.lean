import Schemata.Proofs.Compatibility

/-!
# Leaves of artifacts

The leaves of a blueprint are the cells that it owns and the handles in it.  A combinator brings
no leaves of its own, so the leaves of an artifact are those of its parts; and readings that a
relation respects are related where their leaves are.

**Results.**

* `Blueprint.fold_rel`: two readings of a blueprint are related when those of its leaves are, for
  each relation that all combinators respect, changes and pairs among them (`Compatible`).
* `Artifact.leaves_closed`: what holds of all leaves of parts holds of all leaves of the whole.
* `Artifact.mem_cells`: the cells that an artifact keeps alive are those that it owns.
-/

namespace Schemata

/-! ## Predicates that combinators respect -/

/-- A predicate on a vocabulary that holds of wholes when it holds of their parts. -/
structure Closed {A : Type} [Vocabulary A] (p : A → Prop) : Prop where
  literal (value : Literal) : p (Vocabulary.literal value)
  literals (values : NonEmpty Literal) : p (Vocabulary.literals values)
  literalsOr (values : NonEmpty Literal) {a : A} : p a → p (Vocabulary.literalsOr values a)
  primitive (kind : Primitive) : p (Vocabulary.primitive kind)
  object (kind : FieldKind) {xs : Entries A} : (∀ x ∈ xs, p x.2) → p (Vocabulary.object kind xs)
  record {a : A} : p a → p (Vocabulary.record a)
  array {a : A} : p a → p (Vocabulary.array a)
  tuple {xs : List A} : (∀ x ∈ xs, p x) → p (Vocabulary.tuple xs)
  intersection {a b : A} : p a → p b → p (Vocabulary.intersection a b)
  sum (tag : String) {xs : Entries A} : (∀ x ∈ xs, p x.2) → p (Vocabulary.sum tag xs)
  union {a : A} {xs : List A} : p a → (∀ x ∈ xs, p x) → p (Vocabulary.union ⟨a, xs⟩)
  readonly {a : A} : p a → p (Vocabulary.readonly a)
  custom (change : Custom) {a : A} : p a → p (Vocabulary.custom change a)
  pair {a b : A} : p a → p b → p (Vocabulary.pair a b)

namespace Blueprint

/-! ## Leaves of blueprints -/

/-- A leaf of a blueprint: a cell that it owns, or the handle of one. -/
inductive Leaf where
  | owner (cell : CellId)
  | handle (cell : CellId)
deriving DecidableEq

namespace Leaf

/-- The cell of a leaf. -/
def cell : Leaf → CellId
  | .owner cell => cell
  | .handle cell => cell

/-- The reading of a leaf, given the meaning of owned cells and of handles. -/
def read {A : Type} (owned referred : CellId → A) : Leaf → A
  | .owner cell => owned cell
  | .handle cell => referred cell

end Leaf

mutual
/-- The leaves of a blueprint, from left to right. -/
def leaves : Blueprint → List Leaf
  | .literal _ => []
  | .literals _ => []
  | .literalsOr _ fallback => leaves fallback
  | .primitive _ => []
  | .object _ fields => leavesOfFields fields
  | .record codomain => leaves codomain
  | .array item => leaves item
  | .tuple components => leavesOfAll components
  | .intersection left right => leaves left ++ leaves right
  | .sum _ members => leavesOfFields members
  | .union ⟨head, tail⟩ => leaves head ++ leavesOfAll tail
  | .readonly inner => leaves inner
  | .custom _ inner => leaves inner
  | .pair decoder encoder => leaves decoder ++ leaves encoder
  | .owner cell => [.owner cell]
  | .handle cell => [.handle cell]

def leavesOfAll : List Blueprint → List Leaf
  | [] => []
  | blueprint :: rest => leaves blueprint ++ leavesOfAll rest

def leavesOfFields : List (String × Blueprint) → List Leaf
  | [] => []
  | (_, blueprint) :: rest => leaves blueprint ++ leavesOfFields rest
end

mutual
/-- The cells that a blueprint keeps alive are those that it owns. -/
theorem mem_cells {k : CellId} : ∀ b : Blueprint, k ∈ b.cells ↔ .owner k ∈ b.leaves
  | .literal _ => by simp [cells, leaves]
  | .literals _ => by simp [cells, leaves]
  | .literalsOr _ fallback => by simpa [cells, leaves] using mem_cells fallback
  | .primitive _ => by simp [cells, leaves]
  | .object _ fields => by simpa [cells, leaves] using mem_cellsOfFields fields
  | .record codomain => by simpa [cells, leaves] using mem_cells codomain
  | .array item => by simpa [cells, leaves] using mem_cells item
  | .tuple components => by simpa [cells, leaves] using mem_cellsOfAll components
  | .intersection left right => by simp [cells, leaves, mem_cells left, mem_cells right]
  | .sum _ members => by simpa [cells, leaves] using mem_cellsOfFields members
  | .union ⟨head, tail⟩ => by simp [cells, leaves, mem_cells head, mem_cellsOfAll tail]
  | .readonly inner => by simpa [cells, leaves] using mem_cells inner
  | .custom _ inner => by simpa [cells, leaves] using mem_cells inner
  | .pair decoder encoder => by simp [cells, leaves, mem_cells decoder, mem_cells encoder]
  | .owner cell => by simp [cells, leaves]
  | .handle cell => by simp [cells, leaves]

theorem mem_cellsOfAll {k : CellId} :
    ∀ bs : List Blueprint, k ∈ cellsOfAll bs ↔ .owner k ∈ leavesOfAll bs
  | [] => by simp [cellsOfAll, leavesOfAll]
  | b :: rest => by simp [cellsOfAll, leavesOfAll, mem_cells b, mem_cellsOfAll rest]

theorem mem_cellsOfFields {k : CellId} :
    ∀ bs : List (String × Blueprint), k ∈ cellsOfFields bs ↔ .owner k ∈ leavesOfFields bs
  | [] => by simp [cellsOfFields, leavesOfFields]
  | (_, b) :: rest => by simp [cellsOfFields, leavesOfFields, mem_cells b, mem_cellsOfFields rest]
end

theorem mem_leavesOfAll {leaf : Leaf} :
    ∀ {bs : List Blueprint}, leaf ∈ leavesOfAll bs → ∃ b ∈ bs, leaf ∈ b.leaves
  | b :: rest, h => by
      rw [leavesOfAll, List.mem_append] at h
      rcases h with h | h
      · exact ⟨b, List.mem_cons_self, h⟩
      · obtain ⟨c, hc, h⟩ := mem_leavesOfAll h
        exact ⟨c, List.mem_cons_of_mem _ hc, h⟩

theorem mem_leavesOfFields {leaf : Leaf} :
    ∀ {bs : List (String × Blueprint)}, leaf ∈ leavesOfFields bs → ∃ b ∈ bs, leaf ∈ b.2.leaves
  | b :: rest, h => by
      rw [leavesOfFields, List.mem_append] at h
      rcases h with h | h
      · exact ⟨b, List.mem_cons_self, h⟩
      · obtain ⟨c, hc, h⟩ := mem_leavesOfFields h
        exact ⟨c, List.mem_cons_of_mem _ hc, h⟩

/-! ## Readings side by side -/

section Fold

variable {A B : Type} [Vocabulary A] [Vocabulary B] {rel : A → B → Prop}
  {owned referred : CellId → A} {owned' referred' : CellId → B}

mutual
/-- **Two readings of a blueprint are related when those of its leaves are.** -/
theorem fold_rel (hrel : Compatible rel) : ∀ b : Blueprint,
    (∀ leaf ∈ b.leaves, rel (leaf.read owned referred) (leaf.read owned' referred')) →
    rel (b.fold owned referred) (b.fold owned' referred')
  | .literal value, _ => by
      simpa only [fold] using hrel.literal value
  | .literals values, _ => by
      simpa only [fold] using hrel.literals values
  | .literalsOr values fallback, h => by
      rw [leaves] at h
      simpa only [fold] using hrel.literalsOr values (fold_rel hrel fallback h)
  | .primitive kind, _ => by
      simpa only [fold] using hrel.primitive kind
  | .object kind fields, h => by
      rw [leaves] at h
      simpa only [fold] using hrel.object kind (foldFields_rel hrel fields h)
  | .record codomain, h => by
      rw [leaves] at h
      simpa only [fold] using hrel.record (fold_rel hrel codomain h)
  | .array item, h => by
      rw [leaves] at h
      simpa only [fold] using hrel.array (fold_rel hrel item h)
  | .tuple components, h => by
      rw [leaves] at h
      simpa only [fold] using hrel.tuple (foldAll_rel hrel components h)
  | .intersection left right, h => by
      rw [leaves, List.forall_mem_append] at h
      simpa only [fold] using hrel.intersection (fold_rel hrel left h.1) (fold_rel hrel right h.2)
  | .sum tag members, h => by
      rw [leaves] at h
      simpa only [fold] using hrel.sum tag (foldFields_rel hrel members h)
  | .union ⟨head, tail⟩, h => by
      rw [leaves, List.forall_mem_append] at h
      simpa only [fold] using hrel.union (fold_rel hrel head h.1) (foldAll_rel hrel tail h.2)
  | .readonly inner, h => by
      rw [leaves] at h
      simpa only [fold] using hrel.readonly (fold_rel hrel inner h)
  | .custom change inner, h => by
      rw [leaves] at h
      simpa only [fold] using hrel.custom change (fold_rel hrel inner h)
  | .pair decoder encoder, h => by
      rw [leaves, List.forall_mem_append] at h
      simpa only [fold] using hrel.pair (fold_rel hrel decoder h.1) (fold_rel hrel encoder h.2)
  | .owner cell, h => by
      simpa only [fold, Leaf.read] using h (.owner cell) (by simp [leaves])
  | .handle cell, h => by
      simpa only [fold, Leaf.read] using h (.handle cell) (by simp [leaves])

theorem foldAll_rel (hrel : Compatible rel) : ∀ bs : List Blueprint,
    (∀ leaf ∈ leavesOfAll bs, rel (leaf.read owned referred) (leaf.read owned' referred')) →
    List.Forall₂ rel (foldAll owned referred bs) (foldAll owned' referred' bs)
  | [], _ => by
      simp only [foldAll]
      exact .nil
  | b :: rest, h => by
      rw [leavesOfAll, List.forall_mem_append] at h
      simp only [foldAll]
      exact .cons (fold_rel hrel b h.1) (foldAll_rel hrel rest h.2)

theorem foldFields_rel (hrel : Compatible rel) : ∀ bs : List (String × Blueprint),
    (∀ leaf ∈ leavesOfFields bs, rel (leaf.read owned referred) (leaf.read owned' referred')) →
    List.Forall₂ (Keyed rel) (foldFields owned referred bs) (foldFields owned' referred' bs)
  | [], _ => by
      simp only [foldFields]
      exact .nil
  | (key, b) :: rest, h => by
      rw [leavesOfFields, List.forall_mem_append] at h
      simp only [foldFields]
      exact .cons ⟨rfl, fold_rel hrel b h.1⟩ (foldFields_rel hrel rest h.2)
end

end Fold

/-- What holds of all leaves of the parts of a blueprint holds of all its leaves. -/
theorem leaves_closed (q : Leaf → Prop) :
    Closed fun b : Blueprint => ∀ leaf ∈ b.leaves, q leaf where
  literal value := by
    show ∀ leaf ∈ (Blueprint.literal value).leaves, q leaf
    simp [leaves]
  literals values := by
    show ∀ leaf ∈ (Blueprint.literals values).leaves, q leaf
    simp [leaves]
  literalsOr values {a} h := by
    show ∀ leaf ∈ (Blueprint.literalsOr values a).leaves, q leaf
    rwa [leaves]
  primitive kind := by
    show ∀ leaf ∈ (Blueprint.primitive kind).leaves, q leaf
    simp [leaves]
  object kind {xs} h := by
    intro leaf hleaf
    replace hleaf : leaf ∈ (Blueprint.object kind xs).leaves := hleaf
    rw [leaves] at hleaf
    obtain ⟨x, hx, hleaf⟩ := mem_leavesOfFields hleaf
    exact h x hx leaf hleaf
  record {a} h := by
    show ∀ leaf ∈ (Blueprint.record a).leaves, q leaf
    rwa [leaves]
  array {a} h := by
    show ∀ leaf ∈ (Blueprint.array a).leaves, q leaf
    rwa [leaves]
  tuple {xs} h := by
    intro leaf hleaf
    replace hleaf : leaf ∈ (Blueprint.tuple xs).leaves := hleaf
    rw [leaves] at hleaf
    obtain ⟨x, hx, hleaf⟩ := mem_leavesOfAll hleaf
    exact h x hx leaf hleaf
  intersection {a b} ha hb := by
    show ∀ leaf ∈ (Blueprint.intersection a b).leaves, q leaf
    rw [leaves]
    exact List.forall_mem_append.2 ⟨ha, hb⟩
  sum tag {xs} h := by
    intro leaf hleaf
    replace hleaf : leaf ∈ (Blueprint.sum tag xs).leaves := hleaf
    rw [leaves] at hleaf
    obtain ⟨x, hx, hleaf⟩ := mem_leavesOfFields hleaf
    exact h x hx leaf hleaf
  union {a xs} ha h := by
    intro leaf hleaf
    replace hleaf : leaf ∈ (Blueprint.union ⟨a, xs⟩).leaves := hleaf
    rw [leaves, List.mem_append] at hleaf
    rcases hleaf with hleaf | hleaf
    · exact ha leaf hleaf
    · obtain ⟨x, hx, hleaf⟩ := mem_leavesOfAll hleaf
      exact h x hx leaf hleaf
  readonly {a} h := by
    show ∀ leaf ∈ (Blueprint.readonly a).leaves, q leaf
    rwa [leaves]
  custom change {a} h := by
    show ∀ leaf ∈ (Blueprint.custom change a).leaves, q leaf
    rwa [leaves]
  pair {a b} ha hb := by
    show ∀ leaf ∈ (Blueprint.pair a b).leaves, q leaf
    rw [leaves]
    exact List.forall_mem_append.2 ⟨ha, hb⟩

end Blueprint

/-! ## Leaves of artifacts -/

open Blueprint (Leaf)

/-- An artifact whose readings take changes and pairs apart as well: a pair is read as the pair
of its readings, or as one of them. -/
class ThoroughArtifact (A : Type) [Artifact A] : Prop extends LawfulArtifact A where
  decoder_custom (change : Custom) (a : A) :
    Artifact.decoder (Vocabulary.custom change a) = .custom change (Artifact.decoder a)
  encoder_custom (change : Custom) (a : A) :
    Artifact.encoder (Vocabulary.custom change a) = .custom change (Artifact.encoder a)
  decoder_pair (a b : A) : Artifact.decoder (Vocabulary.pair a b) = Artifact.decoder a ∨
    Artifact.decoder (Vocabulary.pair a b) = .pair (Artifact.decoder a) (Artifact.decoder b)
  encoder_pair (a b : A) : Artifact.encoder (Vocabulary.pair a b) = Artifact.encoder b ∨
    Artifact.encoder (Vocabulary.pair a b) = .pair (Artifact.encoder a) (Artifact.encoder b)

namespace ThoroughArtifact

instance : ThoroughArtifact Blueprint where
  decoder_custom _ _ := rfl
  encoder_custom _ _ := rfl
  decoder_pair _ _ := .inr rfl
  encoder_pair _ _ := .inr rfl

instance : ThoroughArtifact Codec where
  decoder_custom _ _ := rfl
  encoder_custom _ _ := rfl
  decoder_pair _ _ := .inl rfl
  encoder_pair _ _ := .inl rfl

end ThoroughArtifact

section Closed

variable {A : Type} [Vocabulary A]

/-- A predicate that combinators respect goes back along a function that respects them. -/
theorem Closed.comap {p : Blueprint → Prop} (h : Closed p) {f : A → Blueprint} (hf : Respects f)
    (hcustom : ∀ change a, f (Vocabulary.custom change a) = .custom change (f a))
    (hpair : ∀ a b, p (f a) → p (f b) → p (f (Vocabulary.pair a b))) :
    Closed fun a => p (f a) where
  literal value := by
    rw [hf.literal]
    exact h.literal value
  literals values := by
    rw [hf.literals]
    exact h.literals values
  literalsOr values {_} ha := by
    rw [hf.literalsOr]
    exact h.literalsOr values ha
  primitive kind := by
    rw [hf.primitive]
    exact h.primitive kind
  object kind {_} hxs := by
    rw [hf.object]
    exact h.object kind (List.forall_mem_map.2 hxs)
  record {_} ha := by
    rw [hf.record]
    exact h.record ha
  array {_} ha := by
    rw [hf.array]
    exact h.array ha
  tuple {_} hxs := by
    rw [hf.tuple]
    exact h.tuple (List.forall_mem_map.2 hxs)
  intersection {_ _} ha hb := by
    rw [hf.intersection]
    exact h.intersection ha hb
  sum tag {_} hxs := by
    rw [hf.sum]
    exact h.sum tag (List.forall_mem_map.2 hxs)
  union {_ _} ha hxs := by
    rw [hf.union]
    exact h.union ha (List.forall_mem_map.2 hxs)
  readonly {_} ha := by
    rw [hf.readonly]
    exact h.readonly ha
  custom change {_} ha := by
    rw [hcustom]
    exact h.custom change ha
  pair {_ _} ha hb := hpair _ _ ha hb

theorem Closed.and {p q : A → Prop} (hp : Closed p) (hq : Closed q) :
    Closed fun a => p a ∧ q a where
  literal value := ⟨hp.literal value, hq.literal value⟩
  literals values := ⟨hp.literals values, hq.literals values⟩
  literalsOr values {_} h := ⟨hp.literalsOr values h.1, hq.literalsOr values h.2⟩
  primitive kind := ⟨hp.primitive kind, hq.primitive kind⟩
  object kind {_} h :=
    ⟨hp.object kind fun x hx => (h x hx).1, hq.object kind fun x hx => (h x hx).2⟩
  record {_} h := ⟨hp.record h.1, hq.record h.2⟩
  array {_} h := ⟨hp.array h.1, hq.array h.2⟩
  tuple {_} h := ⟨hp.tuple fun x hx => (h x hx).1, hq.tuple fun x hx => (h x hx).2⟩
  intersection {_ _} h h' := ⟨hp.intersection h.1 h'.1, hq.intersection h.2 h'.2⟩
  sum tag {_} h := ⟨hp.sum tag fun x hx => (h x hx).1, hq.sum tag fun x hx => (h x hx).2⟩
  union {_ _} h h' :=
    ⟨hp.union h.1 fun x hx => (h' x hx).1, hq.union h.2 fun x hx => (h' x hx).2⟩
  readonly {_} h := ⟨hp.readonly h.1, hq.readonly h.2⟩
  custom change {_} h := ⟨hp.custom change h.1, hq.custom change h.2⟩
  pair {_ _} h h' := ⟨hp.pair h.1 h'.1, hq.pair h.2 h'.2⟩

/-- What a predicate holds of is related to everything by a congruence when combinators respect
the predicate. -/
theorem Closed.congruence {B : Type} [Vocabulary B] {p : A → Prop} (h : Closed p) :
    Congruence (fun a (_ : B) => p a) fun a _ => p a := by
  have hall {α β : Type} {q : α → Prop} {xs : List α} {ys : List β}
      (hxs : List.Forall₂ (fun x _ => q x) xs ys) : ∀ x ∈ xs, q x :=
    (List.forall₂_and_left xs ys).1 (hxs.imp fun _ _ hx => ⟨hx, trivial⟩) |>.1
  exact {
    literal := h.literal
    literals := h.literals
    literalsOr := fun values _ _ => h.literalsOr values
    primitive := h.primitive
    object := fun kind _ _ _ hxs => h.object kind (hall (hxs.imp fun _ _ hx => hx.2))
    record := h.record
    array := h.array
    tuple := fun hxs => h.tuple (hall hxs)
    intersection := h.intersection
    sum := fun tag _ _ _ hxs => h.sum tag (hall (hxs.imp fun _ _ hx => hx.2))
    union := fun ha hxs => h.union ha (hall hxs)
    readonly := h.readonly }

end Closed

namespace Artifact

variable {A : Type} [Artifact A]

/-- The leaves of an artifact, those for decoding first. -/
def leaves (a : A) : List Leaf := (decoder a).leaves ++ (encoder a).leaves

/-- The cells that an artifact keeps alive are those that it owns. -/
theorem mem_cells {k : CellId} {a : A} : k ∈ cells a ↔ .owner k ∈ leaves a := by
  rw [cells, leaves, List.mem_append, List.mem_append, Blueprint.mem_cells, Blueprint.mem_cells]

/-- **What holds of all leaves of the parts of an artifact holds of all its leaves.** -/
theorem leaves_closed [ThoroughArtifact A] (q : Leaf → Prop) :
    Closed fun a : A => ∀ leaf ∈ leaves a, q leaf := by
  have hdecoder : Closed fun a : A => ∀ leaf ∈ (decoder a).leaves, q leaf := by
    refine (Blueprint.leaves_closed q).comap LawfulArtifact.respects_decoder
      ThoroughArtifact.decoder_custom fun a b ha hb => ?_
    rcases ThoroughArtifact.decoder_pair a b with h | h
    · rwa [h]
    · rw [h]
      exact (Blueprint.leaves_closed q).pair ha hb
  have hencoder : Closed fun a : A => ∀ leaf ∈ (encoder a).leaves, q leaf := by
    refine (Blueprint.leaves_closed q).comap LawfulArtifact.respects_encoder
      ThoroughArtifact.encoder_custom fun a b ha hb => ?_
    rcases ThoroughArtifact.encoder_pair a b with h | h
    · rwa [h]
    · rw [h]
      exact (Blueprint.leaves_closed q).pair ha hb
  simpa only [leaves, List.forall_mem_append] using hdecoder.and hencoder

variable [LawfulArtifact A]

theorem leaves_owner (k : CellId) : leaves (owner k : A) = [.owner k, .owner k] := by
  rw [leaves, LawfulArtifact.decoder_owner, LawfulArtifact.encoder_owner, Blueprint.leaves]
  rfl

theorem leaves_handle (k : CellId) : leaves (handle k : A) = [.handle k, .handle k] := by
  rw [leaves, LawfulArtifact.decoder_handle, LawfulArtifact.encoder_handle, Blueprint.leaves]
  rfl

theorem mem_leaves_owner {k : CellId} {leaf : Leaf} :
    leaf ∈ leaves (owner k : A) ↔ leaf = .owner k := by
  simp [leaves_owner]

theorem mem_leaves_handle {k : CellId} {leaf : Leaf} :
    leaf ∈ leaves (handle k : A) ↔ leaf = .handle k := by
  simp [leaves_handle]

end Artifact

end Schemata
