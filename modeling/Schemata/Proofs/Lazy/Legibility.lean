import Schemata.Proofs.Compatibility
import Schemata.Proofs.Lazy.History
import Schemata.Proofs.Lazy.Writing

/-!
# Stores that schemas can be read from

A schema is scoped when every name in it stands for something: those of `self` are bound around
them, those of `ref` are defined.  A store is legible when the bodies of its cells are scoped, and
what they refer to and what is held is of cells of the store, older ones for a body.  Every
definition then runs, and leaves such a store.

**Input.**  Definitions that refer to no others than those that there are (`Complete`).

**Results.**

* `build_rel`: building corresponds to itself when new cells do.
* `build_total`: a scoped schema is built, from whatever store.
* `run_legible` and `resolve_legible`: the definition of a cell runs, and a cell resolves.
* `write_legible` and `request_legible`: sources and answers are there, or calls are nested too
  deep.
* `Conduct.Step.legible`: what a step of a history preserves that builds scoped schemas.
-/

namespace Schemata
namespace Lazy

open Blueprint (Leaf)

variable {A : Type} [Artifact A] {definitions : Entries Definition}

/-! ## Scoped schemas -/

/-- Names stand for something: those that are bound and those that are defined. -/
def scoping (definitions : Entries Definition) : Schema.Rule where
  self names binder := binder ∈ names
  ref _ name := name ∈ definitions.keys

/-- Definitions that refer to no others than those that there are. -/
def Complete (definitions : Entries Definition) : Prop :=
  ∀ name ∈ definitions.references, name ∈ definitions.keys

theorem Complete.admits (h : Complete definitions) : Admits definitions (scoping definitions) :=
  fun _ _ _ _ hlookup name hname =>
    h name (List.mem_flatMap.2 ⟨_, Entries.mem_of_lookup hlookup, hname⟩)

/-! ## Building -/

section Building

variable (definitions) (R : Correspondence (Run A) (Run A)) {scope : List (String × A)}

/-- Building may be related to itself: halts for names are, or no name is unbound. -/
def Relates (follows : Prop) : Prop :=
  (∀ name, R.rel (throw (.unbound name) : Run A A) (throw (.unbound name))) ∨ follows

mutual
/-- **Building a schema corresponds to itself when new cells do**, and when halts do or the schema
is scoped. -/
theorem build_rel
    (hallocate : ∀ id body, R.rel (allocate id body scope) (allocate id body scope)) :
    ∀ x : Schema A,
    Relates R (x.Follows (scoping definitions) (Entries.keys scope)) →
      R.rel (build scope x) (build scope x)
  | .literal value, _ => by
      rw [build]
      exact R.pure _
  | .literals values, _ => by
      rw [build]
      exact R.pure _
  | .literalsOr values fallback, h => by
      rw [Schema.Follows] at h
      rw [build]
      exact R.bind (build_rel hallocate fallback h) fun _ => R.pure _
  | .primitive kind, _ => by
      rw [build]
      exact R.pure _
  | .object kind fields, h => by
      rw [Schema.Follows] at h
      rw [build]
      exact R.bind (buildFields_rel hallocate fields h) fun _ => R.pure _
  | .record codomain, h => by
      rw [Schema.Follows] at h
      rw [build]
      exact R.bind (build_rel hallocate codomain h) fun _ => R.pure _
  | .array item, h => by
      rw [Schema.Follows] at h
      rw [build]
      exact R.bind (build_rel hallocate item h) fun _ => R.pure _
  | .tuple components, h => by
      rw [Schema.Follows] at h
      rw [build]
      exact R.bind (buildAll_rel hallocate components h) fun _ => R.pure _
  | .intersection left right, h => by
      rw [Schema.Follows] at h
      rw [build]
      exact R.bind (build_rel hallocate left (h.imp_right And.left)) fun _ =>
        R.bind (build_rel hallocate right (h.imp_right And.right)) fun _ => R.pure _
  | .sum tag members, h => by
      rw [Schema.Follows] at h
      rw [build]
      exact R.bind (buildFields_rel hallocate members h) fun _ => R.pure _
  | .union ⟨head, tail⟩, h => by
      rw [Schema.Follows] at h
      rw [build]
      exact R.bind (build_rel hallocate head (h.imp_right And.left)) fun _ =>
        R.bind (buildAll_rel hallocate tail (h.imp_right And.right)) fun _ => R.pure _
  | .readonly inner, h => by
      rw [Schema.Follows] at h
      rw [build]
      exact R.bind (build_rel hallocate inner h) fun _ => R.pure _
  | .custom change inner, h => by
      rw [Schema.Follows] at h
      rw [build]
      exact R.bind (build_rel hallocate inner h) fun _ => R.pure _
  | .pair decoder encoder, h => by
      rw [Schema.Follows] at h
      rw [build]
      exact R.bind (build_rel hallocate decoder (h.imp_right And.left)) fun _ =>
        R.bind (build_rel hallocate encoder (h.imp_right And.right)) fun _ => R.pure _
  | .lazy id binder body stash, _ => by
      rw [build]
      exact hallocate _ _
  | .self binder, h => by
      rw [Schema.Follows] at h
      cases hlookup : scope.lookup binder with
      | some handle =>
          simp only [build, hlookup]
          exact R.pure _
      | none =>
          simp only [build, hlookup]
          rcases h with h | h
          · exact h binder
          · replace h : binder ∈ Entries.keys scope := h
            obtain ⟨handle, hlookup'⟩ := Entries.exists_lookup h
            cases hlookup.symm.trans hlookup'
  | .ref name, _ => by
      rw [build]
      cases scope.lookup name with
      | none => exact hallocate _ _
      | some handle => exact R.pure _
  | .artifact built, _ => by
      rw [build]
      exact R.pure _

theorem buildAll_rel
    (hallocate : ∀ id body, R.rel (allocate id body scope) (allocate id body scope)) :
    ∀ xs : List (Schema A),
    Relates R (Schema.FollowsInAll (scoping definitions) (Entries.keys scope) xs) →
      R.rel (buildAll scope xs) (buildAll scope xs)
  | [], _ => by
      rw [buildAll]
      exact R.pure _
  | x :: rest, h => by
      rw [Schema.FollowsInAll] at h
      rw [buildAll]
      exact R.bind (build_rel hallocate x (h.imp_right And.left)) fun _ =>
        R.bind (buildAll_rel hallocate rest (h.imp_right And.right)) fun _ => R.pure _

theorem buildFields_rel
    (hallocate : ∀ id body, R.rel (allocate id body scope) (allocate id body scope)) :
    ∀ xs : List (String × Schema A),
    Relates R (Schema.FollowsInFields (scoping definitions) (Entries.keys scope) xs) →
      R.rel (buildFields scope xs) (buildFields scope xs)
  | [], _ => by
      rw [buildFields]
      exact R.pure _
  | (key, x) :: rest, h => by
      rw [Schema.FollowsInFields] at h
      rw [buildFields]
      exact R.bind (build_rel hallocate x (h.imp_right And.left)) fun _ =>
        R.bind (buildFields_rel hallocate rest (h.imp_right And.right)) fun _ => R.pure _
end

end Building

/-- A call that comes to an end from every store. -/
def Total {α : Type} (call : Run A α) : Prop := ∀ s, ∃ a s', Runs call s a s'

/-- Calls that come to an end do so one after the other. -/
def total : Correspondence (Run A) (Run A) where
  rel call _ := Total call
  pure a s := ⟨a, s, .pure a s⟩
  bind {_ _ _ _ _ _} hx hf s := by
    obtain ⟨a, s₁, hcall⟩ := hx s
    obtain ⟨b, s₂, hrun⟩ := hf a s₁
    exact ⟨b, s₂, hcall.bind hrun⟩

/-- **A scoped schema is built**, from whatever store. -/
theorem build_total {scope : List (String × A)} {x : Schema A}
    (hx : x.Follows (scoping definitions) (Entries.keys scope)) : Total (build scope x) :=
  build_rel definitions total (fun id body s => ⟨_, _, .allocate id body scope s⟩) x (.inr hx)

/-! ## Legible stores -/

namespace Store

/-- A cell whose body is scoped, inside of older cells and over the artifacts of such, and which
has resolved to an artifact of cells of the store. -/
structure LegibleAt (s : Store A) (definitions : Entries Definition) (k : CellId) (c : Cell A) :
    Prop where
  body : c.body.Follows (scoping definitions) (Entries.keys c.scope) c.id
  scope : ∀ e ∈ c.scope, ∃ j, e.2 = Artifact.handle j ∧ j < k
  given : ∀ a ∈ c.body.given, ∀ leaf ∈ Artifact.leaves a, leaf.cell < k
  resolved (a : A) : c.resolved = some a → ∀ leaf ∈ Artifact.leaves a, leaf.cell < s.cells.size

/-- A store of such cells, that holds artifacts of cells of the store. -/
structure Legible (s : Store A) (definitions : Entries Definition) : Prop where
  cells (k : CellId) (c : Cell A) : s.cells[k]? = some c → s.LegibleAt definitions k c
  holds (a : A) : s.Holds a → ∀ leaf ∈ Artifact.leaves a, leaf.cell < s.cells.size

variable {s s' : Store A} {j k : CellId} {c d : Cell A} {a : A}

theorem LegibleAt.later (h : s.LegibleAt definitions k c) (hsize : s.cells.size ≤ s'.cells.size) :
    s'.LegibleAt definitions k c :=
  { h with
    resolved := fun a ha leaf hleaf => Nat.lt_of_lt_of_le (h.resolved a ha leaf hleaf) hsize }

/-- A legible store stays so when what is held is of its cells. -/
theorem Legible.of_cells (h : s.Legible definitions) (hcells : s'.cells = s.cells)
    (hholds : ∀ a, s'.Holds a → ∀ leaf ∈ Artifact.leaves a, leaf.cell < s.cells.size) :
    s'.Legible definitions where
  cells k c hc := (h.cells k c (hcells ▸ hc)).later (Nat.le_of_eq (by rw [hcells]))
  holds := hcells ▸ hholds

/-- A new cell is legible where its body is scoped, and what it refers to is of older cells. -/
theorem legibleAt_new {scope : List (String × A)} {given : List A} {follows : Schema.Rule → Prop}
    (hnew : d.New scope given follows) (hfollows : follows (scoping definitions))
    (hscope : ∀ e ∈ scope, ∃ i, e.2 = Artifact.handle i ∧ i < j)
    (hgiven : ∀ b ∈ given, ∀ leaf ∈ Artifact.leaves b, leaf.cell < j) :
    s.LegibleAt definitions j d where
  body := hnew.scope ▸ hnew.follows _ hfollows
  scope := hnew.scope ▸ hscope
  given b hb := hgiven b (hnew.given hb)
  resolved b hb := by
    rw [hnew.resolved] at hb
    cases hb

variable [ThoroughArtifact A]

/-- The leaves that come in where scopes and artifacts are of cells of the store are of cells of
the later store. -/
theorem Brings.cell_lt {scope : List (String × A)} {given : List A} {leaf : Blueprint.Leaf}
    (h : s.Brings scope given s' leaf) (hsize : s.cells.size ≤ s'.cells.size)
    (hscope : ∀ e ∈ scope, ∃ i, e.2 = Artifact.handle i ∧ i < s.cells.size)
    (hgiven : ∀ b ∈ given, ∀ leaf ∈ Artifact.leaves b, leaf.cell < s.cells.size) :
    leaf.cell < s'.cells.size := by
  cases h with
  | new _ hlt => exact hlt
  | scope he hleaf =>
      obtain ⟨i, hhandle, hi⟩ := hscope _ he
      rw [hhandle] at hleaf
      obtain rfl := Artifact.mem_leaves_handle.1 hleaf
      exact Nat.lt_of_lt_of_le hi hsize
  | given hb hleaf => exact Nat.lt_of_lt_of_le (hgiven _ hb leaf hleaf) hsize

omit [ThoroughArtifact A] in
/-- The scope inside of a cell is of handles of it and of older cells. -/
theorem LegibleAt.inner (h : s.LegibleAt definitions k c) :
    ∀ e ∈ c.inner k, ∃ i, e.2 = Artifact.handle i ∧ i ≤ k := by
  intro e he
  rcases List.mem_cons.1 he with rfl | he
  · exact ⟨k, rfl, Nat.le_refl _⟩
  · obtain ⟨i, hhandle, hi⟩ := h.scope e he
    exact ⟨i, hhandle, Nat.le_of_lt hi⟩

/-- The handle that is kept when a definition runs is of a cell of the store. -/
theorem Legible.enter (h : s.Legible definitions) (hc : s.cells[k]? = some c) :
    (s.enter k c).Legible definitions := by
  refine h.of_cells rfl fun b hb leaf hleaf => ?_
  rcases hb with hb | hb
  · exact h.holds b (.inl hb) leaf hleaf
  · rcases names_enter hb with rfl | hb
    · obtain rfl := Artifact.mem_leaves_handle.1 hleaf
      exact lt_size hc
    · exact h.holds b (.inr hb) leaf hleaf

omit [ThoroughArtifact A] in
/-- A legible store stays so when new legible cells are added. -/
theorem Legible.adds (h : s.Legible definitions) {scope : List (String × A)} {given : List A}
    {follows : Schema.Rule → Prop} (hadds : s.Adds scope given follows s')
    (hnew : ∀ j d, s.cells.size ≤ j → d.New scope given follows → s'.LegibleAt definitions j d) :
    s'.Legible definitions where
  cells j d hd := by
    by_cases hj : j < s.cells.size
    · rw [hadds.old j hj] at hd
      exact (h.cells j d hd).later hadds.size
    · have hj := Nat.le_of_not_lt hj
      exact hnew j d hj (hadds.new j d hj hd)
  holds b hb leaf hleaf := by
    rw [Holds, hadds.held, hadds.names] at hb
    exact Nat.lt_of_lt_of_le (h.holds b hb leaf hleaf) hadds.size

end Store

open Store

variable [ThoroughArtifact A] {s s' : Store A} {k : CellId} {c : Cell A} {a : A}

omit [ThoroughArtifact A] in
/-- The schema of the body of a legible cell is there, and it is scoped. -/
theorem Store.LegibleAt.schema (hcomplete : Complete definitions)
    (h : s.LegibleAt definitions k c) : ∃ x, bodySchema definitions c = pure x ∧
      x.given ⊆ c.body.given ∧ x.Follows (scoping definitions) (Entries.keys (c.inner k)) := by
  obtain ⟨x, hbody⟩ : ∃ x, bodySchema definitions c = pure x := by
    have hfollows := h.body
    rw [bodySchema]
    cases hbody : c.body with
    | schema binder body stash => exact ⟨body, rfl⟩
    | definition =>
        rw [hbody] at hfollows
        obtain ⟨definition, hlookup⟩ := Entries.exists_lookup hfollows
        simp only [hlookup]
        exact ⟨_, rfl⟩
  obtain ⟨_, hgiven, hfollows⟩ := bodySchema_follows (hbody ▸ Runs.pure x s)
  exact ⟨x, hbody, hgiven, hfollows _ hcomplete.admits h.body⟩

/-- **In a legible store the definition of a cell runs**, and leaves a legible store with what it
gave. -/
theorem run_legible (hcomplete : Complete definitions) (hs : s.Legible definitions)
    (hc : s.cells[k]? = some c) :
    ∃ a s', Runs (run definitions k) s a s' ∧ s.Grows s' ∧ s'.Legible definitions ∧
      ∀ leaf ∈ Artifact.leaves a, leaf.cell < s'.cells.size := by
  have hk := hs.cells k c hc
  have hlt := lt_size hc
  obtain ⟨x, hbody, _, hscoped⟩ := hk.schema hcomplete
  obtain ⟨a, s', hbuild⟩ := build_total hscoped (s.enter k c)
  have hschema : Runs (bodySchema definitions c) s x s := by
    rw [hbody]
    exact .pure x s
  have hrun : Runs (run definitions k) s a s' :=
    (Runs.cell hc).bind (hschema.bind ((Runs.update _ s).bind hbuild))
  obtain ⟨c', hc', hadds, hleaves⟩ := run_adds hrun
  obtain rfl : c = c' := Option.some.inj (hc.symm.trans hc')
  have henter : s.Grows (s.enter k c) := .of_cells rfl rfl
  have hlow {j : CellId} (hj : s.cells.size ≤ j) {i : CellId} (hi : i ≤ k) : i < j :=
    Nat.lt_of_le_of_lt hi (Nat.lt_of_lt_of_le hlt hj)
  refine ⟨a, s', hrun, henter.trans hadds.grows, (hs.enter hc).adds hadds fun j d hj hnew => ?_,
    fun leaf hleaf => (hleaves leaf hleaf).cell_lt hadds.size (fun e he => ?_) fun b hb leaf h =>
      Nat.lt_trans (hk.given b hb leaf h) hlt⟩
  · refine legibleAt_new hnew ⟨hcomplete.admits, hk.body⟩ (fun e he => ?_) fun b hb leaf hleaf =>
      hlow hj (Nat.le_of_lt (hk.given b hb leaf hleaf))
    obtain ⟨i, hhandle, hi⟩ := hk.inner e he
    exact ⟨i, hhandle, hlow hj hi⟩
  · obtain ⟨i, hhandle, hi⟩ := hk.inner e he
    exact ⟨i, hhandle, Nat.lt_of_le_of_lt hi hlt⟩

omit [ThoroughArtifact A] in
/-- A legible store stays so when a cell changes in what it has resolved to, or in whether it is
being written. -/
theorem Store.Legible.modify (hs : s.Legible definitions) (k : CellId) {change : Cell A → Cell A}
    (hage : ∀ c : Cell A, c.Ages (change c))
    (hresolved : ∀ c, s.cells[k]? = some c → ∀ b, (change c).resolved = some b →
      ∀ leaf ∈ Artifact.leaves b, leaf.cell < s.cells.size) :
    Legible { s with cells := s.cells.modify k change } definitions where
  cells j d hd := by
    have hsize : (s.cells.modify k change).size = s.cells.size := Array.size_modify
    replace hd : (s.cells.modify k change)[j]? = some d := hd
    rw [Array.getElem?_modify] at hd
    split at hd
    · next hj =>
      obtain ⟨c, hc, rfl⟩ := Option.map_eq_some_iff.1 hd
      obtain ⟨hbody, hscope, hgiven, _⟩ := hs.cells j c hc
      obtain ⟨hid, hcbody, hcscope⟩ := hage c
      refine ⟨?_, hcscope ▸ hscope, hcbody ▸ hgiven, fun b hb leaf hleaf => ?_⟩
      · rwa [hid, hcbody, hcscope]
      · exact hsize ▸ hresolved c (hj ▸ hc) b hb leaf hleaf
    · exact (hs.cells j d hd).later (Nat.le_of_eq hsize.symm)
  holds b hb leaf hleaf := by
    have hsize : (s.cells.modify k change).size = s.cells.size := Array.size_modify
    exact hsize ▸ hs.holds b hb leaf hleaf

/-- **In a legible store every cell resolves**, and leaves a legible store with what it has
resolved to. -/
theorem resolve_legible (hcomplete : Complete definitions) (hs : s.Legible definitions)
    (hc : s.cells[k]? = some c) :
    ∃ a s', Runs (resolve definitions k) s a s' ∧ s.Grows s' ∧ s'.Legible definitions ∧
      ∀ leaf ∈ Artifact.leaves a, leaf.cell < s'.cells.size := by
  unfold resolve
  cases hresolved : c.resolved with
  | some a =>
      refine ⟨a, s, (Runs.cell hc).bind ?_, .refl s, hs, (hs.cells k c hc).resolved a hresolved⟩
      rw [hresolved]
      exact .pure a s
  | none =>
      obtain ⟨a, s₁, hrun, hgrow, hs₁, hleaves⟩ := run_legible hcomplete hs hc
      have hsize : (s₁.resolveTo k a).cells.size = s₁.cells.size := Array.size_modify
      have hlegible : (s₁.resolveTo k a).Legible definitions :=
        hs₁.modify k (fun _ => ⟨rfl, rfl, rfl⟩) fun _ _ b hb => Option.some.inj hb ▸ hleaves
      refine ⟨a, s₁.resolveTo k a, (Runs.cell hc).bind ?_, hgrow.trans (.resolve s₁ k a),
        hlegible, hsize ▸ hleaves⟩
      rw [hresolved]
      exact hrun.bind ((Runs.update _ s₁).bind (.pure a _))

/-! ## Calls -/

omit [ThoroughArtifact A] in
/-- A store that holds an artifact of its cells is legible. -/
theorem Store.Legible.hold (hs : s.Legible definitions)
    (ha : ∀ leaf ∈ Artifact.leaves a, leaf.cell < s.cells.size) :
    (s.hold a).Legible definitions := by
  refine hs.of_cells rfl fun b hb => ?_
  rcases holds_hold.1 hb with rfl | hb
  · exact ha
  · exact hs.holds b hb

/-- The regime of calls in legible stores: they come across cells of the store, and halt for their
depth only. -/
def legibility (hcomplete : Complete definitions) : Regime A definitions where
  Fine s := s.Legible definitions
  Later := Store.Grows
  May s leaf := leaf.cell < s.cells.size
  Usable s a := ∀ leaf ∈ Artifact.leaves a, leaf.cell < s.cells.size
  Halts halt := halt = .depth
  refl := .refl
  trans h h' := h.trans h'
  ages h := h.ages
  held h := h.held
  may h hmay := h.ages.lt hmay
  depth := rfl
  owner {s k} _ hk leaf hleaf := by
    obtain rfl := Artifact.mem_leaves_owner.1 hleaf
    exact hk
  handle {s k} _ hk _ leaf hleaf := by
    obtain rfl := Artifact.mem_leaves_owner.1 hleaf
    exact hk
  holds hs ha := ⟨hs.hold ha, ha⟩
  resolves {s k} hs hk _ := by
    obtain ⟨c, hc⟩ := exists_cell hk
    obtain ⟨a, s', hrun, hgrow, hs', ha⟩ := resolve_legible hcomplete hs hc
    exact .of_runs hrun ⟨hs', hgrow, ha⟩
  releases {s s' a} hs ha hs' hgrow := by
    refine ⟨hs'.of_cells rfl fun b hb => ?_, .trans (.of_cells rfl) hgrow.ages, rfl, hgrow.writing⟩
    exact hs'.holds b (hb.imp_left fun hb => hgrow.held ▸ List.mem_cons_of_mem _ hb)

omit [ThoroughArtifact A] in
theorem Store.Legible.mark (hs : s.Legible definitions) (k : CellId) (writing : Bool) :
    (s.mark k writing).Legible definitions :=
  hs.modify k (fun _ => ⟨rfl, rfl, rfl⟩) fun c hc => (hs.cells k c hc).resolved

section Sources

variable (hcomplete : Complete definitions) (root : String)

include hcomplete

/-- The source of an artifact of cells of the store, given what those of cells do. -/
theorem sourcing_legible {depth : Nat}
    (hcells : ∀ s k, k < s.cells.size → (legibility (A := A) hcomplete).At s
      ((cellSourcing definitions depth k).node root) ((cellSourcing definitions depth k).node root))
    (ha : ∀ leaf ∈ Artifact.leaves a, leaf.cell < s.cells.size) :
    (legibility hcomplete).At s
      (((Artifact.decoder a).fold (cellSourcing definitions depth)
        (cellSourcing definitions depth)).node root)
      (((Artifact.decoder a).fold (cellSourcing definitions depth)
        (cellSourcing definitions depth)).node root) := by
  refine Blueprint.fold_rel (Sourcing.compatible ((legibility hcomplete).From s) root) _
    (fun leaf hleaf s' hgrow => ?_) s (.refl s)
  have hlt := hgrow.ages.lt (ha leaf (List.mem_append_left _ hleaf))
  cases leaf with
  | owner j => exact hcells s' j hlt
  | handle j => exact hcells s' j hlt

/-- **The source of a cell of a legible store is written**, unless cells are nested too deep. -/
theorem cellSourcing_legible : ∀ (depth : Nat) (s : Store A) (k : CellId), k < s.cells.size →
    (legibility hcomplete).At s ((cellSourcing definitions depth k).node root)
      ((cellSourcing definitions depth k).node root)
  | 0, _, _, _ => Regime.at_throw
  | depth + 1, s, k, hk => by
      intro hs
      refine ⟨rfl, ?_⟩
      obtain ⟨c, hc⟩ := exists_cell hk
      refine .after (.cell hc) ?_
      split
      · exact .of_runs (.pure _ s) ⟨hs, .refl s⟩
      · next hwriting =>
        have hnot : ¬ s.IsWriting k := by
          rintro ⟨d, hd, hwriting'⟩
          obtain rfl : c = d := Option.some.inj (hc.symm.trans hd)
          exact hwriting hwriting'
        obtain ⟨d, hd, _⟩ := s.ages_mark k true k c hc
        obtain ⟨a, s₁, hrun, hgrow, hs₁, ha⟩ := run_legible hcomplete (hs.mark k true) hd
        refine .after (.update _ s) (.after hrun ?_)
        have hbody := (sourcing_legible hcomplete root (cellSourcing_legible depth) ha hs₁).2
        refine hbody.bind fun body s₂ _ ⟨hs₂, hgrow₂⟩ => ?_
        exact .of_runs ((Runs.update _ s₂).bind (.pure _ _))
          ⟨hs₂.mark k false, Store.grows_unmark hc hnot (hgrow.trans hgrow₂)⟩

/-- **The source of an artifact of cells of a legible store is written**, unless cells are nested
too deep, and all marks are as before then. -/
theorem write_legible (depth : Nat) (hs : s.Legible definitions)
    (ha : ∀ leaf ∈ Artifact.leaves a, leaf.cell < s.cells.size) :
    Ensures (write definitions depth root a) s (fun halt => halt = .depth) fun _ s' =>
      s'.Legible definitions ∧ s.Grows s' :=
  (Regime.at_holding (R := legibility hcomplete) ha
    (sourcing_legible hcomplete root (cellSourcing_legible hcomplete root depth)) hs).2

end Sources

/-! ## Requests -/

/-- What an artifact is asked for: an answer to a use, or its source on a root identifier. -/
inductive Request where
  | use (how : Use)
  | source (root : String)

/-- What comes of a request, with cells nested to a depth. -/
def request (definitions : Entries Definition) (artifact : A) (depth : Nat) :
    Request → Run A (Answer ⊕ Node)
  | .use how => do pure (.inl (← use definitions depth artifact how))
  | .source root => do pure (.inr (← write definitions depth root artifact))

/-- **A request in a legible store comes to an end**, unless cells are nested too deep, and leaves
a legible store. -/
theorem request_legible (hcomplete : Complete definitions) (hs : s.Legible definitions)
    (ha : ∀ leaf ∈ Artifact.leaves a, leaf.cell < s.cells.size) (depth : Nat) (what : Request) :
    Ensures (request definitions a depth what) s (fun halt => halt = .depth) fun _ s' =>
      s'.Legible definitions ∧ s.Grows s' := by
  cases what with
  | use how =>
      have huse := (legibility hcomplete).use_ensures depth ha hs how
      exact huse.bind fun answer s' _ hs' => .of_runs (.pure _ s') hs'
  | source root =>
      have hwrite := write_legible hcomplete root depth hs ha
      exact hwrite.bind fun node s' _ hs' => .of_runs (.pure _ s') hs'

/-! ## Histories -/

/-- Building a scoped schema over what is held keeps the store legible. -/
theorem build_legible (hs : s.Legible definitions) {x : Schema A}
    (hx : x.Follows (scoping definitions) []) (hgiven : ∀ b ∈ x.given, s.Holds b)
    (h : Runs (build [] x) s a s') : s'.Legible definitions ∧
      ∀ leaf ∈ Artifact.leaves a, leaf.cell < s'.cells.size := by
  obtain ⟨hadds, hleaves⟩ := build_adds [] x s a s' h
  have hlow : ∀ b ∈ x.given, ∀ leaf ∈ Artifact.leaves b, leaf.cell < s.cells.size :=
    fun b hb => hs.holds b (hgiven b hb)
  constructor
  · refine hs.adds hadds fun j d hj hnew => legibleAt_new hnew hx (by intro _ he; cases he) ?_
    exact fun b hb leaf hleaf => Nat.lt_of_lt_of_le (hlow b hb leaf hleaf) hj
  · exact fun leaf hleaf => (hleaves leaf hleaf).cell_lt hadds.size (by intro _ he; cases he) hlow

/-- **A step of a history keeps the store legible** when it builds scoped schemas and calls do. -/
theorem Conduct.Step.legible {conduct : Conduct A} (hs : s.Legible definitions)
    (hbuilds : ∀ x, conduct.Builds x → x.Follows (scoping definitions) [])
    (hcalls : ∀ a s', s.Holds a → conduct.Calls a s s' → s'.Legible definitions)
    (h : conduct.Step s s') : s'.Legible definitions := by
  obtain ⟨x, a, t, hx, hgiven, hrun, rfl⟩ | ⟨hcells, hholds⟩ | ⟨a, ha, hcall⟩ := h.kinds
  · obtain ⟨ht, ha⟩ := build_legible hs (hbuilds x hx) hgiven hrun
    exact ht.hold ha
  · exact hs.of_cells hcells fun b hb => hs.holds b (hholds b hb)
  · exact hcalls a s' ha hcall

end Lazy
end Schemata
