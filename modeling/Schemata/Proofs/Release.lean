import Schemata.Proofs.Lazy.Tiers

/-!
# Lazy schemas do not keep themselves alive

**Input.**  A history: any schemas are built, used and let go of, over any definitions.

**Algorithm.**  The store stays tiered, and no cell becomes reachable again: over calls by the
regime `ownership`, over histories by their steps.  A cell that no chain of owners leads to any
more is dead then, and remains so.

**Results.**

* `Conduct.Step.tiered`: what one step of a history preserves.
* `Conduct.Reached.tiered` and `Conduct.Leads.sheds`: what a history preserves.
* `released`: chains of owners never come back, and a lazy schema that no held artifact contains is
  gone for ever.
-/

namespace Schemata
namespace Lazy

open Json (Value)
open Relation (ReflTransGen TransGen)

variable {A : Type} [Artifact A]

/-! ## Calls -/

namespace Store

variable {s s' s'' : Store A} {k : CellId}

/-- A chain of owners leads to a cell from what calls and clones hold. -/
def Attains (s : Store A) (k : CellId) : Prop := ∃ r ∈ owned s.held, ReflTransGen s.Keeps r k

theorem Attains.reaches (h : s.Attains k) : s.Reaches k := by
  obtain ⟨r, hr, hchain⟩ := h
  exact ⟨r, List.mem_append_left _ hr, hchain⟩

/-- A store after a call: nothing else is held, what was kept is kept, and no cell has become
reachable again. -/
structure Fades (s s' : Store A) : Prop extends s.Sheds s' where
  held : s'.held = s.held
  keeps : ∀ i j, s.Keeps i j → s'.Keeps i j

theorem Fades.attains (h : s.Fades s') (hk : s.Attains k) : s'.Attains k := by
  obtain ⟨r, hr, hchain⟩ := hk
  exact ⟨r, h.held ▸ hr, ReflTransGen.mono h.keeps _ _ hchain⟩

theorem Fades.refl (s : Store A) : s.Fades s where
  ages := .of_cells rfl
  reaches _ _ h := h
  held := rfl
  keeps _ _ h := h

theorem Fades.trans (h : s.Fades s') (h' : s'.Fades s'') : s.Fades s'' where
  toSheds := h.toSheds.trans h'.toSheds
  held := h'.held.trans h.held
  keeps i j hij := h'.keeps i j (h.keeps i j hij)

end Store

open Store

variable [ThoroughArtifact A] {definitions : Entries Definition} {s s' : Store A} {k : CellId}

/-- **Resolving a cell that is reachable keeps the store tiered**, and what the cell has resolved
to is reachable by it. -/
theorem resolve_fades (hfine : ∃ tier, s.Tiered tier) (hk : s.Attains k) {a : A}
    (h : Runs (resolve definitions k) s a s') :
    (∃ tier, s'.Tiered tier) ∧ s.Fades s' ∧
      ∀ j, .owner j ∈ Artifact.leaves a → s'.Attains j := by
  obtain ⟨tier, htiered⟩ := hfine
  obtain ⟨c, hc, ⟨hresolved, rfl⟩ | ⟨hresolved, hres⟩⟩ := resolve_cases h
  · refine ⟨⟨tier, htiered⟩, .refl s', fun j hj => ?_⟩
    obtain ⟨r, hr, hchain⟩ := hk
    exact ⟨r, hr, hchain.tail ((keeps_iff hc).2 (.inl ⟨a, hresolved, hj⟩))⟩
  · have hscope := (htiered.cells k c hc).scope
    have hfades : s.Fades s' := {
      toSheds := hres.sheds hc hk.reaches hscope
      held := hres.held
      keeps := fun _ _ => hres.keeps hc hresolved }
    refine ⟨⟨_, htiered.resolves hc hres⟩, hfades, fun j hj => ?_⟩
    obtain ⟨r, hr, hchain⟩ := hfades.attains hk
    exact ⟨r, hr, hchain.tail ((keeps_iff hres.self).2 (.inl ⟨a, rfl, hj⟩))⟩

/-- The regime of calls in tiered stores: they come across cells that are attained. -/
def ownership (definitions : Entries Definition) : Regime A definitions where
  Fine s := ∃ tier, s.Tiered tier
  Later := Store.Fades
  May s leaf := ∀ k, leaf = .owner k → s.Attains k
  Usable s a := ∀ k, .owner k ∈ Artifact.leaves a → s.Reaches k
  Halts _ := True
  refl := .refl
  trans := .trans
  ages h := h.ages
  held h := h.held
  may h hmay k hk := h.attains (hmay k hk)
  depth := trivial
  owner {s k} _ hmay j hj := by
    obtain rfl : j = k := by simpa using Artifact.mem_leaves_owner.1 hj
    exact (hmay j rfl).reaches
  handle {s k} _ _ halive j hj := by
    obtain rfl : j = k := by simpa using Artifact.mem_leaves_owner.1 hj
    exact reaches_of_isAlive halive
  holds {s a} hfine ha := by
    obtain ⟨tier, htiered⟩ := hfine
    refine ⟨⟨tier, htiered.of_cells rfl fun r hr => ?_⟩, ?_⟩
    · rcases mem_roots_hold.1 hr with hr | hr
      · exact htiered.lt_of_reaches (ha r hr)
      · exact htiered.roots r hr
    · rintro _ hleaf k rfl
      exact ⟨k, mem_owned.2 ⟨a, List.mem_cons_self, hleaf⟩, .refl⟩
  resolves {s k} hfine hmay _ := .of_forall fun a s' hrun => by
    obtain ⟨hfine', hfades, hleaves⟩ := resolve_fades hfine (hmay k rfl) hrun
    refine ⟨hfine', hfades, ?_⟩
    rintro _ hleaf j rfl
    exact hleaves j hleaf
  releases {s s' a} _ ha hfine' hfades := by
    obtain ⟨tier, htiered⟩ := hfine'
    have hroots : Store.roots { s' with held := s.held } ⊆ s'.roots :=
      roots_mono fun b hb => hb.imp_left fun hb => hfades.held ▸ List.mem_cons_of_mem _ hb
    refine ⟨⟨tier, htiered.of_cells rfl fun r hr => htiered.roots r (hroots hr)⟩, ?_⟩
    refine ⟨⟨hfades.ages, fun k hk hreaches => ?_⟩, rfl, hfades.keeps⟩
    -- What is reachable from what was held and from the artifact was so without the artifact.
    have hreaches' : s'.Reaches k := hreaches.imp (fun r hr => .root (hroots hr)) fun _ _ => id
    refine (hfades.reaches k hk hreaches').imp (fun r hr => ?_) fun _ _ => id
    exact (mem_roots_hold.1 hr).elim (ha r) .root

/-! ## Histories -/

/-- Building a schema over what is held keeps the store tiered, and holding the artifact makes no
cell reachable again. -/
theorem build_tiered {tier : CellId → Nat} (htiered : s.Tiered tier) {x : Schema A} {a : A}
    (hgiven : ∀ b ∈ x.given, s.Holds b) (h : Runs (build [] x) s a s') :
    (∃ tier, (s'.hold a).Tiered tier) ∧ s.Sheds (s'.hold a) := by
  obtain ⟨hadds, hleaves⟩ := build_adds [] x s a s' h
  have hreaches : ∀ i ∈ owned x.given, s.Reaches i := by
    intro i hi
    obtain ⟨b, hb, hi⟩ := mem_owned.1 hi
    exact .root (mem_roots.2 ⟨b, hgiven b hb, hi⟩)
  -- What is held now was reachable, or is a new cell of the artifact.
  have hroots : ∀ r ∈ (s'.hold a).roots,
      s.cells.size ≤ r ∧ r < s'.cells.size ∨ s.Reaches r := by
    intro r hr
    rcases mem_roots_hold.1 hr with hr | hr
    · cases hleaves _ hr with
      | new hlow hhigh => exact .inl ⟨hlow, hhigh⟩
      | scope he _ => cases he
      | given hb hleaf => exact .inr (hreaches r (mem_owned.2 ⟨_, hb, hleaf⟩))
    · exact .inr (.root (by rwa [roots, hadds.held, hadds.names] at hr))
  have htiered' := htiered.adds hadds fun i hi => htiered.lt_of_reaches (hreaches i hi)
  refine ⟨⟨_, htiered'.of_cells rfl fun r hr => ?_⟩, hadds.sheds hreaches rfl fun r hr hlt => ?_⟩
  · rcases hroots r hr with ⟨_, hr⟩ | hr
    · exact hr
    · exact Nat.lt_of_lt_of_le (htiered.lt_of_reaches hr) hadds.size
  · rcases hroots r hr with ⟨hr, _⟩ | hr
    · exact absurd hlt (Nat.not_lt_of_le hr)
    · exact hr

namespace Conduct

/-- **A step of a history keeps the store tiered**, and makes no cell reachable again. -/
theorem Step.tiered (hfine : ∃ tier, s.Tiered tier) (h : (uses definitions).Step s s') :
    (∃ tier, s'.Tiered tier) ∧ s.Sheds s' := by
  obtain ⟨tier, htiered⟩ := hfine
  obtain ⟨x, a, t, _, hgiven, hrun, rfl⟩ | ⟨hcells, hholds⟩ | ⟨a, ha, depth, how, answer, hrun⟩ :=
    h.kinds
  · exact build_tiered htiered hgiven hrun
  · have hroots := roots_mono hholds
    exact ⟨⟨tier, htiered.of_cells hcells fun r hr => htiered.roots r (hroots hr)⟩,
      .of_cells hcells fun r hr => .root (hroots hr)⟩
  · have husable : (ownership definitions).Usable s a :=
      fun k hk => .root (mem_roots.2 ⟨a, ha, hk⟩)
    have hensures := Regime.use_ensures depth husable ⟨tier, htiered⟩ how
    obtain ⟨hfine', hfades⟩ := hensures.runs hrun
    exact ⟨hfine', hfades.toSheds⟩

/-- **The store of a history is tiered.** -/
theorem Reached.tiered (h : (uses definitions).Reached s) : ∃ tier, s.Tiered tier := by
  refine h.induction (p := fun s => ∃ tier, s.Tiered tier) ⟨fun k => k, ?_⟩ fun _ _ hs hstep =>
    (hstep.tiered hs).1
  exact ⟨fun k c hc => by simp at hc, fun r hr => by simp [roots, owned] at hr⟩

/-- **As a history goes on no cell becomes reachable again.** -/
theorem Leads.sheds (hs : (uses definitions).Reached s) (h : (uses definitions).Leads s s') :
    s.Sheds s' := by
  refine (h.induction (p := fun s' => (∃ tier, s'.Tiered tier) ∧ s.Sheds s')
    ⟨hs.tiered, .of_cells rfl fun _ => .root⟩ fun _ _ hs hstep => ?_).2
  obtain ⟨htiered, hsheds⟩ := hstep.tiered hs.1
  exact ⟨htiered, hs.2.trans hsheds⟩

end Conduct

/-! ## Dead handles -/

/-- A handle to which no chain of owners leads is dead, and stays so while it is used. -/
theorem dead_hold (hk : ¬ s.Reaches k) : (s.hold (Artifact.handle k)).isAlive k = false := by
  refine Bool.eq_false_iff.2 fun halive => hk ?_
  refine (reaches_of_isAlive halive).imp (fun r hr => ?_) fun _ _ => id
  exact .root ((mem_roots_hold.1 hr).resolve_left not_owner_handle)

/-- A use of a dead handle answers at once, and leaves the store as it is. -/
theorem dead_runs {α : Type} (hk : ¬ s.Reaches k) {x : Run A α} (b : α) :
    Runs (holding (Artifact.handle k) (do if (← get).isAlive k then x else pure b)) s b s := by
  have hcall : Runs (do if (← get).isAlive k then x else pure b) (s.hold (Artifact.handle k)) b
      (s.hold (Artifact.handle k)) := by
    refine (Runs.get _).bind ?_
    rw [dead_hold hk]
    exact .pure b _
  exact (hcall.holding (.refl _)).1

/-- **A resolved recursive artifact does not keep itself alive.** -/
theorem released (hs : (Conduct.uses definitions).Reached s) :
    (∀ k, ¬ TransGen s.Keeps k k) ∧ (∀ k, s.isAlive k = true ↔ s.Survives k) ∧
    ∀ k c, s.cells[k]? = some c → (∀ a, s.Holds a → ¬ s.Contains a k) →
      ∀ s', (Conduct.uses definitions).Leads s s' →
        s'.isAlive k = false ∧ ¬ s'.Survives k ∧ ∀ depth value,
          Runs (decode definitions depth (Artifact.handle k) value) s'
            (.error (.leaf value deadLabel)) s' ∧
          Runs (encode definitions depth (Artifact.handle k) value) s' value s' ∧
          Runs (accepts definitions depth (Artifact.handle k) value) s' false s' := by
  obtain ⟨tier, htiered⟩ := hs.tiered
  refine ⟨fun k => htiered.acyclic, fun k => htiered.isAlive_iff.trans htiered.survives_iff.symm,
    fun k c hc hnone s' hleads => ?_⟩
  have hgone : ¬ s'.Reaches k := by
    intro hreaches
    obtain ⟨a, ha, hcontains⟩ :=
      reaches_iff.1 ((Conduct.Leads.sheds hs hleads).reaches k (lt_size hc) hreaches)
    exact hnone a ha hcontains
  obtain ⟨tier', htiered'⟩ := (hs.leads hleads).tiered
  refine ⟨Bool.eq_false_iff.2 fun halive => hgone (reaches_of_isAlive halive),
    fun h => hgone (htiered'.survives_iff.1 h), fun depth value => ?_⟩
  rw [decode, encode, accepts, encoding, LawfulArtifact.decoder_handle,
    LawfulArtifact.encoder_handle, Blueprint.fold, Blueprint.fold]
  exact ⟨dead_runs hgone _, dead_runs hgone _, dead_runs hgone _⟩

/-- Lists of lists, to any depth; the handle of the lazy schema is kept when its definition runs. -/
def lists : Schema Codec := .lazy "List" "List" (.array (.self "List")) (some "kept")

/-- A codec of lists that has decoded one is forgotten; the handle that is kept from it refuses
every value. -/
theorem lists_released :
    ∃ s : Store Codec, (Conduct.uses []).Reached s ∧ s.names = [("kept", Artifact.handle 0)] ∧
      s.runs = [0] ∧ s.isAlive 0 = false ∧ ¬ s.Survives 0 ∧
      Runs (decode [] 1 (Artifact.handle 0) (.array [])) s
        (.error (.leaf (.array []) deadLabel)) s := by
  let unresolved : Cell Codec :=
    ⟨"List", .schema "List" (.array (.self "List")) (some "kept"), [], none, false⟩
  let resolved : Cell Codec :=
    { unresolved with resolved := some (Vocabulary.array (Artifact.handle 0)) }
  let held : Store Codec := ⟨#[unresolved], [], [Artifact.owner 0], []⟩
  let named : Store Codec := { held with names := [("lists", Artifact.owner 0)] }
  let built : Store Codec := { named with held := [] }
  let decoded : Store Codec :=
    ⟨#[resolved], [("lists", Artifact.owner 0), ("kept", Artifact.handle 0)], [], [0]⟩
  let forgotten : Store Codec := ⟨#[resolved], [("kept", Artifact.handle 0)], [], [0]⟩
  have hrun : Runs (build [] lists) {} (Artifact.owner 0) ⟨#[unresolved], [], [], []⟩ := rfl
  have hbuild : (Conduct.uses []).Step ({} : Store Codec) held :=
    .build trivial (by simp [lists, Schema.given]) hrun
  have hname : (Conduct.uses []).Step held named := .name "lists" (.inl List.mem_cons_self)
  have hdrop : (Conduct.uses []).Step named built := .drop (List.nil_sublist _)
  have huse : Runs (use [] 2 (Artifact.owner 0) (.decode (.array [.array []]))) built
      (.decoded (.ok (.array [.array []]))) decoded := rfl
  have hdecode : (Conduct.uses []).Step built decoded :=
    .call (.inr ⟨"lists", List.mem_cons_self⟩) ⟨_, _, _, huse⟩
  have hforget : (Conduct.uses []).Step decoded forgotten := .forget "lists"
  have hreached : (Conduct.uses []).Reached forgotten :=
    ((((ReflTransGen.single hbuild).tail hname).tail hdrop).tail hdecode).tail hforget
  have hnone : ∀ a, forgotten.Holds a → ¬ forgotten.Contains a 0 := by
    rintro a (ha | ⟨name, ha⟩) ⟨r, hr, _⟩
    · cases ha
    · obtain rfl := (Prod.mk.inj (List.mem_singleton.1 ha)).2
      exact not_owner_handle hr
  obtain ⟨_, _, hdead⟩ := released hreached
  obtain ⟨halive, hsurvives, hrefuses⟩ := hdead 0 resolved rfl hnone forgotten .refl
  exact ⟨forgotten, hreached, rfl, rfl, halive, hsurvives, (hrefuses 1 (.array [])).1⟩

end Lazy
end Schemata
