import Schemata.Proofs.Lazy.History
import Schemata.Proofs.Lazy.Ownership

/-!
# Tiers as stores change

Resolving a cell adds to the tier of the cell, and building a schema begins a new tier.  Neither
makes a cell reachable that was not before: what a body mentions is kept by its cell, and what a
schema mentions is held while it is built.

**Results.**

* `Store.reaches_iff`: chains of owners lead to the cells that held artifacts contain.
* `Store.Tiered.resolves` and `Store.Tiered.adds`: the store stays tiered.
* `Store.Resolves.sheds` and `Store.Adds.sheds`: no cell becomes reachable again (`Store.Sheds`).
-/

namespace Schemata
namespace Lazy

open Relation (ReflTransGen)

variable {A : Type} [Artifact A]

/-! ## Roots -/

namespace Store

variable {s s' s'' : Store A} {j k : CellId} {a : A}

theorem mem_roots : k ∈ s.roots ↔ ∃ a, s.Holds a ∧ .owner k ∈ Artifact.leaves a := by
  rw [roots, List.mem_append, mem_owned, mem_owned]
  constructor
  · rintro (⟨a, ha, hk⟩ | ⟨a, ha, hk⟩)
    · exact ⟨a, .inl ha, hk⟩
    · obtain ⟨entry, hentry, rfl⟩ := List.mem_map.1 ha
      exact ⟨entry.2, .inr ⟨entry.1, hentry⟩, hk⟩
  · rintro ⟨a, ha | ⟨name, ha⟩, hk⟩
    · exact .inl ⟨a, ha, hk⟩
    · exact .inr ⟨a, List.mem_map.2 ⟨(name, a), ha, rfl⟩, hk⟩

theorem roots_mono (h : ∀ b, s'.Holds b → s.Holds b) : s'.roots ⊆ s.roots := by
  intro r hr
  obtain ⟨b, hb, hr⟩ := mem_roots.1 hr
  exact mem_roots.2 ⟨b, h b hb, hr⟩

theorem mem_roots_hold : k ∈ (s.hold a).roots ↔ .owner k ∈ Artifact.leaves a ∨ k ∈ s.roots := by
  simp only [mem_roots, holds_hold, or_and_right, exists_or, exists_eq_left]

/-- An artifact contains a cell that it owns, or that a chain of owners leads to from there. -/
def Contains (s : Store A) (a : A) (k : CellId) : Prop :=
  ∃ r, .owner r ∈ Artifact.leaves a ∧ ReflTransGen s.Keeps r k

theorem reaches_iff : s.Reaches k ↔ ∃ a, s.Holds a ∧ s.Contains a k := by
  constructor
  · rintro ⟨r, hr, hchain⟩
    obtain ⟨a, ha, hr⟩ := mem_roots.1 hr
    exact ⟨a, ha, r, hr, hchain⟩
  · rintro ⟨a, ha, r, hr, hchain⟩
    exact ⟨r, mem_roots.2 ⟨a, ha, hr⟩, hchain⟩

/-- A store in which no less is reachable and no less is kept. -/
theorem Reaches.imp (h : s.Reaches k) (hroots : ∀ r ∈ s.roots, s'.Reaches r)
    (hkeeps : ∀ i j, s.Keeps i j → s'.Keeps i j) : s'.Reaches k :=
  h.induction hroots fun i j hi hij => hi.keeps (hkeeps i j hij)

theorem Tiered.lt_of_reaches {tier : CellId → Nat} (h : s.Tiered tier) (hk : s.Reaches k) :
    k < s.cells.size :=
  hk.induction h.roots fun _ _ _ hkeeps => (h.keeps hkeeps).2.1

/-- A tiered store stays tiered when no cell changes and what is held is of cells of the store. -/
theorem Tiered.of_cells {tier : CellId → Nat} (h : s.Tiered tier) (hcells : s'.cells = s.cells)
    (hroots : ∀ r ∈ s'.roots, r < s.cells.size) : s'.Tiered tier where
  cells j c hc := by
    rw [hcells] at hc
    obtain ⟨htier, hscope, hgiven, hresolved⟩ := h.cells j c hc
    exact ⟨htier, hscope, hgiven, hcells ▸ hresolved⟩
  roots r hr := hcells ▸ hroots r hr

theorem keeps_of_cells (hcells : s'.cells = s.cells) : s'.Keeps = s.Keeps := by
  funext i j
  rw [Keeps, Keeps, kept, kept, hcells]

/-- A later store in which no cell has become reachable again. -/
structure Sheds (s s' : Store A) : Prop where
  ages : s.Ages s'
  reaches : ∀ k, k < s.cells.size → s'.Reaches k → s.Reaches k

theorem Sheds.trans (h : s.Sheds s') (h' : s'.Sheds s'') : s.Sheds s'' where
  ages := h.ages.trans h'.ages
  reaches k hk hreaches := h.reaches k hk (h'.reaches k (h.ages.lt hk) hreaches)

/-- No cell becomes reachable when the roots and the cells that are kept were reachable, or are
new, or were kept already. -/
theorem Sheds.of_keeps (hage : s.Ages s')
    (hroots : ∀ r ∈ s'.roots, r < s.cells.size → s.Reaches r)
    (hkeeps : ∀ i j, s'.Keeps i j → j < s.cells.size → s.Keeps i j ∨ s.Reaches j) :
    s.Sheds s' where
  ages := hage
  reaches k hk hreaches := by
    refine hreaches.induction (p := fun i => i < s.cells.size → s.Reaches i) hroots
      (fun i j hi hij hj => ?_) hk
    rcases hkeeps i j hij hj with hij | hj
    · obtain ⟨c, hc⟩ := hij.exists_cell
      exact (hi (lt_size hc)).keeps hij
    · exact hj

/-- No cell becomes reachable when nothing new is held. -/
theorem Sheds.of_cells (hcells : s'.cells = s.cells) (hroots : ∀ r ∈ s'.roots, s.Reaches r) :
    s.Sheds s' where
  ages := .of_cells hcells
  reaches _ _ h := h.imp hroots fun _ _ => by rw [keeps_of_cells hcells]; exact id

end Store

/-! ## Tiers over steps -/

namespace Store

variable {s s' : Store A} {tier : CellId → Nat} {first : Nat} {j k : CellId} {c d : Cell A}

omit [Artifact A] in
/-- The tiers of a store to which cells are added in a tier. -/
def extend (s : Store A) (tier : CellId → Nat) (first : Nat) (j : CellId) : Nat :=
  if j < s.cells.size then tier j else first

omit [Artifact A] in
theorem extend_old (hj : j < s.cells.size) : s.extend tier first j = tier j := if_pos hj

omit [Artifact A] in
theorem extend_new (hj : s.cells.size ≤ j) : s.extend tier first j = first :=
  if_neg (Nat.not_lt_of_le hj)

theorem TieredAt.extend (h : s.TieredAt tier j c) (first : Nat) (hj : j < s.cells.size)
    (hsize : s.cells.size ≤ s'.cells.size) : s'.TieredAt (s.extend tier first) j c where
  tier_le := by rw [extend_old hj]; exact h.tier_le
  scope := h.scope
  given := by rw [extend_old hj]; exact h.given
  resolved a ha i hi := by
    obtain ⟨hlt, htier⟩ := h.resolved a ha i hi
    rw [extend_old hj, extend_old hlt]
    exact ⟨Nat.lt_of_lt_of_le hlt hsize, htier⟩

/-- A new cell is of the tier that is going on. -/
theorem tieredAt_new {scope : List (String × A)} {given : List A} {follows : Schema.Rule → Prop}
    (hnew : d.New scope given follows) (hj : s.cells.size ≤ j) (hfirst : first ≤ s.cells.size)
    (hscope : ∀ e ∈ scope, ∃ i, e.2 = Artifact.handle i) (hgiven : ∀ i ∈ owned given, i < first) :
    s'.TieredAt (s.extend tier first) j d where
  tier_le := by rw [extend_new hj]; exact Nat.le_trans hfirst hj
  scope := by rw [hnew.scope]; exact hscope
  given i hi := by
    obtain ⟨b, hb, hi⟩ := mem_owned.1 hi
    rw [extend_new hj]
    exact hgiven i (mem_owned.2 ⟨b, hnew.given hb, hi⟩)
  resolved a ha := by
    rw [hnew.resolved] at ha
    cases ha

variable {definitions : Entries Definition} {a : A} [ThoroughArtifact A]

theorem not_owner_handle : .owner j ∉ Artifact.leaves (Artifact.handle k : A) := by
  simp [Artifact.mem_leaves_handle]

/-- Nothing more is held when a cell has resolved. -/
theorem Resolves.roots (h : s.Resolves definitions k c a s') : s'.roots ⊆ s.roots := by
  intro j hj
  obtain ⟨b, hb, hj⟩ := mem_roots.1 hj
  rcases hb with hb | hb
  · exact mem_roots.2 ⟨b, .inl (h.held ▸ hb), hj⟩
  · rw [h.names] at hb
    rcases names_enter hb with rfl | hb
    · exact absurd hj not_owner_handle
    · exact mem_roots.2 ⟨b, .inr hb, hj⟩

/-- What a cell resolves to owns new cells, and cells that its body mentions. -/
theorem Resolves.owner (h : s.Resolves definitions k c a s')
    (hscope : ∀ e ∈ c.scope, ∃ i, e.2 = Artifact.handle i) (hj : .owner j ∈ Artifact.leaves a) :
    s.cells.size ≤ j ∧ j < s'.cells.size ∨ j ∈ owned c.body.given := by
  cases h.leaves _ hj with
  | new hj hj' => exact .inl ⟨hj, hj'⟩
  | scope he hleaf =>
      rcases List.mem_cons.1 he with rfl | he
      · exact absurd hleaf not_owner_handle
      · obtain ⟨i, hi⟩ := hscope _ he
        rw [hi] at hleaf
        exact absurd hleaf not_owner_handle
  | given hb hleaf => exact .inr (mem_owned.2 ⟨_, hb, hleaf⟩)

/-- **Resolving a cell adds to its tier.** -/
theorem Tiered.resolves (h : s.Tiered tier) (hc : s.cells[k]? = some c)
    (hres : s.Resolves definitions k c a s') : s'.Tiered (s.extend tier (tier k)) where
  cells j d hd := by
    have hk := h.cells k c hc
    have hlt : k < s.cells.size := lt_size hc
    by_cases hj : j < s.cells.size
    · by_cases hjk : j = k
      · subst hjk
        obtain rfl : _ = d := Option.some.inj (hres.self.symm.trans hd)
        have hold := hk.extend (tier j) hj hres.size
        refine ⟨hold.tier_le, hold.scope, hold.given, fun b hb i hi => ?_⟩
        obtain rfl := Option.some.inj hb
        rw [extend_old hj]
        rcases hres.owner hk.scope hi with ⟨hi, hi'⟩ | hi
        · rw [extend_new hi]
          exact ⟨hi', .inr ⟨rfl, Nat.lt_of_lt_of_le hj hi⟩⟩
        · have hi := hk.given i hi
          have hle : i < s.cells.size := Nat.lt_trans (Nat.lt_of_lt_of_le hi hk.tier_le) hj
          exact ⟨Nat.lt_of_lt_of_le hle hres.size, .inl hi⟩
      · rw [hres.old j hj hjk] at hd
        exact (h.cells j d hd).extend _ hj hres.size
    · have hj := Nat.le_of_not_lt hj
      refine tieredAt_new (hres.new j d hj hd) hj (Nat.le_of_lt (Nat.lt_of_le_of_lt hk.tier_le hlt))
        (fun e he => ?_) hk.given
      rcases List.mem_cons.1 he with rfl | he
      · exact ⟨k, rfl⟩
      · exact hk.scope e he
  roots r hr := Nat.lt_of_lt_of_le (h.roots r (hres.roots hr)) hres.size

omit [ThoroughArtifact A] in
/-- **Building a schema begins a tier.** -/
theorem Tiered.adds (h : s.Tiered tier) {given : List A} {follows : Schema.Rule → Prop}
    (hadds : s.Adds [] given follows s') (hgiven : ∀ i ∈ owned given, i < s.cells.size) :
    s'.Tiered (s.extend tier s.cells.size) where
  cells j d hd := by
    by_cases hj : j < s.cells.size
    · rw [hadds.old j hj] at hd
      exact (h.cells j d hd).extend _ hj hadds.size
    · have hj := Nat.le_of_not_lt hj
      exact tieredAt_new (hadds.new j d hj hd) hj (Nat.le_refl _) (fun _ he => nomatch he) hgiven
  roots r hr := by
    rw [Store.roots, hadds.names, hadds.held] at hr
    exact Nat.lt_of_lt_of_le (h.roots r hr) hadds.size

omit [ThoroughArtifact A] in
/-- A new cell keeps what its body mentions. -/
theorem keeps_new {scope : List (String × A)} {given : List A} {follows : Schema.Rule → Prop}
    (hd : s'.cells[j]? = some d) (hnew : d.New scope given follows) {i : CellId}
    (h : s'.Keeps j i) : i ∈ owned given := by
  rcases (keeps_iff hd).1 h with ⟨b, hb, _⟩ | hmem
  · rw [hnew.resolved] at hb
    cases hb
  · obtain ⟨b, hb, hi⟩ := mem_owned.1 hmem
    exact mem_owned.2 ⟨b, hnew.given hb, hi⟩

/-- No cell becomes reachable when one resolves that is. -/
theorem Resolves.sheds (hc : s.cells[k]? = some c) (hk : s.Reaches k)
    (hscope : ∀ e ∈ c.scope, ∃ i, e.2 = Artifact.handle i)
    (hres : s.Resolves definitions k c a s') : s.Sheds s' := by
  have hgiven {i : CellId} (hi : i ∈ owned c.body.given) : s.Reaches i :=
    hk.keeps ((keeps_iff hc).2 (.inr hi))
  refine .of_keeps (hres.grows hc).ages (fun r hr _ => .root (hres.roots hr)) fun i j hij hj => ?_
  obtain ⟨d, hd⟩ := hij.exists_cell
  by_cases hi : i < s.cells.size
  · by_cases hik : i = k
    · subst hik
      rcases (keeps_iff hres.self).1 hij with ⟨b, hb, howner⟩ | hmem
      · obtain rfl := Option.some.inj hb
        rcases hres.owner hscope howner with ⟨hnew, _⟩ | hmem
        · exact absurd hj (Nat.not_lt_of_le hnew)
        · exact .inr (hgiven hmem)
      · exact .inr (hgiven hmem)
    · rw [Keeps, kept, hres.old i hi hik] at hij
      exact .inl hij
  · have hi := Nat.le_of_not_lt hi
    exact .inr (hgiven (keeps_new hd (hres.new i d hi hd) hij))

omit [ThoroughArtifact A] in
/-- No cell becomes reachable when a schema is built over what is reachable, and the artifact is
held. -/
theorem Adds.sheds {given : List A} {follows : Schema.Rule → Prop} {s'' : Store A}
    (hadds : s.Adds [] given follows s') (hgiven : ∀ i ∈ owned given, s.Reaches i)
    (hcells : s''.cells = s'.cells)
    (hroots : ∀ r ∈ s''.roots, r < s.cells.size → s.Reaches r) : s.Sheds s'' := by
  have hage : s'.Ages s'' := .of_cells hcells
  refine .of_keeps (hadds.grows.ages.trans hage) hroots fun i j hij _ => ?_
  rw [keeps_of_cells hcells] at hij
  obtain ⟨d, hd⟩ := hij.exists_cell
  by_cases hi : i < s.cells.size
  · rw [Keeps, kept, hadds.old i hi] at hij
    exact .inl hij
  · have hi := Nat.le_of_not_lt hi
    exact .inr (hgiven j (keeps_new hd (hadds.new i d hi hd) hij))

omit [ThoroughArtifact A] in
/-- What a cell keeps it goes on to keep when one resolves. -/
theorem Resolves.keeps (hc : s.cells[k]? = some c) (hresolved : c.resolved = none)
    (hres : s.Resolves definitions k c a s') {i : CellId} (h : s.Keeps i j) : s'.Keeps i j := by
  obtain ⟨d, hd⟩ := h.exists_cell
  by_cases hik : i = k
  · subst hik
    obtain rfl : c = d := Option.some.inj (hc.symm.trans hd)
    rcases (keeps_iff hc).1 h with ⟨b, hb, _⟩ | hmem
    · rw [hresolved] at hb
      cases hb
    · exact (keeps_iff hres.self).2 (.inr hmem)
  · have hold := hres.old i (lt_size hd) hik
    rw [Keeps, kept, hold]
    exact h

end Store

end Lazy
end Schemata
