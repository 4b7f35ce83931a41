import Schemata.Document.Meaning
import Schemata.Lazy.Running
import Schemata.Proofs.Correspondence
import Schemata.Proofs.Lazy.Simulation

/-!
# Writing the source of cells

While the source of a body is being written, the cells that are being written are
those around the body.  So a new cell inside of the body is written out, with its
definition, and a handle is a call of the function of its cell: the same that the plain
source of a name does by the list of names around it.

**Results.**

* `Store.Binds.unique`: a scope is bound with one list of ids.
* `leaf_sourcing`: the source of a leaf is the plain source of its name.
* `write_runs`: an artifact that owns a cell outside of all others has the plain source
  of the id of the cell.
-/

namespace Schemata
namespace Lazy

variable {A : Type} [Artifact A]

/-! ## What is being written -/

/-- The cells that are being written are those of which a scope has handles. -/
def Store.Writes (s : Store A) (scope : List (String × A)) : Prop :=
  ∀ k, s.IsWriting k ↔ ∃ name, (name, Artifact.handle k) ∈ scope

variable {s s' : Store A} {scope : List (String × A)} {ids : List (String × String)}
  {k : CellId} {c : Cell A}

theorem Store.Writes.grows (hgrow : s.Grows s') (h : s.Writes scope) : s'.Writes scope :=
  fun k => (hgrow.writing k).trans (h k)

/-- The store in which a cell is marked as being written, or not. -/
def Store.mark (s : Store A) (k : CellId) (writing : Bool) : Store A :=
  { s with cells := s.cells.modify k fun c => { c with writing } }

omit [Artifact A] in
theorem Store.cells_mark (s : Store A) (k j : CellId) (writing : Bool) :
    (s.mark k writing).cells[j]? =
      if k = j then s.cells[j]?.map fun c => { c with writing } else s.cells[j]? :=
  Array.getElem?_modify

omit [Artifact A] in
theorem Store.isWriting_start (hc : s.cells[k]? = some c) (j : CellId) :
    (s.mark k true).IsWriting j ↔ j = k ∨ s.IsWriting j := by
  rw [IsWriting, Store.cells_mark]
  by_cases hj : k = j
  · subst hj
    simp [hc]
  · have hj' : j ≠ k := fun h => hj h.symm
    rw [if_neg hj]
    simp [hj', IsWriting]

omit [Artifact A] in
theorem Store.isWriting_stop (s : Store A) (k j : CellId) :
    (s.mark k false).IsWriting j ↔ j ≠ k ∧ s.IsWriting j := by
  rw [IsWriting, Store.cells_mark]
  by_cases hj : k = j
  · subst hj
    simp
  · have hj' : j ≠ k := fun h => hj h.symm
    rw [if_neg hj]
    simp [hj', IsWriting]

omit [Artifact A] in
theorem Store.ages_mark (s : Store A) (k : CellId) (writing : Bool) : s.Ages (s.mark k writing) :=
  .modify s k fun _ => ⟨rfl, rfl, rfl⟩

omit [Artifact A] in
/-- A store has grown when a cell was marked, calls went on, and the mark is taken away. -/
theorem Store.grows_unmark (hc : s.cells[k]? = some c) (hnot : ¬ s.IsWriting k)
    (hgrow : (s.mark k true).Grows s') : s.Grows (s'.mark k false) where
  ages := (s.ages_mark k true).trans (hgrow.ages.trans (s'.ages_mark k false))
  held := hgrow.held
  writing j := by
    rw [Store.isWriting_stop, hgrow.writing j, Store.isWriting_start hc]
    constructor
    · rintro ⟨hj, h | h⟩
      · exact absurd h hj
      · exact h
    · intro h
      refine ⟨?_, .inr h⟩
      rintro rfl
      exact hnot h

variable {document : Document} {definitions : Entries Definition}

theorem Store.Sound.mark (h : s.Sound document definitions) (k : CellId) (writing : Bool) :
    (s.mark k writing).Sound document definitions :=
  h.modify k (fun _ => ⟨rfl, rfl, rfl⟩) fun c hc a ha => (h k c hc).2 a ha

/-! ## Leaves -/

variable [LawfulArtifact A]

/-- A scope is bound with one list of ids. -/
theorem Store.Binds.unique {ids' : List (String × String)} (h : s.Binds scope ids)
    (h' : s.Binds scope ids') : ids = ids' := by
  induction h generalizing ids' with
  | nil =>
      cases h'
      rfl
  | @cons k c ids hc _ ih =>
      generalize hscope : c.inner k = scope at h'
      cases h' with
      | nil => cases hscope
      | @cons j d ids' hd hids =>
          obtain ⟨hhead, htail⟩ := List.cons.inj hscope
          obtain rfl := LawfulArtifact.handle_injective (Prod.mk.inj hhead).2
          obtain rfl : c = d := Option.some.inj (hc.symm.trans hd)
          rw [ih hids]

/-- A cell inside of a scope is none of the cells around. -/
theorem Store.Binds.not_mem (h : s.Binds c.scope ids) (hc : s.cells[k]? = some c)
    (name : String) : (name, Artifact.handle k) ∉ c.scope := by
  intro hmem
  obtain ⟨j, d, hhandle, hd, _, hlength, _⟩ := h.entry hmem
  obtain rfl := LawfulArtifact.handle_injective hhandle
  obtain rfl : c = d := Option.some.inj (hc.symm.trans hd)
  omega

/-- Running a marked cell gives what the cell is for, in the scope that is then being
written. -/
theorem marked_runs (hs : s.Sound document definitions) (hc : s.cells[k]? = some c)
    (hb : s.Binds c.scope ids) (hw : s.Writes c.scope) :
    ∃ a s' definition, Runs (run definitions k) (s.mark k true) a s' ∧
      (s.mark k true).Grows s' ∧ s'.Sound document definitions ∧
      s'.Binds (c.inner k) ((c.binder, c.id) :: ids) ∧ s'.Writes (c.inner k) ∧
      document.find? c.id = some definition ∧
      s'.Means (c.inner k) ((c.binder, c.id) :: ids) a definition := by
  obtain ⟨c₁, hc₁, hcell⟩ := s.ages_mark k true k c hc
  obtain ⟨a, s', hrun, hgrow, hs', hgives⟩ := run_runs (hs.mark k true) hc₁
  obtain ⟨c₂, hc₂, hcell₂⟩ := hgrow.ages k c₁ hc₁
  replace hcell₂ := hcell.trans hcell₂
  have hbinds : s'.Binds c.scope ids := hb.ages ((s.ages_mark k true).trans hgrow.ages)
  -- What is written now is the cell and what was written before.
  have hwrites : s'.Writes (c.inner k) := by
    intro j
    rw [hgrow.writing, Store.isWriting_start hc, hw]
    constructor
    · rintro (rfl | ⟨name, hname⟩)
      · exact ⟨c.binder, List.mem_cons_self⟩
      · exact ⟨name, List.mem_cons_of_mem _ hname⟩
    · rintro ⟨name, hname⟩
      rcases List.mem_cons.1 hname with heq | hname
      · exact .inl (LawfulArtifact.handle_injective (Prod.mk.inj heq).2)
      · exact .inr ⟨name, hname⟩
  have hinner : s'.Binds (c.inner k) ((c.binder, c.id) :: ids) := by
    have := Store.Binds.cons hc₂ (hcell₂.scope ▸ hbinds)
    simpa only [Cell.inner, hcell₂.binder, hcell₂.id, hcell₂.scope] using this
  obtain ⟨ids', definition, hb', hfind, hmeans⟩ := hgives
  rw [hcell.scope] at hb'
  obtain rfl := hbinds.unique hb'
  rw [hcell.id] at hfind
  rw [Cell.inner, hcell.binder, hcell.id, hcell.scope] at hmeans
  exact ⟨a, s', definition, hrun, hgrow, hs', hinner, hwrites, hfind, hmeans⟩

/-- **The source of a leaf is the plain source of its name.** -/
theorem leaf_sourcing (root : String) : ∀ (depth : Nat) (s : Store A)
    (scope : List (String × A)) (ids : List (String × String)) (a : A) (name : String),
    s.Binds scope ids → s.Writes scope → s.Leaf scope ids a name →
    (s.simulation document definitions).rel
      (((Artifact.decoder a).fold (cellSourcing definitions depth)
        (cellSourcing definitions depth)).node root)
      ((document.expansion depth (ids.map Prod.snd) name).node root)
  | 0, _, _, _, _, _, _, _, _ => simulation_diverges _
  | depth + 1, s, scope, ids, a, name, hb, hw, hleaf => by
      intro s₁ node hgrow hs₁ h
      replace hb := hb.ages hgrow.ages
      replace hw := hw.grows hgrow
      replace hleaf := hleaf.ages hgrow.ages
      cases hleaf with
      | @handle binder k c hmem hc =>
          obtain ⟨j, d, hhandle, hd, _, _, hid⟩ := hb.entry hmem
          obtain rfl := LawfulArtifact.handle_injective hhandle
          obtain rfl : c = d := Option.some.inj (hc.symm.trans hd)
          have haround : c.id ∈ ids.map Prod.snd := List.mem_map.2 ⟨_, hid, rfl⟩
          rw [Document.expansion_mem haround] at h
          obtain rfl := Option.some.inj h
          obtain ⟨c', hc', hwriting⟩ := (hw k).2 ⟨binder, hmem⟩
          obtain rfl : c = c' := Option.some.inj (hc.symm.trans hc')
          refine ⟨s₁, ?_, .refl s₁, hs₁⟩
          rw [LawfulArtifact.decoder_handle, Blueprint.fold]
          refine (Runs.cell hc).bind ?_
          rw [if_pos hwriting]
          exact .pure _ _
      | @owner k c hc hscope hid =>
          subst hscope
          have haround : c.id ∉ ids.map Prod.snd := by
            intro hmem
            obtain ⟨bound, hbound, heq⟩ := List.mem_map.1 hmem
            exact hid bound hbound heq
          have hnot : ¬ s₁.IsWriting k := by
            intro hwriting
            obtain ⟨binder, hmem⟩ := (hw k).1 hwriting
            exact hb.not_mem hc binder hmem
          obtain ⟨b, s₂, definition, hrun, hgrow₂, hs₂, hb₂, hw₂, hfind, hmeans⟩ :=
            marked_runs hs₁ hc hb hw
          rw [Document.expansion_succ haround hfind] at h
          obtain ⟨body, hbody, rfl⟩ := Option.map_eq_some_iff.1 h
          -- The leaves of the body are written inside of the cell.
          have hrel := ((Sourcing.congruence (s₂.simulation document definitions) root).comap
            (Blueprint.respects_fold (cellSourcing definitions depth)
              (cellSourcing definitions depth)) respects_id).comap
            (LawfulArtifact.respects_decoder (A := A)) respects_id
          have hfold := hmeans _ (document.expansion depth (c.id :: ids.map Prod.snd)) _ hrel (by
            rintro a _ ⟨name, hleaf, rfl⟩
            exact leaf_sourcing root depth s₂ _ _ a name hb₂ hw₂ hleaf)
          obtain ⟨s₃, hwrite, hgrow₃, hs₃⟩ := hfold s₂ body (.refl s₂) hs₂ hbody
          refine ⟨s₃.mark k false, ?_, Store.grows_unmark hc hnot (hgrow₂.trans hgrow₃),
            hs₃.mark k false⟩
          rw [LawfulArtifact.decoder_owner, Blueprint.fold]
          refine (Runs.cell hc).bind ?_
          rw [if_neg (fun hwriting => hnot ⟨c, hc, hwriting⟩)]
          exact (Runs.update _ s₁).bind (hrun.bind (hwrite.bind
            ((Runs.update _ s₃).bind (.pure _ _))))

/-- **An artifact that owns a cell outside of all others has the plain source of the id
of the cell.** -/
theorem write_runs {root : String} (hs : s.Sound document definitions)
    (hc : s.cells[k]? = some c) (hscope : c.scope = []) (hnone : ∀ j, ¬ s.IsWriting j)
    {depth : Nat} {node : Node} (h : (document.expansion depth [] c.id).node root = some node) :
    ∃ s', Runs (write definitions depth root (Artifact.owner k : A)) s node s' := by
  have hs₀ : (s.hold (Artifact.owner k)).Sound document definitions := hs.of_cells rfl
  have hwrites : (s.hold (Artifact.owner k)).Writes [] := by
    intro j
    constructor
    · exact fun h => absurd h (hnone j)
    · rintro ⟨_, hmem⟩
      cases hmem
  have hleaf : (s.hold (Artifact.owner k)).Leaf [] [] (Artifact.owner k) c.id :=
    .owner hc hscope (by simp)
  obtain ⟨s₁, hrun, hgrow, _⟩ := leaf_sourcing root depth _ [] [] _ c.id .nil hwrites hleaf _
    node (.refl _) hs₀ h
  exact ⟨_, (hrun.holding hgrow).1⟩

end Lazy
end Schemata
