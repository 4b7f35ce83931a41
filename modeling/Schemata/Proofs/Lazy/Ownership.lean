import Mathlib.Data.Finset.Card
import Mathlib.Logic.Relation
import Schemata.Proofs.Lazy.Footprint

/-!
# Ownership among cells

A cell keeps alive the cells that its resolved artifact owns, and those of the artifacts that its
body mentions.  A store is tiered when each cell belongs to the building of one outermost schema,
its tier: what a body mentions was there before the tier began, and what a cell resolves to was
built later inside of the tier, or was there before it.  So no cell keeps itself alive, not even
through others.

**Results.**

* `Store.isAlive_iff`: a cell is alive when chains of owners lead to it from what is held.
* `Store.Tiered.acyclic`: no chain of owners in a tiered store comes back.
* `Store.Tiered.survives_iff`: counting owners gives the same as following their chains.
-/

namespace Schemata
namespace Lazy

open Relation (ReflTransGen TransGen)

variable {A : Type} [Artifact A]

namespace Store

/-- A cell keeps another alive. -/
def Keeps (s : Store A) (j k : CellId) : Prop := k ∈ s.kept j

/-- A chain of owners leads to a cell from what is held. -/
def Reaches (s : Store A) (k : CellId) : Prop := ∃ r ∈ s.roots, ReflTransGen s.Keeps r k

/-- Some cells, of which each has an owner among them or is owned by what is held: those that
counting owners never frees. -/
def Survives (s : Store A) (k : CellId) : Prop :=
  ∃ S : CellId → Prop, S k ∧ ∀ j, S j → j ∈ s.roots ∨ ∃ i, S i ∧ s.Keeps i j

variable {s : Store A} {j k : CellId}

theorem mem_owned {as : List A} : k ∈ owned as ↔ ∃ a ∈ as, .owner k ∈ Artifact.leaves a := by
  rw [owned, List.mem_flatMap]
  simp only [Artifact.mem_cells]

/-- A cell keeps what its resolved artifact owns, and what the artifacts own that its body
mentions. -/
theorem keeps_iff {c : Cell A} (hc : s.cells[j]? = some c) :
    s.Keeps j k ↔ (∃ a, c.resolved = some a ∧ .owner k ∈ Artifact.leaves a) ∨
      k ∈ owned c.body.given := by
  rw [Keeps, kept, hc]
  show k ∈ owned (c.resolved.toList ++ c.body.given) ↔ _
  rw [owned, List.flatMap_append, List.mem_append]
  refine or_congr_left (mem_owned.trans (exists_congr fun a => ?_))
  rw [Option.mem_toList]

theorem Keeps.exists_cell (h : s.Keeps j k) : ∃ c, s.cells[j]? = some c := by
  rw [Keeps, kept] at h
  cases hc : s.cells[j]? with
  | none => simp [hc] at h
  | some c => exact ⟨c, rfl⟩

namespace Reaches

theorem root (h : k ∈ s.roots) : s.Reaches k := ⟨k, h, .refl⟩

theorem keeps (h : s.Reaches j) (hkeeps : s.Keeps j k) : s.Reaches k := by
  obtain ⟨r, hr, hchain⟩ := h
  exact ⟨r, hr, hchain.tail hkeeps⟩

/-- What roots have, and cells hand on to those that they keep, all cells have that chains of
owners lead to. -/
theorem induction {p : CellId → Prop} (h : s.Reaches k) (hroot : ∀ r ∈ s.roots, p r)
    (hkeeps : ∀ i j, p i → s.Keeps i j → p j) : p k := by
  obtain ⟨r, hr, hchain⟩ := h
  induction hchain with
  | refl => exact hroot r hr
  | tail _ hlast ih => exact hkeeps _ _ ih hlast

end Reaches

/-! ## The search for owners -/

/-- The cells that one round of the search finds. -/
def found (s : Store A) (latest known : List CellId) : List CellId :=
  ((latest.flatMap s.kept).filter fun cell => !known.contains cell).eraseDups

theorem mem_found {latest known : List CellId} :
    k ∈ s.found latest known ↔ (∃ j ∈ latest, s.Keeps j k) ∧ k ∉ known := by
  simp [found, List.mem_eraseDups, Keeps]

theorem isKept_succ (s : Store A) (target : CellId) (rounds : Nat) (latest known : List CellId) :
    s.isKept target (rounds + 1) latest known =
      if (s.found latest known).isEmpty then false
      else (s.found latest known).contains target ||
        s.isKept target rounds (s.found latest known) (s.found latest known ++ known) := rfl

/-- What the search finds has a chain of owners. -/
theorem reaches_of_isKept {target : CellId} : ∀ {rounds : Nat} {latest known : List CellId},
    (∀ j ∈ latest, s.Reaches j) → s.isKept target rounds latest known = true → s.Reaches target
  | 0, _, _, _, h => by simp [isKept] at h
  | rounds + 1, latest, known, hlatest, h => by
      have hfound : ∀ j ∈ s.found latest known, s.Reaches j := by
        intro j hj
        obtain ⟨⟨i, hi, hkeeps⟩, _⟩ := mem_found.1 hj
        exact (hlatest i hi).keeps hkeeps
      rw [isKept_succ] at h
      split at h
      · cases h
      · rcases Bool.or_eq_true_iff.1 h with h | h
        · exact hfound target (List.contains_iff_mem.1 h)
        · exact reaches_of_isKept hfound h

/-- Where the search is: it knows the roots, and what the cells keep that it has looked into. -/
structure Searched (s : Store A) (latest known : List CellId) : Prop where
  roots : s.roots ⊆ known
  kept : ∀ i ∈ known, i ∉ latest → s.kept i ⊆ known

/-- The cells that the search does not know yet. -/
def unknown (s : Store A) (known : List CellId) : Finset CellId :=
  (Finset.range s.cells.size).filter (· ∉ known)

namespace Searched

variable {latest known : List CellId}

/-- The search looks into what it found last, and into that only. -/
theorem next (h : s.Searched latest known) :
    s.Searched (s.found latest known) (s.found latest known ++ known) where
  roots r hr := List.mem_append_right _ (h.roots hr)
  kept i hi hnot k hk := by
    have hi : i ∈ known := (List.mem_append.1 hi).resolve_left hnot
    by_cases hknown : k ∈ known
    · exact List.mem_append_right _ hknown
    · by_cases hlatest : i ∈ latest
      · exact List.mem_append_left _ (mem_found.2 ⟨⟨i, hlatest, hk⟩, hknown⟩)
      · exact absurd (h.kept i hi hlatest hk) hknown

/-- When a round finds nothing, the search knows all cells that chains of owners lead to. -/
theorem mem_of_reaches (h : s.Searched latest known) (hnone : s.found latest known = [])
    (hk : s.Reaches k) : k ∈ known := by
  refine hk.induction (p := (· ∈ known)) h.roots fun i j hi hkeeps => ?_
  by_contra hj
  have hlatest : i ∈ latest := by
    by_contra hlatest
    exact hj (h.kept i hi hlatest hkeeps)
  have hmem : j ∈ s.found latest known := mem_found.2 ⟨⟨i, hlatest, hkeeps⟩, hj⟩
  rw [hnone] at hmem
  cases hmem

/-- When a round finds something, fewer cells are unknown. -/
theorem unknown_lt (hbound : ∀ i j, s.Keeps i j → j < s.cells.size)
    (hsome : s.found latest known ≠ []) :
    (s.unknown (s.found latest known ++ known)).card < (s.unknown known).card := by
  obtain ⟨j, hj⟩ := List.exists_mem_of_ne_nil _ hsome
  obtain ⟨⟨i, _, hkeeps⟩, hnot⟩ := mem_found.1 hj
  have hmem : j ∈ s.unknown known :=
    Finset.mem_filter.2 ⟨Finset.mem_range.2 (hbound i j hkeeps), hnot⟩
  refine Finset.card_lt_card ((Finset.ssubset_iff_of_subset fun k hk => ?_).2 ⟨j, hmem, ?_⟩)
  · obtain ⟨hsize, hk⟩ := Finset.mem_filter.1 hk
    exact Finset.mem_filter.2 ⟨hsize, fun hknown => hk (List.mem_append_right _ hknown)⟩
  · exact fun h => (Finset.mem_filter.1 h).2 (List.mem_append_left _ hj)

end Searched

/-- What has a chain of owners is found, as long as there is a round for each unknown cell. -/
theorem isKept_of_reaches {target : CellId} (hbound : ∀ i j, s.Keeps i j → j < s.cells.size)
    (htarget : s.Reaches target) : ∀ {rounds : Nat} {latest known : List CellId},
    s.Searched latest known → (s.unknown known).card ≤ rounds → target ∉ known →
      s.isKept target rounds latest known = true
  | rounds, latest, known, h, hcard, hnot => by
      have hsome : s.found latest known ≠ [] := fun hnone => hnot (h.mem_of_reaches hnone htarget)
      have hlt := Searched.unknown_lt hbound hsome
      cases rounds with
      | zero => omega
      | succ rounds =>
          rw [isKept_succ, if_neg (by simpa using hsome), Bool.or_eq_true_iff]
          by_cases hfound : target ∈ s.found latest known
          · exact .inl (List.contains_iff_mem.2 hfound)
          · refine .inr (isKept_of_reaches hbound htarget h.next (by omega) fun hmem => ?_)
            exact (List.mem_append.1 hmem).elim hfound hnot

/-- Chains of owners lead to what is alive. -/
theorem reaches_of_isAlive (h : s.isAlive k = true) : s.Reaches k := by
  rcases Bool.or_eq_true_iff.1 h with h | h
  · exact .root (List.contains_iff_mem.1 h)
  · exact reaches_of_isKept (fun _ => .root) h

/-- **A cell is alive when chains of owners lead to it from what is held.** -/
theorem isAlive_iff (hbound : ∀ i j, s.Keeps i j → j < s.cells.size) :
    s.isAlive k = true ↔ s.Reaches k := by
  refine ⟨reaches_of_isAlive, fun h => ?_⟩
  rw [isAlive, Bool.or_eq_true_iff]
  by_cases hroot : k ∈ s.roots
  · exact .inl (List.contains_iff_mem.2 hroot)
  · refine .inr (isKept_of_reaches hbound h ⟨List.Subset.refl _, ?_⟩ ?_ hroot)
    · exact fun i hi hnot => absurd hi hnot
    · exact (Finset.card_filter_le _ _).trans (Finset.card_range _).le

/-! ## Tiers -/

/-- A cell of a tier. -/
structure TieredAt (s : Store A) (tier : CellId → Nat) (k : CellId) (c : Cell A) : Prop where
  tier_le : tier k ≤ k
  scope : ∀ e ∈ c.scope, ∃ j, e.2 = Artifact.handle j
  given : ∀ j ∈ owned c.body.given, j < tier k
  resolved (a : A) : c.resolved = some a → ∀ j, .owner j ∈ Artifact.leaves a →
    j < s.cells.size ∧ (j < tier k ∨ tier j = tier k ∧ k < j)

/-- A store whose cells are in tiers, each named by the first cell that it may have. -/
structure Tiered (s : Store A) (tier : CellId → Nat) : Prop where
  cells (k : CellId) (c : Cell A) : s.cells[k]? = some c → s.TieredAt tier k c
  roots : ∀ k ∈ s.roots, k < s.cells.size

namespace Tiered

variable {tier : CellId → Nat}

/-- A cell keeps cells of earlier tiers and later cells of its own. -/
theorem keeps (h : s.Tiered tier) (hkeeps : s.Keeps j k) :
    j < s.cells.size ∧ k < s.cells.size ∧ (tier k < tier j ∨ tier k = tier j ∧ j < k) := by
  obtain ⟨c, hc⟩ := hkeeps.exists_cell
  have hj := h.cells j c hc
  have hlt := Store.lt_size hc
  rcases (keeps_iff hc).1 hkeeps with ⟨a, ha, hk⟩ | hk
  · obtain ⟨hsize, hk | hk⟩ := hj.resolved a ha k hk
    · obtain ⟨d, hd⟩ := exists_cell hsize
      exact ⟨hlt, hsize, .inl (Nat.lt_of_le_of_lt (h.cells k d hd).tier_le hk)⟩
    · exact ⟨hlt, hsize, .inr hk⟩
  · have hk := hj.given k hk
    have hsize : k < s.cells.size := Nat.lt_trans (Nat.lt_of_lt_of_le hk hj.tier_le) hlt
    obtain ⟨d, hd⟩ := exists_cell hsize
    exact ⟨hlt, hsize, .inl (Nat.lt_of_le_of_lt (h.cells k d hd).tier_le hk)⟩

/-- **No chain of owners comes back.** -/
theorem acyclic (h : s.Tiered tier) : ¬ TransGen s.Keeps k k := by
  have hchain {i j : CellId} (hij : TransGen s.Keeps i j) :
      tier j < tier i ∨ tier j = tier i ∧ i < j := by
    induction hij with
    | single hlast => exact (h.keeps hlast).2.2
    | tail _ hlast ih =>
        rcases ih, (h.keeps hlast).2.2 with ⟨hlt | ⟨heq, hlt⟩, hlt' | ⟨heq', hlt'⟩⟩
        · exact .inl (Nat.lt_trans hlt' hlt)
        · exact .inl (heq' ▸ hlt)
        · exact .inl (heq ▸ hlt')
        · exact .inr ⟨heq'.trans heq, Nat.lt_trans hlt hlt'⟩
  intro hk
  rcases hchain hk with hlt | ⟨_, hlt⟩
  · exact absurd hlt (Nat.lt_irrefl _)
  · exact absurd hlt (Nat.lt_irrefl _)

theorem isAlive_iff (h : s.Tiered tier) : s.isAlive k = true ↔ s.Reaches k :=
  Store.isAlive_iff fun _ _ hkeeps => (h.keeps hkeeps).2.1

/-- A cell that counting owners never frees has a chain of owners: going back, owners are of later
tiers, or earlier in the same. -/
theorem reaches_of_survives (h : s.Tiered tier) {S : CellId → Prop}
    (hS : ∀ j, S j → j ∈ s.roots ∨ ∃ i, S i ∧ s.Keeps i j) : ∀ k, S k → s.Reaches k
  | k, hk => by
      rcases hS k hk with hroot | ⟨i, hi, hkeeps⟩
      · exact .root hroot
      · have horder := h.keeps hkeeps
        obtain ⟨c, hc⟩ := exists_cell horder.1
        have htier := (h.cells i c hc).tier_le
        exact (reaches_of_survives h hS i hi).keeps hkeeps
  termination_by k => (s.cells.size - tier k, k)
  decreasing_by
    rcases horder with ⟨hlt, _, htiers | ⟨heq, hindex⟩⟩
    · have hsize : tier i < s.cells.size := Nat.lt_of_le_of_lt htier hlt
      exact .left _ _ (by omega)
    · rw [heq]
      exact .right _ hindex

/-- **Counting owners frees the cells that no chain of owners leads to**, and no other. -/
theorem survives_iff (h : s.Tiered tier) : s.Survives k ↔ s.Reaches k := by
  constructor
  · rintro ⟨S, hk, hS⟩
    exact h.reaches_of_survives hS k hk
  · intro hk
    refine ⟨s.Reaches, hk, fun j hj => ?_⟩
    obtain ⟨r, hr, hchain⟩ := hj
    rcases hchain.cases_tail with rfl | ⟨i, hchain, hlast⟩
    · exact .inl hr
    · exact .inr ⟨i, ⟨r, hr, hchain⟩, hlast⟩

end Tiered

end Store

end Lazy
end Schemata
