import Schemata.Lazy.Running
import Schemata.Proofs.Correspondence
import Schemata.Proofs.Lazy.Building

/-!
# Which definitions have run

A store logs each definition when it starts to run.  A cell runs its definition when it resolves,
and it resolves at most once; so the log names the cells that have resolved, each of them once
(`Store.Logged`), and what a cell has resolved to stays what it is (`Store.Remembers`).

**Input.**  Calls that come to an end, on stores that are sound and logged.

**Results.**

* `build_rests`: no definition runs while a schema is built.
* `run_logs`: a definition that runs logs its own cell and no other, so it is not entered again
  before it ends.
* `resolve_logged`: what one use of a cell preserves.
* `decode_logs`, `encode_logs` and `accepts_logs`: what a whole use preserves.
-/

namespace Schemata
namespace Lazy

open Json (Value)

/-! ## Ending calls, taken apart -/

section Runs

variable {A α β : Type}

theorem Runs.of_bind {call : Run A α} {next : α → Run A β} {s s'' : Store A} {b : β}
    (h : Runs (call >>= next) s b s'') :
    ∃ a s', Runs call s a s' ∧ Runs (next a) s' b s'' := by
  replace h : (call s >>= fun p => next p.1 p.2) = .ok (b, s'') := h
  cases hcall : call s with
  | error halt =>
      rw [hcall] at h
      cases h
  | ok p =>
      rw [hcall] at h
      exact ⟨p.1, p.2, hcall, h⟩

theorem Runs.of_pure {a b : α} {s s' : Store A} (h : Runs (Pure.pure a : Run A α) s b s') :
    a = b ∧ s = s' := (Runs.pure a s).unique h

theorem Runs.of_cell {s s' : Store A} {k : CellId} {c : Cell A} (h : Runs (Lazy.cell k) s c s') :
    s.cells[k]? = some c ∧ s = s' := by
  obtain ⟨_, _, hget, h⟩ := Runs.of_bind h
  obtain ⟨rfl, rfl⟩ := (Runs.get s).unique hget
  cases hc : s.cells[k]? with
  | none =>
      rw [hc] at h
      cases h
  | some d =>
      rw [hc] at h
      obtain ⟨rfl, rfl⟩ := h.of_pure
      exact ⟨rfl, rfl⟩

/-- A call that ends wherever another does, and alike. -/
def covers : Correspondence (Run A) (Run A) where
  rel x y := ∀ s a s', Runs x s a s' → Runs y s a s'
  pure _ _ _ _ h := h
  bind {_ _ _ _ _ _} hx hf s b s'' h := by
    obtain ⟨a, s', hrun, hnext⟩ := h.of_bind
    exact (hx s a s' hrun).bind (hf a s' b s'' hnext)

theorem covers_refl (call : Run A α) : covers.rel call call := fun _ _ _ h => h

end Runs

variable {A : Type}

/-! ## What has resolved -/

/-- What a cell has resolved to. -/
def Store.memo? (s : Store A) (k : CellId) : Option A := s.cells[k]?.bind Cell.resolved

/-- The log names the cells that have resolved, each of them once. -/
structure Store.Logged (s : Store A) : Prop where
  nodup : s.runs.Nodup
  resolved (k : CellId) : k ∈ s.runs ↔ ∃ a, s.memo? k = some a

/-- A later store: what has resolved is the same, and so is the older part of the log. -/
structure Store.Remembers (s s' : Store A) : Prop where
  memo (k : CellId) (a : A) : s.memo? k = some a → s'.memo? k = some a
  runs : s.runs <:+ s'.runs

/-- A later store in which nothing else has run and no cell has resolved since. -/
structure Store.Rests (s s' : Store A) : Prop where
  memo (k : CellId) : s'.memo? k = s.memo? k
  runs : s'.runs = s.runs
  size : s.cells.size ≤ s'.cells.size

variable {s s' s'' : Store A}

namespace Store.Remembers

theorem refl (s : Store A) : s.Remembers s := ⟨fun _ _ h => h, List.suffix_refl _⟩

theorem trans (h : s.Remembers s') (h' : s'.Remembers s'') : s.Remembers s'' where
  memo k a ha := h'.memo k a (h.memo k a ha)
  runs := h.runs.trans h'.runs

end Store.Remembers

namespace Store.Rests

theorem of_cells (hcells : s'.cells = s.cells) (hruns : s'.runs = s.runs) : s.Rests s' where
  memo k := by rw [memo?, memo?, hcells]
  runs := hruns
  size := Nat.le_of_eq (by rw [hcells])

theorem refl (s : Store A) : s.Rests s := of_cells rfl rfl

theorem trans (h : s.Rests s') (h' : s'.Rests s'') : s.Rests s'' where
  memo k := (h'.memo k).trans (h.memo k)
  runs := h'.runs.trans h.runs
  size := Nat.le_trans h.size h'.size

/-- A new cell has not resolved. -/
theorem push (s : Store A) (c : Cell A) (hc : c.resolved = none) :
    s.Rests { s with cells := s.cells.push c } where
  memo k := by
    show (s.cells.push c)[k]?.bind Cell.resolved = s.cells[k]?.bind Cell.resolved
    rw [Array.getElem?_push]
    by_cases hk : k = s.cells.size
    · subst hk
      simp [hc]
    · rw [if_neg hk]
  runs := rfl
  size := by simp

theorem logged (h : s.Rests s') (hs : s.Logged) : s'.Logged where
  nodup := h.runs ▸ hs.nodup
  resolved k := by rw [h.runs, h.memo, hs.resolved]

theorem remembers (h : s.Rests s') : s.Remembers s' where
  memo k _ ha := (h.memo k).trans ha
  runs := h.runs ▸ List.suffix_refl _

end Store.Rests

/-- A store in which a cell has resolved. -/
def Store.resolveTo (s : Store A) (k : CellId) (a : A) : Store A :=
  { s with cells := s.cells.modify k fun c => { c with resolved := some a } }

theorem Store.memo?_resolveTo {k : CellId} (hk : k < s.cells.size) (a : A) (j : CellId) :
    (s.resolveTo k a).memo? j = if k = j then some a else s.memo? j := by
  show (s.cells.modify k _)[j]?.bind Cell.resolved = _
  rw [Array.getElem?_modify]
  by_cases hj : k = j
  · subst hj
    simp [hk]
  · rw [if_neg hj, if_neg hj]
    rfl

/-! ## Building -/

/-- A call during which nothing runs and nothing resolves. -/
def Resting {α : Type} (call : Run A α) : Prop :=
  ∀ (s : Store A) (a : α) (s' : Store A), Runs call s a s' → s.Rests s'

namespace Resting

variable {α β : Type}

theorem pure (a : α) : Resting (Pure.pure a : Run A α) := by
  intro s b s' h
  obtain ⟨_, rfl⟩ := h.of_pure
  exact .refl s

theorem throw (halt : Halt) : Resting (throw halt : Run A α) := by
  intro s b s' h
  cases h

theorem bind {call : Run A α} {next : α → Run A β} (h : Resting call)
    (hnext : ∀ a, Resting (next a)) : Resting (call >>= next) := by
  intro s b s'' hrun
  obtain ⟨a, s', hcall, hrun⟩ := hrun.of_bind
  exact (h s a s' hcall).trans (hnext a s' b s'' hrun)

/-- What is made of the answer of a call runs nothing. -/
theorem map {call : Run A α} (f : α → β) (h : Resting call) :
    Resting (call >>= fun a => Pure.pure (f a)) := h.bind fun a => .pure (f a)

theorem allocate [Artifact A] (id : String) (body : Body A) (scope : List (String × A)) :
    Resting (allocate id body scope) := by
  intro s a s' h
  obtain ⟨rfl, rfl⟩ := (Runs.allocate id body scope s).unique h
  exact .push s _ rfl

end Resting

section Building

variable [Artifact A]

mutual

/-- **No definition runs while a schema is built.** -/
theorem build_rests (scope : List (String × A)) : ∀ x : Schema A, Resting (build scope x)
  | .literal value => by
      rw [build]
      exact .pure _
  | .literals values => by
      rw [build]
      exact .pure _
  | .literalsOr values fallback => by
      rw [build]
      exact (build_rests scope fallback).map _
  | .primitive kind => by
      rw [build]
      exact .pure _
  | .object kind fields => by
      rw [build]
      exact (buildFields_rests scope fields).map _
  | .record codomain => by
      rw [build]
      exact (build_rests scope codomain).map _
  | .array item => by
      rw [build]
      exact (build_rests scope item).map _
  | .tuple components => by
      rw [build]
      exact (buildAll_rests scope components).map _
  | .intersection left right => by
      rw [build]
      exact (build_rests scope left).bind fun _ => (build_rests scope right).map _
  | .sum tag members => by
      rw [build]
      exact (buildFields_rests scope members).map _
  | .union ⟨head, tail⟩ => by
      rw [build]
      exact (build_rests scope head).bind fun _ => (buildAll_rests scope tail).map _
  | .readonly inner => by
      rw [build]
      exact (build_rests scope inner).map _
  | .custom change inner => by
      rw [build]
      exact (build_rests scope inner).map _
  | .pair decoder encoder => by
      rw [build]
      exact (build_rests scope decoder).bind fun _ => (build_rests scope encoder).map _
  | .lazy id binder body stash => by
      rw [build]
      exact .allocate _ _ _
  | .self binder => by
      rw [build]
      cases scope.lookup binder with
      | none => exact .throw _
      | some handle => exact .pure _
  | .ref name => by
      rw [build]
      cases scope.lookup name with
      | none => exact .allocate _ _ _
      | some handle => exact .pure _
  | .artifact built => by
      rw [build]
      exact .pure _

theorem buildAll_rests (scope : List (String × A)) :
    ∀ xs : List (Schema A), Resting (buildAll scope xs)
  | [] => by
      rw [buildAll]
      exact .pure _
  | x :: rest => by
      rw [buildAll]
      exact (build_rests scope x).bind fun _ => (buildAll_rests scope rest).map _

theorem buildFields_rests (scope : List (String × A)) :
    ∀ xs : List (String × Schema A), Resting (buildFields scope xs)
  | [] => by
      rw [buildFields]
      exact .pure _
  | (key, x) :: rest => by
      rw [buildFields]
      exact (build_rests scope x).bind fun _ => (buildFields_rests scope rest).map _

end

/-! ## Running and resolving -/

variable {document : Document} {definitions : Entries Definition} {k : CellId} {a : A}

/-- **A definition that runs logs its own cell and no other**, and no cell resolves before it
ends. -/
theorem run_logs (h : Runs (run definitions k) s a s') :
    s'.runs = k :: s.runs ∧ (∀ j, s'.memo? j = s.memo? j) ∧ k < s'.cells.size := by
  unfold run at h
  obtain ⟨c, s₁, hcell, h⟩ := h.of_bind
  obtain ⟨hc, rfl⟩ := hcell.of_cell
  obtain ⟨x, s₁, hbody, h⟩ := h.of_bind
  have hsame : s = s₁ := by
    unfold bodySchema at hbody
    split at hbody
    · exact hbody.of_pure.2
    · split at hbody
      · exact hbody.of_pure.2
      · cases hbody
  subst hsame
  obtain ⟨_, s₂, hupdate, h⟩ := h.of_bind
  obtain ⟨_, rfl⟩ := (Runs.update _ s).unique hupdate
  have hrests := build_rests _ x _ _ _ h
  obtain ⟨hk, _⟩ := Array.getElem?_eq_some_iff.1 hc
  exact ⟨hrests.runs, fun j => hrests.memo j, Nat.lt_of_lt_of_le hk hrests.size⟩

/-- **Resolving a cell keeps the log**: a definition runs if its cell has not resolved, and then
the cell has. -/
theorem resolve_logged (hs : s.Logged) (h : Runs (resolve definitions k) s a s') :
    s'.Logged ∧ s.Remembers s' ∧ s'.memo? k = some a := by
  unfold resolve at h
  obtain ⟨c, s₁, hcell, h⟩ := h.of_bind
  obtain ⟨hc, rfl⟩ := hcell.of_cell
  have hmemo : s.memo? k = c.resolved := by rw [Store.memo?, hc, Option.bind_some]
  cases hresolved : c.resolved with
  | some b =>
      rw [hresolved] at h
      obtain ⟨rfl, rfl⟩ := h.of_pure
      exact ⟨hs, .refl s, hmemo.trans hresolved⟩
  | none =>
      rw [hresolved] at h
      obtain ⟨b, s₁, hrun, h⟩ := h.of_bind
      obtain ⟨_, s₂, hchange, h⟩ := h.of_bind
      obtain ⟨_, rfl⟩ : () = _ ∧ s₁.resolveTo k b = s₂ := (Runs.update _ s₁).unique hchange
      obtain ⟨rfl, rfl⟩ := h.of_pure
      obtain ⟨hruns, hsame, hk⟩ := run_logs hrun
      rw [hresolved] at hmemo
      have hmemos : ∀ j, (s₁.resolveTo k b).memo? j = if k = j then some b else s.memo? j := by
        intro j
        rw [Store.memo?_resolveTo hk, hsame]
      refine ⟨⟨?_, fun j => ?_⟩, ⟨fun j d hd => ?_, ?_⟩, by rw [hmemos, if_pos rfl]⟩
      · have hnot : k ∉ s.runs := by
          rw [hs.resolved, hmemo]
          simp
        exact hruns ▸ List.nodup_cons.2 ⟨hnot, hs.nodup⟩
      · rw [hmemos]
        show j ∈ s₁.runs ↔ _
        rw [hruns, List.mem_cons, hs.resolved]
        by_cases hj : k = j
        · simp [hj]
        · simp [hj, Ne.symm hj]
      · rw [hmemos, if_neg, hd]
        rintro rfl
        rw [hmemo] at hd
        cases hd
      · show s.runs <:+ s₁.runs
        rw [hruns]
        exact List.suffix_cons k s.runs

end Building

/-! ## Whole uses -/

section Uses

variable [Artifact A] {document : Document} {definitions : Entries Definition} {k : CellId}

/-- A call that keeps stores sound and logged, and what they remember. -/
def Logs {α : Type} (document : Document) (definitions : Entries Definition) (call : Run A α) :
    Prop :=
  ∀ (s : Store A) (b : α) (s' : Store A), s.Sound document definitions → s.Logged →
    Runs call s b s' → s'.Sound document definitions ∧ s'.Logged ∧ s.Remembers s'

namespace Logs

variable {α β : Type}

/-- A call that leaves the store as it is. -/
theorem of_same {call : Run A α} (h : ∀ s b s', Runs call s b s' → s = s') :
    Logs document definitions call := by
  intro s b s' hs hlogged hrun
  obtain rfl := h s b s' hrun
  exact ⟨hs, hlogged, .refl s⟩

theorem pure (a : α) : Logs document definitions (Pure.pure a : Run A α) :=
  of_same fun _ _ _ h => h.of_pure.2

theorem throw (halt : Halt) : Logs document definitions (throw halt : Run A α) :=
  of_same fun _ _ _ h => nomatch h

theorem bind {call : Run A α} {next : α → Run A β} (h : Logs document definitions call)
    (hnext : ∀ a, Logs document definitions (next a)) :
    Logs document definitions (call >>= next) := by
  intro s b s'' hs hlogged hrun
  obtain ⟨a, s', hcall, hrun⟩ := hrun.of_bind
  obtain ⟨hs', hlogged', hremembers⟩ := h s a s' hs hlogged hcall
  obtain ⟨hs'', hlogged'', hremembers'⟩ := hnext a s' b s'' hs' hlogged' hrun
  exact ⟨hs'', hlogged'', hremembers.trans hremembers'⟩

/-- A call that asks whether a cell is alive. -/
theorem alive {call call' : Run A α} (h : Logs document definitions call)
    (h' : Logs document definitions call') :
    Logs document definitions (do if (← get).isAlive k then call else call') := by
  refine bind (of_same fun _ _ _ h => ((Runs.get _).unique h).2) fun s => ?_
  split
  · exact h
  · exact h'

theorem holding {a : A} {call : Run A α} (h : Logs document definitions call) :
    Logs document definitions (holding a call) := by
  intro s b s' hs hlogged hrun
  obtain ⟨_, s₁, hhold, hrun⟩ := hrun.of_bind
  obtain ⟨_, rfl⟩ := (Runs.update _ s).unique hhold
  obtain ⟨b', s₂, hcall, hrun⟩ := hrun.of_bind
  obtain ⟨_, s₃, hrelease, hrun⟩ := hrun.of_bind
  obtain ⟨_, rfl⟩ := (Runs.update _ s₂).unique hrelease
  obtain ⟨_, rfl⟩ := hrun.of_pure
  -- What is held has no part in what is sound, logged or remembered.
  have hbefore : s.Rests { s with held := a :: s.held } := .of_cells rfl rfl
  have hafter : s₂.Rests { s₂ with held := s₂.held.tail } := .of_cells rfl rfl
  obtain ⟨hs₂, hlogged₂, hremembers⟩ :=
    h { s with held := a :: s.held } b' s₂ (hs.of_cells rfl) (hbefore.logged hlogged) hcall
  exact ⟨hs₂.of_cells rfl, hafter.logged hlogged₂,
    hbefore.remembers.trans (hremembers.trans hafter.remembers)⟩

end Logs

/-- Calls that keep the log, beside any other computations. -/
def logging (document : Document) (definitions : Entries Definition) :
    Correspondence (Run A) Option where
  rel call _ := Logs document definitions call
  pure a := .pure a
  bind {_ _ _ _ _ _} h hnext := h.bind hnext

/-- A call of a cell keeps the log where the use of what it resolves to does. -/
theorem call_logs {α : Type} {use : A → Run A α}
    (huse : ∀ (s : Store A) (c : Cell A) a, s.Gives document k c a →
      Logs document definitions (use a)) :
    Logs document definitions
      (holding (Artifact.owner k) (resolve definitions k >>= use)) := by
  refine .holding fun s b s'' hs hlogged hrun => ?_
  obtain ⟨a, s', hresolve, hrun⟩ := hrun.of_bind
  obtain ⟨hlogged', hremembers, _⟩ := resolve_logged hlogged hresolve
  obtain ⟨c, hc⟩ : ∃ c, s.cells[k]? = some c := by
    obtain ⟨c, _, hcell, _⟩ := Runs.of_bind hresolve
    exact ⟨c, hcell.of_cell.1⟩
  obtain ⟨a', s₁, hresolve', _, hs', hgives⟩ := resolve_runs hs hc
  obtain ⟨rfl, rfl⟩ := hresolve'.unique hresolve
  obtain ⟨hs'', hlogged'', hremembers'⟩ := huse _ c _ hgives _ b s'' hs' hlogged' hrun
  exact ⟨hs'', hlogged'', hremembers.trans hremembers'⟩

/-- What a cell gives is related to something by each congruence that relates all leaves. -/
theorem Store.Gives.related {c : Cell A} {a : A} (h : s.Gives document k c a) {B : Type}
    [Vocabulary B] [Inhabited B] {rel : A → B → Prop} (hrel : Congruence rel rel)
    (howner : ∀ j b, rel (Artifact.owner j) b) (hhandle : ∀ j b, rel (Artifact.handle j) b) :
    ∃ b, rel a b := by
  obtain ⟨_, definition, _, _, hmeans⟩ := h
  refine ⟨definition.fold fun _ => default, hmeans B _ rel hrel ?_⟩
  rintro _ b ⟨_, hleaf, _⟩
  cases hleaf with
  | owner => exact howner _ b
  | handle => exact hhandle _ b

variable [LawfulArtifact A]

/-- **Decoding by a cell keeps the log.** -/
theorem cellDecoding_logs : ∀ (depth : Nat) (k : CellId) (value : Value),
    Logs document definitions ((cellDecoding (A := A) definitions depth k).decode value)
  | 0, _, _ => .throw _
  | depth + 1, k, value => by
      refine call_logs fun s c a hgives => ?_
      have hrel := ((Decoding.congruence_all (logging (A := A) document definitions)).comap
        (Blueprint.respects_fold (cellDecoding definitions depth) fun k =>
          handleDecoding k (cellDecoding definitions depth k)) respects_id).comap
        (LawfulArtifact.respects_decoder (A := A)) respects_id
      have : Inhabited (Decoding Option) := ⟨⟨fun _ => none⟩⟩
      obtain ⟨_, hdecode⟩ := hgives.related hrel
        (fun j _ value _ => by
          rw [LawfulArtifact.decoder_owner, Blueprint.fold]
          exact cellDecoding_logs depth j value)
        (fun j _ value _ => by
          rw [LawfulArtifact.decoder_handle, Blueprint.fold]
          exact (cellDecoding_logs depth j value).alive (.pure _))
      refine (hdecode value trivial).bind fun outcome => .bind ?_ fun c => .pure _
      exact .of_same fun _ _ _ h => h.of_cell.2

/-- **Encoding by a cell keeps the log**, and so does its guard. -/
theorem cellEncoding_logs : ∀ (depth : Nat) (k : CellId) (value : Value),
    Logs document definitions ((cellEncoding (A := A) definitions depth k).encode value) ∧
      Logs document definitions ((cellEncoding (A := A) definitions depth k).accepts value)
  | 0, _, _ => ⟨.throw _, .throw _⟩
  | depth + 1, k, value => by
      have hencoding : ∀ (s : Store A) (c : Cell A) a, s.Gives document k c a → ∃ e,
          Encoding.RelOn (logging document definitions) (fun _ => True)
            (encoding definitions depth a) e := by
        intro s c a hgives
        have hrel := ((Encoding.congruence_all (logging (A := A) document definitions)).comap
          (Blueprint.respects_fold (cellEncoding definitions depth) fun k =>
            handleEncoding k (cellEncoding definitions depth k)) respects_id).comap
          (LawfulArtifact.respects_encoder (A := A)) respects_id
        have : Inhabited (Encoding Option) := ⟨⟨fun _ => none, fun _ => none⟩⟩
        refine hgives.related hrel (fun j _ value _ => ?_) (fun j _ value _ => ?_)
        · rw [LawfulArtifact.encoder_owner, Blueprint.fold]
          exact cellEncoding_logs depth j value
        · rw [LawfulArtifact.encoder_handle, Blueprint.fold]
          have hcell := cellEncoding_logs depth j value
          exact ⟨hcell.1.alive (.pure _), hcell.2.alive (.pure _)⟩
      constructor
      · refine call_logs fun s c a hgives => ?_
        obtain ⟨_, hencode⟩ := hencoding s c a hgives
        exact (hencode value trivial).1
      · refine call_logs fun s c a hgives => ?_
        obtain ⟨_, hencode⟩ := hencoding s c a hgives
        exact (hencode value trivial).2

/-- A use of the owner of a cell to decode keeps the log. -/
theorem decode_logs (depth : Nat) (k : CellId) (value : Value) :
    Logs document definitions (decode definitions depth (Artifact.owner k : A) value) := by
  rw [decode, LawfulArtifact.decoder_owner, Blueprint.fold]
  exact (cellDecoding_logs depth k value).holding

theorem encode_logs (depth : Nat) (k : CellId) (value : Value) :
    Logs document definitions (encode definitions depth (Artifact.owner k : A) value) := by
  rw [encode, encoding, LawfulArtifact.encoder_owner, Blueprint.fold]
  exact (cellEncoding_logs depth k value).1.holding

theorem accepts_logs (depth : Nat) (k : CellId) (value : Value) :
    Logs document definitions (accepts definitions depth (Artifact.owner k : A) value) := by
  rw [accepts, encoding, LawfulArtifact.encoder_owner, Blueprint.fold]
  exact (cellEncoding_logs depth k value).2.holding

end Uses

end Lazy
end Schemata
