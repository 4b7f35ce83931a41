/-!
# Entries under distinct keys

Fields, members and definitions are lists of keys with what stands under them.
Their order is the order in which the keys were first written; writing a key
again replaces what stands under it and moves nothing.

**Results.**  `lookup_set_self` and `lookup_set_of_ne` say what a write does,
`nodup_ofList` that no key occurs twice, `mem_of_mem_ofList` and `mem_keys_ofList`
that nothing else comes in and no key is lost, and `ofList_eq_self` that nothing
changes where no key occurs twice.  `keys_setAll` and `lookup_setAll` say what entries
are after others are written over them.
-/

namespace Schemata

universe u

/-- Keys in order, with what stands under them. -/
abbrev Entries (α : Type u) := List (String × α)

namespace Entries

variable {α : Type u}

def keys (entries : Entries α) : List String := entries.map Prod.fst

/-- The entries after one is written: a present key keeps its place, a new one
goes to the end. -/
def set (key : String) (value : α) : Entries α → Entries α
  | [] => [(key, value)]
  | (k, v) :: rest =>
      if k = key then (key, value) :: rest else (k, v) :: set key value rest

/-- The entries after several are written, one after the other. -/
def setAll (entries new : Entries α) : Entries α :=
  new.foldl (fun entries entry => entries.set entry.1 entry.2) entries

/-- The entries that a list writes. -/
def ofList (list : List (String × α)) : Entries α := setAll [] list

theorem lookup_set_self (key : String) (value : α) :
    ∀ entries : Entries α, (entries.set key value).lookup key = some value
  | [] => by simp [set]
  | (k, v) :: rest => by
      by_cases h : k = key
      · simp [set, h]
      · have h' : key ≠ k := fun e => h e.symm
        simp [set, h, List.lookup_cons, beq_eq_false_iff_ne.2 h', lookup_set_self key value rest]

theorem lookup_set_of_ne {key other : String} (value : α) (h : other ≠ key) :
    ∀ entries : Entries α, (entries.set key value).lookup other = entries.lookup other
  | [] => by simp [set, List.lookup_cons, beq_eq_false_iff_ne.2 h]
  | (k, v) :: rest => by
      by_cases hk : k = key
      · subst hk
        simp [set, List.lookup_cons, beq_eq_false_iff_ne.2 h]
      · simp only [set, hk, if_false, List.lookup_cons]
        cases other == k
        · exact lookup_set_of_ne value h rest
        · rfl

theorem mem_of_lookup {key : String} {value : α} :
    ∀ {entries : Entries α}, entries.lookup key = some value → (key, value) ∈ entries
  | (k, v) :: rest, h => by
      by_cases hk : key = k
      · subst hk
        simp at h
        simp [h]
      · rw [List.lookup_cons, beq_eq_false_iff_ne.2 hk] at h
        exact List.mem_cons_of_mem _ (mem_of_lookup h)

theorem exists_lookup {key : String} :
    ∀ {entries : Entries α}, key ∈ entries.keys → ∃ value, entries.lookup key = some value
  | (k, v) :: rest, h => by
      rw [List.lookup_cons]
      by_cases hk : key = k
      · subst hk
        exact ⟨v, by rw [beq_self_eq_true]⟩
      · rw [beq_eq_false_iff_ne.2 hk]
        refine exists_lookup ?_
        rcases List.mem_cons.1 h with h | h
        · exact absurd h hk
        · exact h

theorem lookup_of_mem {key : String} {value : α} :
    ∀ {entries : Entries α}, entries.keys.Nodup → (key, value) ∈ entries →
      entries.lookup key = some value
  | (k, v) :: rest, hkeys, h => by
      obtain ⟨hk, hkeys⟩ := List.nodup_cons.1 hkeys
      rw [List.lookup_cons]
      rcases List.mem_cons.1 h with heq | hrest
      · obtain ⟨rfl, rfl⟩ := Prod.mk.inj heq
        rw [beq_self_eq_true]
      · have hne : key ≠ k := by
          rintro rfl
          exact hk (List.mem_map.2 ⟨(key, value), hrest, rfl⟩)
        rw [beq_eq_false_iff_ne.2 hne]
        exact lookup_of_mem hkeys hrest

theorem lookup_eq_none {key : String} :
    ∀ {entries : Entries α}, key ∉ entries.keys → entries.lookup key = none
  | [], _ => rfl
  | (k, v) :: rest, h => by
      have h : key ≠ k ∧ key ∉ keys rest := by simpa [keys] using h
      rw [List.lookup_cons, beq_eq_false_iff_ne.2 h.1]
      exact lookup_eq_none h.2

theorem not_mem_keys_of_lookup {key : String} {entries : Entries α}
    (h : entries.lookup key = none) : key ∉ entries.keys := by
  intro hmem
  obtain ⟨value, hvalue⟩ := exists_lookup hmem
  cases h.symm.trans hvalue

theorem mem_keys_set {key other : String} {value : α} :
    ∀ entries : Entries α, other ∈ (entries.set key value).keys ↔ other = key ∨ other ∈ entries.keys
  | [] => by simp [set, keys]
  | (k, v) :: rest => by
      by_cases hk : k = key
      · subst hk
        simp [set, keys]
      · have ih : other ∈ (set key value rest).keys ↔ other = key ∨ other ∈ keys rest :=
          mem_keys_set rest
        simp only [keys] at ih
        simp only [set, hk, if_false, keys, List.map_cons, List.mem_cons, ih]
        constructor
        · rintro (h | h | h) <;> simp [h]
        · rintro (h | h | h) <;> simp [h]

theorem mem_of_mem_set {key : String} {value : α} {entry : String × α} :
    ∀ {entries : Entries α}, entry ∈ entries.set key value → entry = (key, value) ∨ entry ∈ entries
  | [], h => .inl (List.mem_singleton.1 h)
  | (k, v) :: rest, h => by
      rw [set] at h
      split at h
      · rcases List.mem_cons.1 h with h | h
        · exact .inl h
        · exact .inr (List.mem_cons_of_mem _ h)
      · rcases List.mem_cons.1 h with rfl | h
        · exact .inr List.mem_cons_self
        · exact (mem_of_mem_set h).imp_right (List.mem_cons_of_mem _)

theorem mem_of_mem_setAll {entry : String × α} :
    ∀ {new : List (String × α)} {entries : Entries α}, entry ∈ entries.setAll new →
      entry ∈ new ∨ entry ∈ entries
  | [], _, h => .inr h
  | (key, value) :: rest, entries, h => by
      have h : entry ∈ rest ∨ entry ∈ entries.set key value := mem_of_mem_setAll h
      rcases h with h | h
      · exact .inl (List.mem_cons_of_mem _ h)
      · rcases mem_of_mem_set h with rfl | h
        · exact .inl List.mem_cons_self
        · exact .inr h

theorem mem_of_mem_ofList {entry : String × α} {list : List (String × α)}
    (h : entry ∈ ofList list) : entry ∈ list :=
  (mem_of_mem_setAll h).resolve_right List.not_mem_nil

theorem mem_keys_setAll {key : String} :
    ∀ {new : List (String × α)} {entries : Entries α},
      key ∈ (entries.setAll new).keys ↔ key ∈ keys new ∨ key ∈ entries.keys
  | [], _ => by simp [setAll, keys]
  | (k, v) :: rest, entries => by
      have ih : key ∈ ((entries.set k v).setAll rest).keys ↔
          key ∈ keys rest ∨ key ∈ (entries.set k v).keys := mem_keys_setAll
      have hcons : key ∈ keys ((k, v) :: rest) ↔ key = k ∨ key ∈ keys rest := List.mem_cons
      rw [mem_keys_set] at ih
      rw [hcons, or_assoc, or_left_comm, ← ih]
      rfl

theorem mem_keys_ofList {key : String} {list : List (String × α)} :
    key ∈ (ofList list).keys ↔ key ∈ keys list := by
  rw [ofList, mem_keys_setAll]
  simp [keys]

theorem nodup_set (key : String) (value : α) :
    ∀ {entries : Entries α}, entries.keys.Nodup → (entries.set key value).keys.Nodup
  | [], _ => by simp [set, keys]
  | (k, v) :: rest, h => by
      by_cases hk : k = key
      · subst hk
        simpa [set, keys] using h
      · have h : k ∉ keys rest ∧ (keys rest).Nodup := by simpa [keys] using h
        have hmem : k ∉ (set key value rest).keys := by
          rw [mem_keys_set]
          rintro (e | e)
          · exact hk e
          · exact h.1 e
        have := nodup_set key value h.2
        simp only [set, hk, if_false]
        exact List.nodup_cons.2 ⟨hmem, this⟩

theorem nodup_setAll :
    ∀ (new : List (String × α)) {entries : Entries α}, entries.keys.Nodup →
      (entries.setAll new).keys.Nodup
  | [], _, h => h
  | (key, value) :: rest, _, h => nodup_setAll rest (nodup_set key value h)

theorem nodup_ofList (list : List (String × α)) : (ofList list).keys.Nodup :=
  nodup_setAll list (by simp [keys])

theorem set_of_not_mem {key : String} (value : α) :
    ∀ {entries : Entries α}, key ∉ entries.keys → entries.set key value = entries ++ [(key, value)]
  | [], _ => rfl
  | (k, v) :: rest, h => by
      have h : key ≠ k ∧ key ∉ keys rest := by simpa [keys] using h
      have hk : k ≠ key := fun e => h.1 e.symm
      simp [set, hk, set_of_not_mem value h.2]

theorem keys_set (key : String) (value : α) : ∀ entries : Entries α,
    (entries.set key value).keys =
      if key ∈ entries.keys then entries.keys else entries.keys ++ [key]
  | [] => rfl
  | (k, v) :: rest => by
      have ih : (set key value rest).map Prod.fst =
          if key ∈ rest.map Prod.fst then rest.map Prod.fst else rest.map Prod.fst ++ [key] :=
        keys_set key value rest
      by_cases hk : k = key
      · subst hk
        simp [set, keys]
      · have hk' : key ≠ k := fun e => hk e.symm
        simp only [set, hk, if_false, keys, List.map_cons, List.mem_cons, hk', false_or, ih]
        split <;> rfl

/-- Writing entries under distinct keys puts the new keys after the old ones. -/
theorem keys_setAll : ∀ {new : List (String × α)} {entries : Entries α}, (keys new).Nodup →
    (entries.setAll new).keys = entries.keys ++ (keys new).filter (· ∉ entries.keys)
  | [], _, _ => (List.append_nil _).symm
  | (k, v) :: rest, entries, h => by
      have h : k ∉ keys rest ∧ (keys rest).Nodup := List.nodup_cons.1 h
      have hcons : keys ((k, v) :: rest) = k :: keys rest := rfl
      show ((entries.set k v).setAll rest).keys = _
      rw [keys_setAll h.2, keys_set, hcons, List.filter_cons]
      by_cases hk : k ∈ entries.keys
      · simp only [hk, if_true, not_true_eq_false, decide_false, Bool.false_eq_true, if_false]
      · have hrest : (keys rest).filter (· ∉ entries.keys ++ [k]) =
            (keys rest).filter (· ∉ entries.keys) := by
          refine List.filter_congr fun key hkey => ?_
          have hne : key ≠ k := fun e => h.1 (e ▸ hkey)
          simp [hne]
        simp only [hk, if_false, not_false_eq_true, decide_true, if_true, hrest,
          List.append_assoc, List.singleton_append]

/-- Where entries under distinct keys are written, they are what stands under their keys, and what
stood under other keys stays. -/
theorem lookup_setAll (key : String) :
    ∀ {new : List (String × α)} {entries : Entries α}, (keys new).Nodup →
      (entries.setAll new).lookup key = (new.lookup key).or (entries.lookup key)
  | [], _, _ => rfl
  | (k, v) :: rest, entries, h => by
      have h : k ∉ keys rest ∧ (keys rest).Nodup := List.nodup_cons.1 h
      show ((entries.set k v).setAll rest).lookup key = _
      rw [lookup_setAll key h.2, List.lookup_cons]
      by_cases hk : key = k
      · subst hk
        rw [lookup_eq_none h.1, lookup_set_self, beq_self_eq_true]
        rfl
      · rw [lookup_set_of_ne v hk, beq_eq_false_iff_ne.2 hk]

theorem setAll_eq_append :
    ∀ {new entries : Entries α}, (entries.keys ++ new.keys).Nodup →
      entries.setAll new = entries ++ new
  | [], entries, _ => by simp [setAll]
  | (key, value) :: rest, entries, h => by
      have hkey : key ∉ entries.keys := by
        intro hmem
        have := (List.nodup_append.1 h).2.2 key hmem key (by simp [keys])
        exact this rfl
      have hstep : entries.setAll ((key, value) :: rest) =
          (entries ++ [(key, value)]).setAll rest := by
        simp [setAll, set_of_not_mem value hkey]
      rw [hstep, setAll_eq_append]
      · simp
      · simpa [keys] using h

theorem ofList_eq_self {entries : Entries α} (h : entries.keys.Nodup) :
    ofList entries = entries := by
  have : setAll [] entries = [] ++ entries := setAll_eq_append (by simpa [keys] using h)
  simpa [ofList] using this

end Entries
end Schemata
