/-!
# Maps with text keys in ascending order

Nodes, edges, outputs, error texts and executors are all kept under a text key, and
every listing shows them in ascending key order. A map is therefore the list of its
entries, strictly ascending by key, and equal maps are equal lists.

The module has two layers.

* `Entries` works on bare lists of entries; JSON objects use it directly.
* `KeyMap` carries the order in its type.

Main statements: looking up after an insertion (`KeyMap.get?_insert`) or a removal
(`KeyMap.get?_erase`), and two maps with the same look-ups are equal
(`KeyMap.ext_get?`).
-/

namespace PhaseFlow

universe u v

/-! ## Bare entries -/

namespace Entries

variable {α : Type u} {β : Type v}

/-- The value stored under a key. -/
def find? (key : String) : List (String × α) → Option α
  | [] => none
  | (k, value) :: rest => if k = key then some value else find? key rest

/-- The entries with one key set to a value; the place is found by walking past the
smaller keys. -/
def insert (key : String) (value : α) : List (String × α) → List (String × α)
  | [] => [(key, value)]
  | (k, old) :: rest =>
      if key < k then (key, value) :: (k, old) :: rest
      else if k = key then (key, value) :: rest
      else (k, old) :: insert key value rest

/-- The entries without one key. -/
def erase (key : String) (entries : List (String × α)) : List (String × α) :=
  entries.filter fun entry => entry.1 ≠ key

/-- Entries stand in strictly ascending key order. -/
def Ascending (entries : List (String × α)) : Prop :=
  entries.Pairwise fun a b => a.1 < b.1

theorem mem_insert
    {key : String} {value : α} {entries : List (String × α)}
    {entry : String × α}
    (h : entry ∈ insert key value entries) :
    entry = (key, value) ∨ entry ∈ entries := by
  induction entries with
  | nil => simpa [insert] using h
  | cons head rest ih =>
      obtain ⟨k, old⟩ := head
      simp only [insert] at h
      split at h
      · simpa using h
      · split at h
        · rcases List.mem_cons.1 h with h | h
          · exact Or.inl h
          · exact Or.inr (List.mem_cons_of_mem _ h)
        · rcases List.mem_cons.1 h with h | h
          · exact Or.inr (h ▸ List.mem_cons_self)
          · rcases ih h with h | h
            · exact Or.inl h
            · exact Or.inr (List.mem_cons_of_mem _ h)

/-- **Insertion keeps the order.** -/
theorem Ascending.insert
    {key : String} {value : α} {entries : List (String × α)}
    (h : Ascending entries) :
    Ascending (insert key value entries) := by
  induction entries with
  | nil => simp [Entries.insert, Ascending]
  | cons head rest ih =>
      obtain ⟨k, old⟩ := head
      have hhead : ∀ entry ∈ rest, k < entry.1 := (List.pairwise_cons.1 h).1
      have hrest : Ascending rest := (List.pairwise_cons.1 h).2
      unfold Entries.insert
      split
      · next hlt =>
          refine List.pairwise_cons.2 ⟨?_, h⟩
          intro entry hentry
          rcases List.mem_cons.1 hentry with heq | hmem
          · subst heq
            exact hlt
          · exact String.lt_trans hlt (hhead entry hmem)
      · next hge =>
          split
          · next heq =>
              subst heq
              exact List.pairwise_cons.2 ⟨hhead, hrest⟩
          · next hne =>
              refine List.pairwise_cons.2 ⟨?_, ih hrest⟩
              intro entry hentry
              rcases mem_insert hentry with heq | hmem
              · subst heq
                have hle : k ≤ key := String.not_lt.1 hge
                by_cases hlt : k < key
                · exact hlt
                · exact absurd (String.le_antisymm hle (String.not_lt.1 hlt)) hne
              · exact hhead entry hmem

theorem Ascending.filter
    {entries : List (String × α)}
    (keep : String × α → Bool)
    (h : Ascending entries) :
    Ascending (entries.filter keep) :=
  List.Pairwise.filter keep h

theorem Ascending.map
    {entries : List (String × α)}
    (f : String × α → β)
    (h : Ascending entries) :
    Ascending (entries.map fun entry => (entry.1, f entry)) := by
  unfold Ascending
  rw [List.pairwise_map]
  exact h

/-- A key below every stored key is absent. -/
theorem find?_eq_none_of_lt
    {key : String} {entries : List (String × α)}
    (h : ∀ entry ∈ entries, key < entry.1) :
    find? key entries = none := by
  induction entries with
  | nil => rfl
  | cons head rest ih =>
      obtain ⟨k, value⟩ := head
      have hk : key < k := h (k, value) List.mem_cons_self
      have hne : k ≠ key := by
        rintro rfl
        exact String.lt_irrefl _ hk
      simpa [find?, hne] using ih fun entry hentry => h entry (List.mem_cons_of_mem _ hentry)

/-- No stored key is below the first one. -/
theorem head_le_of_find?
    {k key : String} {value : α} {rest : List (String × α)}
    (horder : Ascending ((k, value) :: rest))
    (h : find? key ((k, value) :: rest) ≠ none) :
    k ≤ key := by
  refine String.not_lt.1 fun hlt => h (find?_eq_none_of_lt ?_)
  intro entry hentry
  rcases List.mem_cons.1 hentry with rfl | hmem
  · exact hlt
  · exact String.lt_trans hlt ((List.pairwise_cons.1 horder).1 entry hmem)

/-- What is inserted is found under its key, and nothing else is found differently. -/
theorem find?_insert
    (key other : String)
    (value : α)
    (entries : List (String × α)) :
    find? other (insert key value entries) =
      if key = other then some value else find? other entries := by
  induction entries with
  | nil => simp [insert, find?]
  | cons head rest ih =>
      obtain ⟨k, old⟩ := head
      simp only [insert]
      split
      · simp [find?]
      · split
        · next heq =>
            subst heq
            by_cases ho : k = other <;> simp [find?, ho]
        · next hne =>
            by_cases ho : k = other
            · subst ho
              have hno : key ≠ k := fun h => hne h.symm
              simp [find?, hno]
            · simp [find?, ho, ih]

/-- What is filtered by keys is found as before under the keys that are kept. -/
theorem find?_filter
    (key : String)
    (keep : String → Bool)
    (entries : List (String × α)) :
    find? key (entries.filter fun entry => keep entry.1) =
      if keep key then find? key entries else none := by
  induction entries with
  | nil => simp [find?]
  | cons head rest ih =>
      obtain ⟨k, value⟩ := head
      by_cases hk : k = key
      · subst hk
        by_cases hkeep : keep k = true
        · simp [hkeep, find?]
        · simp [hkeep, ih]
      · by_cases hkeep : keep k = true
        · simp [hkeep, find?, hk, ih]
        · simp [hkeep, find?, hk, ih]

theorem mem_of_find?_eq_some
    {key : String} {value : α} {entries : List (String × α)}
    (h : find? key entries = some value) :
    (key, value) ∈ entries := by
  induction entries with
  | nil => simp [find?] at h
  | cons head rest ih =>
      obtain ⟨k, old⟩ := head
      by_cases hk : k = key
      · subst hk
        simp [find?] at h
        simp [h]
      · simp only [find?, hk, if_false] at h
        exact List.mem_cons_of_mem _ (ih h)

/-- In ascending entries, a key has one value only. -/
theorem find?_eq_some_of_mem
    {key : String} {value : α} {entries : List (String × α)}
    (horder : Ascending entries)
    (h : (key, value) ∈ entries) :
    find? key entries = some value := by
  induction entries with
  | nil => simp at h
  | cons head rest ih =>
      obtain ⟨k, old⟩ := head
      have hhead : ∀ entry ∈ rest, k < entry.1 := (List.pairwise_cons.1 horder).1
      rcases List.mem_cons.1 h with heq | hmem
      · injection heq with hk hv
        subst hk
        subst hv
        simp [find?]
      · have hlt : k < key := hhead (key, value) hmem
        have hne : k ≠ key := by
          rintro rfl
          exact String.lt_irrefl _ hlt
        simpa [find?, hne] using ih (List.pairwise_cons.1 horder).2 hmem

end Entries

/-! ## Maps -/

/-- A map from text keys to values. -/
structure KeyMap (α : Type u) where
  entries : List (String × α)
  ascending : Entries.Ascending entries

namespace KeyMap

variable {α : Type u} {β : Type v}

/-- The map without entries. -/
def empty : KeyMap α :=
  ⟨[], List.Pairwise.nil⟩

instance : EmptyCollection (KeyMap α) :=
  ⟨empty⟩

instance : Inhabited (KeyMap α) :=
  ⟨empty⟩

/-- The value under a key. -/
def get? (map : KeyMap α) (key : String) : Option α :=
  Entries.find? key map.entries

/-- Whether a key is present. -/
def contains (map : KeyMap α) (key : String) : Bool :=
  (map.get? key).isSome

/-- The value under a key, or a substitute. -/
def getD (map : KeyMap α) (key : String) (fallback : α) : α :=
  (map.get? key).getD fallback

/-- The map with one key set. -/
def insert (map : KeyMap α) (key : String) (value : α) : KeyMap α :=
  ⟨Entries.insert key value map.entries, map.ascending.insert⟩

/-- The map with the entries that pass a test. -/
def filter (map : KeyMap α) (keep : String → α → Bool) : KeyMap α :=
  ⟨map.entries.filter fun entry => keep entry.1 entry.2, map.ascending.filter _⟩

/-- The map without one key. -/
def erase (map : KeyMap α) (key : String) : KeyMap α :=
  map.filter fun k _ => k ≠ key

/-- The map with every value replaced. -/
def map (m : KeyMap α) (f : α → β) : KeyMap β :=
  ⟨m.entries.map fun entry => (entry.1, f entry.2), m.ascending.map fun entry => f entry.2⟩

/-- The map with the value under one key changed; an absent key stays absent. -/
def modify (map : KeyMap α) (key : String) (f : α → α) : KeyMap α :=
  match map.get? key with
  | some value => map.insert key (f value)
  | none => map

/-- The keys, ascending. -/
def keys (map : KeyMap α) : List String :=
  map.entries.map Prod.fst

/-- The values in key order. -/
def values (map : KeyMap α) : List α :=
  map.entries.map Prod.snd

/-- The number of entries. -/
def size (map : KeyMap α) : Nat :=
  map.entries.length

/-- The distinct members of a list of texts, ascending. -/
def distinct (texts : List String) : List String :=
  (texts.foldl (fun seen text => seen.insert text ()) (empty : KeyMap Unit)).keys

/-- The map of a list of entries, a later entry replacing an earlier one of its key. -/
def ofList (entries : List (String × α)) : KeyMap α :=
  entries.foldl (fun map entry => map.insert entry.1 entry.2) empty

@[simp] theorem get?_empty (key : String) : (empty : KeyMap α).get? key = none :=
  rfl

theorem get?_insert
    (map : KeyMap α)
    (key other : String)
    (value : α) :
    (map.insert key value).get? other =
      if key = other then some value else map.get? other :=
  Entries.find?_insert key other value map.entries

@[simp] theorem get?_insert_self
    (map : KeyMap α)
    (key : String)
    (value : α) :
    (map.insert key value).get? key = some value := by
  simp [get?_insert]

theorem get?_erase
    (map : KeyMap α)
    (key other : String) :
    (map.erase key).get? other = if key = other then none else map.get? other := by
  have h := Entries.find?_filter other (fun k => decide (k ≠ key)) map.entries
  unfold erase filter get?
  rw [h]
  by_cases hk : key = other
  · simp [hk]
  · have hne : other ≠ key := fun h => hk h.symm
    simp [hk, hne]

/-- Mapping values does not touch the keys. -/
theorem get?_map
    (m : KeyMap α)
    (f : α → β)
    (key : String) :
    (m.map f).get? key = (m.get? key).map f := by
  obtain ⟨entries, _⟩ := m
  simp only [get?, map]
  induction entries with
  | nil => rfl
  | cons head rest ih =>
      obtain ⟨k, value⟩ := head
      by_cases hk : k = key
      · simp [Entries.find?, hk]
      · simp only [List.map_cons, Entries.find?, hk, if_false]
        exact ih ‹Entries.Ascending ((k, value) :: rest)›.of_cons

/-- A change under a key changes what was there, and adds nothing. -/
theorem get?_modify
    (map : KeyMap α)
    (key other : String)
    (f : α → α) :
    (map.modify key f).get? other =
      if key = other then (map.get? key).map f else map.get? other := by
  unfold modify
  cases h : map.get? key with
  | none =>
      by_cases hk : key = other
      · subst hk
        simp [h]
      · simp [hk]
  | some value =>
      rw [get?_insert]
      by_cases hk : key = other <;> simp [hk]

theorem mem_entries_iff
    (map : KeyMap α)
    (key : String)
    (value : α) :
    (key, value) ∈ map.entries ↔ map.get? key = some value :=
  ⟨Entries.find?_eq_some_of_mem map.ascending, Entries.mem_of_find?_eq_some⟩

/-- The keys are those under which something is found. -/
theorem mem_keys_iff
    (map : KeyMap α)
    (key : String) :
    key ∈ map.keys ↔ ∃ value, map.get? key = some value := by
  simp only [keys, List.mem_map]
  constructor
  · rintro ⟨⟨k, value⟩, hmem, rfl⟩
    exact ⟨value, (map.mem_entries_iff k value).1 hmem⟩
  · rintro ⟨value, hvalue⟩
    exact ⟨(key, value), (map.mem_entries_iff key value).2 hvalue, rfl⟩

theorem mem_values_iff
    (map : KeyMap α)
    (value : α) :
    value ∈ map.values ↔ ∃ key, map.get? key = some value := by
  simp only [values, List.mem_map]
  constructor
  · rintro ⟨⟨key, found⟩, hmem, rfl⟩
    exact ⟨key, (map.mem_entries_iff key found).1 hmem⟩
  · rintro ⟨key, hkey⟩
    exact ⟨(key, value), (map.mem_entries_iff key value).2 hkey, rfl⟩

theorem contains_iff
    (map : KeyMap α)
    (key : String) :
    map.contains key = true ↔ ∃ value, map.get? key = some value :=
  Option.isSome_iff_exists

/-- No key is listed twice. -/
theorem nodup_keys (map : KeyMap α) : map.keys.Nodup := by
  unfold keys List.Nodup
  rw [List.pairwise_map]
  refine map.ascending.imp ?_
  intro a b hlt heq
  rw [heq] at hlt
  exact String.lt_irrefl _ hlt

theorem get?_filter
    (map : KeyMap α)
    (keep : String → α → Bool)
    (key : String) :
    (map.filter keep).get? key = (map.get? key).filter (keep key) := by
  apply Option.ext
  intro value
  rw [← mem_entries_iff, Option.filter_eq_some_iff, ← mem_entries_iff]
  simp [filter, List.mem_filter]

theorem mem_keys_foldl_insert
    (texts : List String)
    (seen : KeyMap Unit)
    (text : String) :
    text ∈ (texts.foldl (fun seen text => seen.insert text ()) seen).keys ↔
      text ∈ seen.keys ∨ text ∈ texts := by
  induction texts generalizing seen with
  | nil => simp
  | cons head rest ih =>
      have hinsert : text ∈ (seen.insert head ()).keys ↔ head = text ∨ text ∈ seen.keys := by
        rw [mem_keys_iff, mem_keys_iff, get?_insert]
        by_cases h : head = text <;> simp [h]
      rw [List.foldl_cons, ih, hinsert, List.mem_cons, eq_comm (a := text), or_assoc,
        or_left_comm]

/-- The distinct members of a list are its members. -/
theorem mem_distinct
    {texts : List String} {text : String} :
    text ∈ distinct texts ↔ text ∈ texts := by
  unfold distinct
  rw [mem_keys_foldl_insert]
  simp [keys, empty]

/-- **Two maps with the same look-ups are the same map.** -/
theorem ext_get?
    {a b : KeyMap α}
    (h : ∀ key, a.get? key = b.get? key) :
    a = b := by
  obtain ⟨xs, hx⟩ := a
  obtain ⟨ys, hy⟩ := b
  suffices hxy : xs = ys by
    subst hxy
    rfl
  simp only [get?] at h
  induction xs generalizing ys with
  | nil =>
      cases ys with
      | nil => rfl
      | cons head rest =>
          have := h head.1
          simp [Entries.find?] at this
  | cons x xs ih =>
      cases ys with
      | nil =>
          have := h x.1
          simp [Entries.find?] at this
      | cons y ys =>
          obtain ⟨k, value⟩ := x
          obtain ⟨l, other⟩ := y
          have hxs : ∀ entry ∈ xs, k < entry.1 := (List.pairwise_cons.1 hx).1
          have hys : ∀ entry ∈ ys, l < entry.1 := (List.pairwise_cons.1 hy).1
          have hle : k ≤ l := by
            apply Entries.head_le_of_find? hx
            rw [h l]
            simp [Entries.find?]
          have hge : l ≤ k := by
            apply Entries.head_le_of_find? hy
            rw [← h k]
            simp [Entries.find?]
          obtain rfl : k = l := String.le_antisymm hle hge
          have hvalue : value = other := by
            have := h k
            simpa [Entries.find?] using this
          subst hvalue
          have htail : xs = ys := by
            refine ih hx.of_cons ys hy.of_cons ?_
            intro key
            by_cases hk : k = key
            · subst hk
              rw [Entries.find?_eq_none_of_lt hxs, Entries.find?_eq_none_of_lt hys]
            · have := h key
              simpa [Entries.find?, hk] using this
          rw [htail]

end KeyMap

end PhaseFlow
