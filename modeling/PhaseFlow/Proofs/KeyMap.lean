import Mathlib.Data.List.Nodup
import PhaseFlow.KeyMap
import PhaseFlow.Proofs.Text.ByteOrder

/-!
# More about maps

Nodes and edges are stored under their own ids, so the list of the values of such a map
says all about it: storing them one after the other builds the map again
(`KeyMap.foldl_insert_values`). Changing the values one after the other changes all of
them (`KeyMap.foldl_modify_keys`).

Entries that are stored one after the other stand in order
(`Entries.Ascending.foldl_insert`), and nothing else is stored
(`Entries.mem_of_mem_foldl_insert`).
-/

namespace PhaseFlow

universe u v

namespace Entries

variable {α : Type u}

theorem Ascending.foldl_insert
    (fields : List (String × α)) :
    ∀ entries : List (String × α),
      Ascending entries →
      Ascending (fields.foldl
          (fun entries field => Entries.insert field.1 field.2 entries) entries) := by
  induction fields with
  | nil => exact fun _ horder => horder
  | cons field rest ih => exact fun _ horder => ih _ horder.insert

theorem mem_of_mem_foldl_insert
    {fields : List (String × α)} {entry : String × α} :
    ∀ {entries : List (String × α)},
      entry ∈
        fields.foldl (fun entries field => insert field.1 field.2 entries)
          entries →
      entry ∈ fields ∨ entry ∈ entries := by
  induction fields with
  | nil => exact fun h => Or.inr h
  | cons field rest ih =>
      intro entries h
      rcases ih h with hrest | hinsert
      · exact Or.inl (List.mem_cons_of_mem _ hrest)
      · rcases mem_insert hinsert with rfl | hold
        · exact Or.inl List.mem_cons_self
        · exact Or.inr hold

end Entries

namespace KeyMap

variable {α : Type u} {β : Type v}

theorem values_map
    (map : KeyMap α)
    (f : α → β) :
    (map.map f).values = map.values.map f := by
  unfold values KeyMap.map
  rw [List.map_map, List.map_map]
  rfl

theorem map_insert
    (map : KeyMap α)
    (f : α → β)
    (key : String)
    (value : α) :
    (map.insert key value).map f = (map.map f).insert key (f value) := by
  refine ext_get? fun other => ?_
  rw [get?_map, get?_insert, get?_insert, get?_map]
  split <;> rfl

/-- If every value knows its key, the keys can be read off the values. -/
theorem map_values_of_own
    {map : KeyMap α} {key : α → String}
    (hown : ∀ {id value}, map.get? id = some value → key value = id) :
    map.values.map key = map.keys := by
  unfold values keys
  rw [List.map_map]
  refine List.map_congr_left ?_
  rintro ⟨id, value⟩ hentry
  exact hown ((map.mem_entries_iff id value).1 hentry)

/-- Of items with distinct keys that are inserted one after the other, each is found
under its key. -/
theorem get?_foldl_insert
    (key : β → String)
    (value : β → α)
    (items : List β)
    (start : KeyMap α)
    (other : String)
    (hnodup : (items.map key).Nodup) :
    (items.foldl (fun map item => map.insert (key item) (value item))
        start).get? other =
      ((items.find? fun item => key item = other).map value).or
        (start.get? other) := by
  induction items generalizing start with
  | nil => rfl
  | cons item rest ih =>
      rw [List.map_cons, List.nodup_cons] at hnodup
      rw [List.foldl_cons, ih _ hnodup.2, get?_insert, List.find?_cons]
      by_cases hitem : key item = other
      · -- The key does not occur again.
        have hnone : (rest.find? fun item => key item = other) = none := by
          rw [List.find?_eq_none]
          intro later hlater heq
          refine hnodup.1 (List.mem_map.2 ⟨later, hlater, ?_⟩)
          rw [hitem]
          simpa using heq
        simp [hnone, hitem]
      · simp [hitem]

/-- Storing the values of a map one after the other builds the map again. -/
theorem foldl_insert_values
    {map : KeyMap β} {key : β → String}
    (hown : ∀ {id value}, map.get? id = some value → key value = id)
    (f : β → α) :
    map.values.foldl (fun built value => built.insert (key value) (f value))
      empty =
      map.map f := by
  have hnodup : (map.values.map key).Nodup := by
    rw [map_values_of_own hown]
    exact map.nodup_keys
  refine ext_get? ?_
  intro id
  rw [get?_foldl_insert key f map.values empty id hnodup, get?_empty, Option.or_none,
    get?_map]
  congr 1
  cases hfound : map.get? id with
  | none =>
      rw [List.find?_eq_none]
      intro value hvalue heq
      obtain ⟨other, hother⟩ := (map.mem_values_iff value).1 hvalue
      have hid : other = id := (hown hother).symm.trans (by simpa using heq)
      rw [hid, hfound] at hother
      cases hother
  | some value =>
      have hvalue : value ∈ map.values := (map.mem_values_iff value).2 ⟨id, hfound⟩
      cases hfirst : map.values.find? fun value => key value = id with
      | none =>
          have hnone := List.find?_eq_none.1 hfirst value hvalue
          simp [hown hfound] at hnone
      | some first =>
          have hmem := List.mem_of_find?_eq_some hfirst
          have hkey : key first = id := by simpa using List.find?_some hfirst
          rw [List.inj_on_of_nodup_map hnodup hmem hvalue (hkey.trans (hown hfound).symm)]

theorem entries_foldl_insert
    (items : List (String × α)) :
    ∀ start : KeyMap α,
      (items.foldl (fun map item => map.insert item.1 item.2) start).entries =
        items.foldl (fun entries item => Entries.insert item.1 item.2 entries)
          start.entries := by
  induction items with
  | nil => exact fun _ => rfl
  | cons item rest ih => exact fun start => ih (start.insert item.1 item.2)

/-- A map of a list has no entries but those of the list. -/
theorem mem_of_get?_ofList
    {items : List (String × α)} {key : String} {value : α}
    (h : (ofList items).get? key = some value) :
    (key, value) ∈ items := by
  rw [← mem_entries_iff, ofList, entries_foldl_insert] at h
  exact (Entries.mem_of_mem_foldl_insert h).resolve_right List.not_mem_nil

/-! ## The order of the keys -/

/-- The keys ascend. -/
theorem ascending_keys (map : KeyMap α) : Text.Ascending map.keys := by
  have hkeys : map.keys.Pairwise (· < ·) := List.pairwise_map.2 map.ascending
  exact hkeys.imp Text.utf8_lt_utf8

theorem ascending_distinct
    (texts : List String) :
    Text.Ascending (distinct texts) :=
  ascending_keys _

/-! ## Which keys are present -/

theorem contains_insert
    (map : KeyMap α)
    (key other : String)
    (value : α) :
    (map.insert key value).contains other =
      (decide (key = other) || map.contains other) := by
  rw [contains, get?_insert]
  by_cases hkey : key = other <;> simp [hkey, contains]

theorem mem_keys_insert
    {map : KeyMap α} {key other : String} {value : α} :
    other ∈ (map.insert key value).keys ↔ other = key ∨ other ∈ map.keys := by
  rw [mem_keys_iff, ← contains_iff, contains_insert, Bool.or_eq_true, decide_eq_true_iff,
    contains_iff, ← mem_keys_iff, eq_comm]

theorem contains_modify
    (map : KeyMap α)
    (key other : String)
    (f : α → α) :
    (map.modify key f).contains other = map.contains other := by
  rw [contains, get?_modify]
  by_cases hkey : key = other <;> simp [hkey, contains]

/-- Storing the changed value of a key that is present is changing it. -/
theorem insert_getD_of_contains
    {map : KeyMap α} {key : String}
    (h : map.contains key = true)
    (fallback : α)
    (f : α → α) :
    map.insert key (f (map.getD key fallback)) = map.modify key f := by
  obtain ⟨value, hvalue⟩ := (map.contains_iff key).1 h
  simp [modify, getD, hvalue]

/-- Maps with the same keys list them in the same order. -/
theorem keys_eq_of_contains_eq
    {map : KeyMap α} {other : KeyMap β}
    (h : ∀ key, map.contains key = other.contains key) :
    map.keys = other.keys := by
  have hsame : (map.map fun _ => ()) = other.map fun _ => () := by
    refine ext_get? fun key => ?_
    have hkey := h key
    unfold contains at hkey
    rw [get?_map, get?_map]
    cases hvalue : map.get? key <;> cases hother : other.get? key <;> simp_all
  have hkeys := congrArg keys hsame
  simpa [keys, KeyMap.map, Function.comp_def] using hkeys

/-! ## Changing every value -/

/-- Changes under distinct keys are made once each. -/
theorem get?_foldl_modify
    (change : String → α → α) :
    ∀ {keys : List String},
      keys.Nodup →
      ∀ (map : KeyMap α) (id : String),
        (keys.foldl (fun map key => map.modify key (change key)) map).get? id =
          (map.get? id).map fun value => if id ∈ keys then change id value else value
  | [], _, map, id => by simp
  | key :: rest, hnodup, map, id => by
      rw [List.nodup_cons] at hnodup
      rw [List.foldl_cons, get?_foldl_modify change hnodup.2, get?_modify]
      by_cases hkey : key = id
      · -- The keys differ, so this value is not changed a second time.
        subst hkey
        cases map.get? key with
        | none => simp
        | some value => simp [hnodup.1]
      · simp [hkey, Ne.symm hkey]

/-- Changing the value of every key in turn changes all of them. -/
theorem foldl_modify_keys
    {map next : KeyMap α} {change : String → α → α}
    (h : ∀ id, next.get? id = (map.get? id).map (change id)) :
    map.keys.foldl (fun map key => map.modify key (change key)) map = next := by
  refine ext_get? fun id => ?_
  rw [get?_foldl_modify change map.nodup_keys, h]
  cases hvalue : map.get? id with
  | none => rfl
  | some value =>
      have hkey : id ∈ map.keys := (map.mem_keys_iff id).2 ⟨value, hvalue⟩
      simp [hkey]

end KeyMap

end PhaseFlow
