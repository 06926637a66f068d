import Relock.SortedMap

/-!
# Looking up in sorted maps

A sorted map answers as a map does: a key that was given a value has it (`lookup?_insert_self`), and
every other key has what it had (`lookup?_insert_of_ne`). And it holds nothing but its answers, so
that maps with the same answers are the same (`eq_of_lookup?_eq`).

Giving a map all entries of another one lays that one over it: its answers come first
(`lookup?_insertAll`).
-/

namespace Relock.SortedMap

variable {κ : Type} [Ord κ] {α : Type}

@[simp] theorem lookup?_empty (key : κ) : (empty : SortedMap κ α).lookup? key = none := rfl

/-- An entry put into its place is found under its key. -/
theorem find?_place_self [Std.ReflOrd κ] (key : κ) (value : α) (entries : List (κ × α)) :
    (place key value entries).find? (fun entry => compare key entry.1 == .eq) =
      some (key, value) := by
  induction entries with
  | nil => simp [place]
  | cons entry rest ih =>
      cases hcompare : compare key entry.1 with
      | lt => simp [place, hcompare]
      | eq => simp [place, hcompare]
      | gt => simp [place, hcompare, ih]

variable [Std.LawfulEqOrd κ]

/-- Under another key nothing else is found than before. -/
theorem find?_place_of_ne {key asked : κ} (h : asked ≠ key) (value : α)
    (entries : List (κ × α)) :
    (place key value entries).find? (fun entry => compare asked entry.1 == .eq) =
      entries.find? (fun entry => compare asked entry.1 == .eq) := by
  have hne : (compare asked key == .eq) = false := by simpa using h
  induction entries with
  | nil => simp [place, hne]
  | cons entry rest ih =>
      cases hcompare : compare key entry.1 with
      | lt => simp [place, hcompare, hne]
      | eq =>
          have hkey : key = entry.1 := Std.LawfulEqOrd.eq_of_compare hcompare
          simp [place, hne, ← hkey]
      | gt => simp [place, hcompare, List.find?_cons, ih]

/-- The value of a key is the one that an entry gives it. -/
theorem lookup?_eq_some_iff {m : SortedMap κ α} {key : κ} {value : α} :
    m.lookup? key = some value ↔ (key, value) ∈ m.entries := by
  unfold lookup?
  rw [Option.map_eq_some_iff]
  constructor
  · rintro ⟨entry, hfind, rfl⟩
    have hkey : key = entry.1 := by simpa using List.find?_some hfind
    rw [hkey]
    exact List.mem_of_find?_eq_some hfind
  · intro hmem
    obtain ⟨front, back, hentries⟩ := List.mem_iff_append.mp hmem
    have hsorted := m.sorted
    rw [hentries, List.pairwise_append] at hsorted
    -- the keys before it are smaller, so the search gets to it
    have hnone : front.find? (fun entry => compare key entry.1 == .eq) = none := by
      rw [List.find?_eq_none]
      intro entry hentry hsame
      have hkey : key = entry.1 := by simpa using hsame
      have hlt := hsorted.2.2 entry hentry (key, value) List.mem_cons_self
      rw [← hkey, Std.ReflOrd.compare_self] at hlt
      exact absurd hlt (by simp)
    refine ⟨(key, value), ?_, rfl⟩
    rw [hentries, List.find?_append, hnone, Option.none_or]
    simp

theorem nodup_keys (m : SortedMap κ α) : (m.entries.map (·.1)).Nodup := by
  rw [List.Nodup, List.pairwise_map]
  refine m.sorted.imp fun {a b} hlt heq => ?_
  rw [heq, Std.ReflOrd.compare_self] at hlt
  exact absurd hlt (by simp)

theorem nodup_entries (m : SortedMap κ α) : m.entries.Nodup :=
  List.Pairwise.of_map (·.1) (fun _ _ hne heq => hne (congrArg _ heq)) m.nodup_keys

variable [Std.TransOrd κ]

@[simp] theorem lookup?_insert_self (m : SortedMap κ α) (key : κ) (value : α) :
    (m.insert key value).lookup? key = some value := by
  simp [lookup?, insert, find?_place_self]

theorem lookup?_insert_of_ne (m : SortedMap κ α) {key asked : κ} (h : asked ≠ key) (value : α) :
    (m.insert key value).lookup? asked = m.lookup? asked := by
  simp [lookup?, insert, find?_place_of_ne h]

/-- A key that no entry is about keeps what it had. -/
theorem lookup?_insertAll_of_not_mem {entries : List (κ × α)} {key : κ}
    (h : key ∉ entries.map (·.1)) (m : SortedMap κ α) :
    (m.insertAll entries).lookup? key = m.lookup? key := by
  induction entries generalizing m with
  | nil => rfl
  | cons entry entries ih =>
      rw [List.map_cons, List.mem_cons, not_or] at h
      show ((m.insert entry.1 entry.2).insertAll entries).lookup? key = m.lookup? key
      rw [ih h.2, lookup?_insert_of_ne m h.1]

/-- A key that one entry is about has the value of that entry. -/
theorem lookup?_insertAll_of_mem {entries : List (κ × α)} (hkeys : (entries.map (·.1)).Nodup)
    {key : κ} {value : α} (h : (key, value) ∈ entries) (m : SortedMap κ α) :
    (m.insertAll entries).lookup? key = some value := by
  induction entries generalizing m with
  | nil => exact absurd h (by simp)
  | cons entry entries ih =>
      rw [List.map_cons, List.nodup_cons] at hkeys
      show ((m.insert entry.1 entry.2).insertAll entries).lookup? key = some value
      rcases List.mem_cons.mp h with rfl | hlater
      · rw [lookup?_insertAll_of_not_mem hkeys.1, lookup?_insert_self]
      · exact ih hkeys.2 hlater _

/-- The entries of a map that is laid over another one come first. -/
theorem lookup?_insertAll (m m' : SortedMap κ α) (key : κ) :
    (m.insertAll m'.entries).lookup? key = (m'.lookup? key).or (m.lookup? key) := by
  cases h : m'.lookup? key with
  | none =>
      rw [Option.none_or]
      apply lookup?_insertAll_of_not_mem
      intro hmem
      obtain ⟨entry, hentry, rfl⟩ := List.mem_map.mp hmem
      have hvalue := lookup?_eq_some_iff.mpr hentry
      rw [h] at hvalue
      exact absurd hvalue (by simp)
  | some value =>
      rw [Option.some_or]
      exact lookup?_insertAll_of_mem m'.nodup_keys (lookup?_eq_some_iff.mp h) m

/-- Maps that give every key the same value are the same. -/
theorem eq_of_lookup?_eq {m m' : SortedMap κ α} (h : ∀ key, m.lookup? key = m'.lookup? key) :
    m = m' := by
  have hperm : m.entries.Perm m'.entries := by
    rw [List.perm_ext_iff_of_nodup m.nodup_entries m'.nodup_entries]
    rintro ⟨key, value⟩
    rw [← lookup?_eq_some_iff, ← lookup?_eq_some_iff, h]
  have hentries : m.entries = m'.entries := by
    apply hperm.eq_of_pairwise _ m.sorted m'.sorted
    intro a b _ _ hlt hgt
    exact absurd hgt (Std.OrientedCmp.not_lt_of_lt hlt)
  cases m
  cases m'
  simpa using hentries

end Relock.SortedMap
