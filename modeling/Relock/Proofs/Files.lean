import Relock.Files.Basic

/-!
# A new file in a tree

Writing a file where nothing was changes the tree at that place only (`entry?_put_of_ne`). Paths may
lead there over links, so the question is where all paths lead afterwards: those that led to the
vacant place lead to the file, and all others where they led before (`place?_put`). In particular a
path that led nowhere still does, and a path to a vacant place leads to what was put there last
(`place?_put_put`).
-/

namespace Relock

/-- The place when a file has come to stand at some names. -/
def Place.fill (names : List String) (content : ByteArray) : Place → Place
  | vacant names' => if names' = names then file names content else vacant names'
  | place => place

namespace Files

variable {f : Files} {names : List String}

/-! ## Entries -/

theorem ne_nil_of_entry?_eq_none (h : f.entry? names = none) : names ≠ [] := by
  rintro rfl
  unfold entry? at h
  exact absurd h (by simp)

theorem entry?_put_self (h : names ≠ []) (entry : Entry) :
    Files.entry? (f.put names entry) names = some entry := by
  unfold entry?
  rw [if_neg (by simpa using h)]
  exact List.lookup_cons_self

theorem entry?_put_of_ne {other : List String} (h : other ≠ names) (entry : Entry) :
    Files.entry? (f.put names entry) other = f.entry? other := by
  unfold entry?
  by_cases hnil : other.isEmpty = true
  · rw [if_pos hnil, if_pos hnil]
  · rw [if_neg hnil, if_neg hnil]
    show ((names, entry) :: f.entries.filter (·.1 ≠ names)).lookup other = f.entries.lookup other
    have hkey : (other == names) = false := by simpa using h
    rw [List.lookup_cons, hkey]
    dsimp only
    induction f.entries with
    | nil => rfl
    | cons e entries ih =>
        obtain ⟨key, value⟩ := e
        by_cases hsame : key = names
        · have hother : (other == key) = false := by simpa [hsame] using h
          rw [List.filter_cons_of_neg (by simpa using hsame), ih, List.lookup_cons, hother]
        · rw [List.filter_cons_of_pos (by simpa using hsame), List.lookup_cons, List.lookup_cons,
            ih]

theorem entry?_put_of_some {other : List String} {old : Entry} (h : f.entry? names = none)
    (hother : f.entry? other = some old) (entry : Entry) :
    Files.entry? (f.put names entry) other = some old := by
  rw [entry?_put_of_ne ?_ entry, hother]
  rintro rfl
  rw [h] at hother
  exact absurd hother (by simp)

/-- Nothing is put elsewhere. -/
theorem entry?_put_eq_none {other : List String} (h : f.entry? other = none)
    (hne : other ≠ names) (entry : Entry) : Files.entry? (f.put names entry) other = none :=
  (entry?_put_of_ne hne entry).trans h

/-- Of two entries put under the same names the second one stays. -/
theorem put_put (names : List String) (entry entry' : Entry) (f : Files) :
    (f.put names entry).put names entry' = f.put names entry' := by
  unfold put
  rw [List.filter_cons_of_neg (by simp), List.filter_filter]
  simp only [Bool.and_self]

/-! ## One part of a path -/

section

variable {links : Nat} {start parts : List String} {part : String}
  (hidle : ¬ Path.isIdle part = true) (hup : ¬ part = "..")
include hidle hup

theorem walk_of_directory (h : f.entry? (start ++ [part]) = some .directory) :
    f.walk links start (part :: parts) = f.walk links (start ++ [part]) parts := by
  rw [walk, if_neg hidle, if_neg hup]
  simp only [h]

theorem walk_of_file {content : ByteArray} (h : f.entry? (start ++ [part]) = some (.file content)) :
    f.walk links start (part :: parts) =
      if parts.isEmpty then some (.file (start ++ [part]) content) else none := by
  rw [walk, if_neg hidle, if_neg hup]
  simp only [h]

theorem walk_zero_of_link {target : String}
    (h : f.entry? (start ++ [part]) = some (.link target)) :
    f.walk 0 start (part :: parts) = none := by
  rw [walk, if_neg hidle, if_neg hup]
  simp only [h]

theorem walk_succ_of_link {target : String}
    (h : f.entry? (start ++ [part]) = some (.link target)) :
    f.walk (links + 1) start (part :: parts) =
      f.walk links (if Path.isAbsolute target then [] else start)
        (Path.parts target ++ parts) := by
  rw [walk, if_neg hidle, if_neg hup]
  simp only [h]

theorem walk_of_none (h : f.entry? (start ++ [part]) = none) :
    f.walk links start (part :: parts) =
      if parts.isEmpty then some (.vacant (start ++ [part])) else none := by
  rw [walk, if_neg hidle, if_neg hup]
  simp only [h]

end

/-! ## Paths -/

/-- Nothing stands at a vacant place. -/
theorem entry?_of_walk {links : Nat} {start parts : List String}
    (h : f.walk links start parts = some (.vacant names)) : f.entry? names = none := by
  fun_induction walk f links start parts with
  | case1 => exact absurd h (by simp)
  | case2 _ _ _ _ _ ih => exact ih h
  | case3 _ _ _ _ ih => exact ih h
  | case4 _ _ _ _ _ _ _ _ ih => exact ih h
  | case5 => exact absurd h (by simp)
  | case6 => exact absurd h (by simp)
  | case7 => exact absurd h (by simp)
  | case8 _ _ _ _ _ _ _ _ _ _ ih => exact ih h
  | case9 links start part parts hidle hup names' hentry =>
      have hsame : names' = names := Place.vacant.inj (Option.some.inj h)
      exact hsame ▸ hentry
  | case10 => exact absurd h (by simp)

/-- A path of one name leads to the file of that name in the directory where it begins. -/
theorem place?_of_name {name : String} {content : ByteArray} (hparts : Path.parts name = [name])
    (habsolute : Path.isAbsolute name = false) (hidle : Path.isIdle name = false)
    (hup : name ≠ "..") (h : f.entry? (f.current ++ [name]) = some (.file content)) :
    f.place? name = some (.file (f.current ++ [name]) content) := by
  have hempty : name.isEmpty = false := (Bool.or_eq_false_iff.mp hidle).1
  unfold place?
  rw [hempty, if_neg (by simp), habsolute, if_neg (by simp), hparts,
    walk_of_file (by simp [hidle]) hup h]
  rfl

/-- A path leads where it led before, or to the new file if it led to its vacant place. -/
theorem walk_put (hvacant : f.entry? names = none) (content : ByteArray) (links : Nat)
    (start parts : List String) :
    (f.put names (.file content)).walk links start parts =
      (f.walk links start parts).map (Place.fill names content) := by
  -- nothing that stands already is changed, so the walks differ only where one meets the new file
  fun_induction walk f links start parts with
  | case1 =>
      rw [walk]
      rfl
  | case2 links start part parts hidle ih =>
      rw [walk, if_pos hidle]
      exact ih
  | case3 links start parts hidle ih =>
      rw [walk, if_neg hidle, if_pos rfl]
      exact ih
  | case4 start part parts hidle hup names' links hentry ih =>
      rw [walk_of_directory hidle hup (entry?_put_of_some hvacant hentry _)]
      exact ih
  | case5 links start part parts hidle hup names' content' hentry hend =>
      rw [walk_of_file hidle hup (entry?_put_of_some hvacant hentry _), if_pos hend]
      rfl
  | case6 links start part parts hidle hup names' content' hentry hend =>
      rw [walk_of_file hidle hup (entry?_put_of_some hvacant hentry _), if_neg hend]
      rfl
  | case7 start part parts hidle hup names' target hentry =>
      rw [walk_zero_of_link hidle hup (entry?_put_of_some hvacant hentry _)]
      rfl
  | case8 start part parts hidle hup names' target links hentry start' ih =>
      rw [walk_succ_of_link hidle hup (entry?_put_of_some hvacant hentry _)]
      exact ih
  | case9 links start part parts hidle hup names' hentry hend =>
      by_cases hsame : names' = names
      · -- the path led to the place of the new file
        subst hsame
        have hnew := entry?_put_self (f := f) (ne_nil_of_entry?_eq_none hvacant) (.file content)
        rw [walk_of_file hidle hup hnew, if_pos hend]
        simp [Place.fill, names']
      · have hold := (entry?_put_of_ne hsame (.file content)).trans hentry
        rw [walk_of_none hidle hup hold, if_pos hend]
        simp [Place.fill, hsame, names']
  | case10 links start part parts hidle hup names' hentry hend =>
      by_cases hsame : names' = names
      · -- the new file is no directory to go on from
        subst hsame
        have hnew := entry?_put_self (f := f) (ne_nil_of_entry?_eq_none hvacant) (.file content)
        rw [walk_of_file hidle hup hnew, if_neg hend]
        rfl
      · have hold := (entry?_put_of_ne hsame (.file content)).trans hentry
        rw [walk_of_none hidle hup hold, if_neg hend]
        rfl

theorem entry?_of_place? {path : String} (h : f.place? path = some (.vacant names)) :
    f.entry? names = none := by
  unfold place? at h
  split at h
  · exact absurd h (by simp)
  · exact entry?_of_walk h

theorem place?_put (hvacant : f.entry? names = none) (content : ByteArray) (path : String) :
    (f.put names (.file content)).place? path =
      (f.place? path).map (Place.fill names content) := by
  unfold place?
  by_cases hempty : path.isEmpty = true
  · rw [if_pos hempty, if_pos hempty]
    rfl
  · rw [if_neg hempty, if_neg hempty]
    exact walk_put hvacant content _ _ _

/-- A path leads to what was put at its vacant place. -/
theorem place?_put_self {path : String} (h : f.place? path = some (.vacant names))
    (content : ByteArray) :
    (f.put names (.file content)).place? path = some (.file names content) := by
  rw [place?_put (entry?_of_place? h), h]
  simp [Place.fill]

/-- It does so even if another file was put elsewhere, or there, before. -/
theorem place?_put_put (hvacant : f.entry? names = none) {path : String} {names' : List String}
    (h : f.place? path = some (.vacant names')) (content content' : ByteArray) :
    ((f.put names (.file content)).put names' (.file content')).place? path =
      some (.file names' content') := by
  by_cases hsame : names' = names
  · rw [hsame, put_put]
    exact place?_put_self (hsame ▸ h) content'
  · have hstill : (f.put names (.file content)).place? path = some (.vacant names') := by
      rw [place?_put hvacant, h]
      simp [Place.fill, hsame]
    exact place?_put_self hstill content'

/-- A path still leads to what was put at its vacant place when a file was put elsewhere. -/
theorem place?_put_put_of_ne {path : String} (h : f.place? path = some (.vacant names))
    {names' : List String} (hvacant : f.entry? names' = none) (hne : names' ≠ names)
    (content content' : ByteArray) :
    ((f.put names (.file content)).put names' (.file content')).place? path =
      some (.file names content) := by
  rw [place?_put (entry?_put_eq_none hvacant hne _), place?_put_self h]
  rfl

/-! ## Reading -/

/-- What was written as text is read as that text. -/
theorem readText?_of_file {path text : String}
    (h : f.place? path = some (.file names text.toUTF8)) : f.readText? path = some text := by
  unfold readText?
  rw [h]
  exact dif_pos text.isValidUTF8

theorem read_of_file {path text : String} (h : f.place? path = some (.file names text.toUTF8))
    (what : String) : f.read what path = .ok text := by
  unfold read
  rw [readText?_of_file h]

theorem contains_of_file {path : String} {content : ByteArray}
    (h : f.place? path = some (.file names content)) : f.contains path = true := by
  unfold contains
  rw [h]

/-- What can be read is there. -/
theorem contains_of_read {what path text : String} (h : f.read what path = .ok text) :
    f.contains path = true := by
  unfold read readText? at h
  split at h
  · next hread =>
    split at hread
    · next hplace => exact contains_of_file hplace
    · exact absurd hread (by simp)
  · exact absurd h (by simp)

/-! ## Writing -/

/-- A path that leads to nothing yet leads to a vacant place or nowhere. -/
theorem place?_of_contains_eq_false {path : String} (h : f.contains path = false) :
    f.place? path = none ∨ ∃ names, f.place? path = some (.vacant names) := by
  unfold contains at h
  cases hplace : f.place? path with
  | none => exact .inl rfl
  | some place =>
      rw [hplace] at h
      cases place with
      | directory => exact absurd h (by simp)
      | file => exact absurd h (by simp)
      | vacant names => exact .inr ⟨names, rfl⟩

theorem write?_of_vacant {path : String} (h : f.place? path = some (.vacant names))
    (text : String) : f.write? path text = some (f.put names (.file text.toUTF8)) := by
  unfold write?
  rw [h]

theorem write?_of_none {path : String} (h : f.place? path = none) (text : String) :
    f.write? path text = none := by
  unfold write?
  rw [h]

/-- A path that led nowhere cannot be written after a new file has come to stand elsewhere. -/
theorem write?_put_of_none (hvacant : f.entry? names = none) {path : String}
    (h : f.place? path = none) (content : ByteArray) (text : String) :
    (f.put names (.file content)).write? path text = none := by
  refine write?_of_none ?_ text
  rw [place?_put hvacant, h]
  rfl

/-- A path that led to a vacant place is written there after a new file has come to stand. -/
theorem write?_put_of_vacant (hvacant : f.entry? names = none) {path : String}
    {names' : List String} (h : f.place? path = some (.vacant names')) (content : ByteArray)
    (text : String) : (f.put names (.file content)).write? path text =
      some ((f.put names (.file content)).put names' (.file text.toUTF8)) := by
  have hplace := place?_put hvacant content path
  rw [h] at hplace
  unfold write?
  rw [hplace]
  by_cases hsame : names' = names
  · simp [Place.fill, hsame]
  · simp [Place.fill, hsame]

end Files

end Relock
