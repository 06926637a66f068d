import Mathlib.Data.List.Induction
import Mathlib.Data.List.Nodup
import Relock.Proofs.Root.Containment

/-!
# Files of named entries

A file names the root of each of its entries. The entries are read from the first to the last, up
to the first one that breaks a rule.

* `Rules` are what an entry must keep to by itself. No entry may name a root that one before it
  names; slashes at the end of a name do not count.
* `Outcome` says what reading a file comes to: well-formed files are read, and of all others the
  first entry that breaks a rule is reported. It holds if every single entry is checked and added
  as the rules tell (`Governs.outcome`).
-/

namespace Relock

/-- A name without the slashes at its end. -/
def bareName (name : String) : List Char :=
  Text.dropTail isSlash name.toList

theorem ProjectRoot.ofString_inj {name other : String} :
    ofString name = ofString other ↔ bareName name = bareName other := by
  simp [ofString, ofChars, bareName, String.ofList_inj]

variable {α β γ ε : Type}

/-- What entries must keep to. -/
structure Rules (α ε : Type) where
  name : α → String
  /-- Whether an entry is right by itself. -/
  Sound : α → Prop
  /-- What is wrong with an entry by itself. -/
  Flaw : α → ε → Prop
  /-- The error of a name that came before. -/
  duplicate : String → ε
  sound_iff (e : α) : Sound e ↔ ∀ error, ¬ Flaw e error

namespace Rules

variable (R : Rules α ε)

/-- Whether an entry names the root of one before it. -/
def Repeats (before : List α) (e : α) : Prop :=
  ∃ other ∈ before, bareName (R.name other) = bareName (R.name e)

/-- Entries that keep to the rules, and name every root once. -/
structure WellFormed (entries : List α) : Prop where
  sound : ∀ e ∈ entries, R.Sound e
  nodup : (entries.map fun e => bareName (R.name e)).Nodup

/-- What an entry breaks, given the entries before it. -/
inductive Breaks (before : List α) (e : α) : ε → Prop
  | flaw {error : ε} : R.Flaw e error → Breaks before e error
  | duplicate : R.Sound e → R.Repeats before e → Breaks before e (R.duplicate (R.name e))

/-- What reading some entries comes to. -/
structure Outcome (entries : List α) (result : Except ε β) (Told : β → Prop) : Prop where
  isOk_iff : (∃ b, result = .ok b) ↔ R.WellFormed entries
  /-- The first entry that breaks a rule is reported. -/
  error_iff (error : ε) : result = .error error ↔
    ∃ front e back, entries = front ++ e :: back ∧ R.WellFormed front ∧ R.Breaks front e error
  told {b : β} : result = .ok b → Told b

/-- Checks an entry and adds it to what was read before. -/
def step (check : α → Except ε γ) (add? : β → α → γ → Option β) (b : β) (e : α) : Except ε β :=
  match check e with
  | .error flaw => .error flaw
  | .ok c =>
    match add? b e c with
    | some b => .ok b
    | none => .error (R.duplicate (R.name e))

/-- Checking an entry finds its flaws, and only a root that was there before cannot be added.
`Reads` tells what was read from entries. -/
structure Governs (check : α → Except ε γ) (add? : β → α → γ → Option β)
    (Reads : List α → β → Prop) : Prop where
  check_eq_error_iff {e : α} {error : ε} : check e = .error error ↔ R.Flaw e error
  add?_eq_none_iff {front : List α} {b : β} {e : α} {c : γ} : Reads front b → check e = .ok c →
    (add? b e c = none ↔ R.Repeats front e)
  reads {front : List α} {b b' : β} {e : α} {c : γ} : Reads front b → check e = .ok c →
    add? b e c = some b' → Reads (front ++ [e]) b'

/-! ## One more entry -/

variable {R}

theorem not_breaks_iff {before : List α} {e : α} :
    (∀ error, ¬ R.Breaks before e error) ↔ R.Sound e ∧ ¬ R.Repeats before e := by
  constructor
  · intro h
    have hsound : R.Sound e := (R.sound_iff e).mpr fun error hflaw => h error (.flaw hflaw)
    exact ⟨hsound, fun hrepeats => h _ (.duplicate hsound hrepeats)⟩
  · rintro ⟨hsound, hnew⟩ error (hflaw | ⟨-, hrepeats⟩)
    · exact (R.sound_iff e).mp hsound error hflaw
    · exact hnew hrepeats

theorem wellFormed_nil : R.WellFormed [] :=
  ⟨by simp, by simp⟩

/-- Entries are well-formed if each keeps to the rules, given those before it. -/
theorem wellFormed_concat {front : List α} {e : α} : R.WellFormed (front ++ [e]) ↔
    R.WellFormed front ∧ ∀ error, ¬ R.Breaks front e error := by
  have hnodup : ((front ++ [e]).map fun e => bareName (R.name e)).Nodup ↔
      (front.map fun e => bareName (R.name e)).Nodup ∧ ¬ R.Repeats front e := by
    rw [List.map_append, List.map_singleton, ← List.concat_eq_append, List.nodup_concat, Repeats]
    simp [and_comm]
  rw [not_breaks_iff]
  constructor
  · rintro ⟨hsound, hdistinct⟩
    obtain ⟨hfront, hnew⟩ := hnodup.mp hdistinct
    exact ⟨⟨fun other hother => hsound other (by simp [hother]), hfront⟩, hsound e (by simp), hnew⟩
  · rintro ⟨⟨hfront, hdistinct⟩, hsound, hnew⟩
    refine ⟨fun other hother => ?_, hnodup.mpr ⟨hdistinct, hnew⟩⟩
    rcases List.mem_append.mp hother with hother | hother
    · exact hfront other hother
    · exact List.mem_singleton.mp hother ▸ hsound

theorem WellFormed.not_breaks {front back : List α} {e : α}
    (h : R.WellFormed (front ++ e :: back)) (error : ε) : ¬ R.Breaks front e error := by
  have hfront : R.WellFormed (front ++ [e]) := by
    obtain ⟨hsound, hnodup⟩ := h
    refine ⟨fun other hother => hsound other ?_, hnodup.sublist ?_⟩
    · rcases List.mem_append.mp hother with hother | hother <;> simp_all
    · exact List.Sublist.map _ ((List.Sublist.refl front).append (by simp))
  exact (wellFormed_concat.mp hfront).2 error

section Reading

variable {check : α → Except ε γ} {add? : β → α → γ → Option β} {Reads : List α → β → Prop}

theorem step_of_error {b : β} {e : α} {flaw : ε} (h : check e = .error flaw) :
    R.step check add? b e = .error flaw := by
  rw [step, h]

theorem step_of_some {b b' : β} {e : α} {c : γ} (hcheck : check e = .ok c)
    (hadd : add? b e c = some b') : R.step check add? b e = .ok b' := by
  simp [step, hcheck, hadd]

theorem step_of_none {b : β} {e : α} {c : γ} (hcheck : check e = .ok c)
    (hadd : add? b e c = none) : R.step check add? b e = .error (R.duplicate (R.name e)) := by
  simp [step, hcheck, hadd]

/-- An entry that breaks nothing is added; of any other it is said what it breaks. -/
theorem Governs.step_cases (h : R.Governs check add? Reads) {front : List α} {b : β}
    (hread : Reads front b) (e : α) :
    (∃ b', R.step check add? b e = .ok b' ∧ Reads (front ++ [e]) b' ∧
      ∀ error, ¬ R.Breaks front e error) ∨
    ∃ error, R.step check add? b e = .error error ∧
      ∀ other, R.Breaks front e other ↔ other = error := by
  cases hcheck : check e with
  | error flaw =>
      have hflaw : ∀ other, R.Flaw e other ↔ other = flaw := by
        intro other
        rw [← h.check_eq_error_iff, hcheck, Except.error.injEq, eq_comm]
      refine .inr ⟨flaw, step_of_error hcheck, fun other => ⟨?_, fun heq => ?_⟩⟩
      · rintro (hother | ⟨hsound, -⟩)
        · exact (hflaw other).mp hother
        · exact absurd ((hflaw flaw).mpr rfl) ((R.sound_iff e).mp hsound flaw)
      · exact .flaw ((hflaw other).mpr heq)
  | ok c =>
      have hflaw : ∀ error, ¬ R.Flaw e error := by
        intro error
        rw [← h.check_eq_error_iff, hcheck]
        simp
      -- an entry without a flaw may still repeat an earlier one
      have hsound : R.Sound e := (R.sound_iff e).mpr hflaw
      have hnone := h.add?_eq_none_iff hread hcheck
      cases hadd : add? b e c with
      | some b' =>
          have hnew : ¬ R.Repeats front e := by simp [← hnone, hadd]
          exact .inl ⟨b', step_of_some hcheck hadd, h.reads hread hcheck hadd,
            not_breaks_iff.mpr ⟨hsound, hnew⟩⟩
      | none =>
          refine .inr ⟨_, step_of_none hcheck hadd, fun other => ⟨?_, ?_⟩⟩
          · rintro (hother | -)
            · exact absurd hother (hflaw other)
            · rfl
          · rintro rfl
            exact .duplicate hsound (hnone.mp hadd)

/-! ## All entries -/

theorem Governs.foldlM_cases (h : R.Governs check add? Reads) {b : β} (hstart : Reads [] b)
    (entries : List α) :
    (∃ b', entries.foldlM (R.step check add?) b = .ok b' ∧ R.WellFormed entries ∧
      Reads entries b') ∨
    ∃ front e back error, entries = front ++ e :: back ∧
      entries.foldlM (R.step check add?) b = .error error ∧ R.WellFormed front ∧
      R.Breaks front e error := by
  induction entries using List.reverseRecOn with
  | nil => exact .inl ⟨b, rfl, wellFormed_nil, hstart⟩
  | append_singleton entries e ih =>
      have hfold : (entries ++ [e]).foldlM (R.step check add?) b =
          (entries.foldlM (R.step check add?) b).bind fun b' => R.step check add? b' e := by
        simp only [List.foldlM_append, List.foldlM_cons, List.foldlM_nil, bind_pure]
        rfl
      -- the last entry counts only if all before it were read
      rcases ih with ⟨b', hfront, hfine, hread⟩ | ⟨front, e', back, error, rfl, hfront, hrest⟩
      · rw [hfront] at hfold
        rcases h.step_cases hread e with ⟨next, hstep, hnext, hnone⟩ | ⟨error, hstep, hbreaks⟩
        · exact .inl ⟨next, hfold.trans hstep, wellFormed_concat.mpr ⟨hfine, hnone⟩, hnext⟩
        · exact .inr ⟨entries, e, [], error, rfl, hfold.trans hstep, hfine, (hbreaks error).mpr rfl⟩
      · rw [hfront] at hfold
        exact .inr ⟨front, e', back ++ [e], error, by simp, hfold, hrest⟩

/-- What reading all entries comes to follows from what is said of one. -/
theorem Governs.outcome (h : R.Governs check add? Reads) {b : β} (hstart : Reads [] b)
    (entries : List α) :
    R.Outcome entries (entries.foldlM (R.step check add?) b) (Reads entries) where
  isOk_iff := by
    rcases h.foldlM_cases hstart entries with ⟨b', hok, hfine, -⟩ |
      ⟨front, e, back, error, rfl, herror, -, hbreaks⟩
    · exact iff_of_true ⟨b', hok⟩ hfine
    · exact iff_of_false (by simp [herror]) fun hfine => hfine.not_breaks error hbreaks
  error_iff error := by
    constructor
    · intro herror
      -- reading stops at the first entry that breaks a rule, and that is the one the error is about
      rcases h.foldlM_cases hstart entries with ⟨b', hok, -⟩ |
        ⟨front, e, back, error', hentries, herror', hrest⟩
      · exact absurd (herror.symm.trans hok) (by simp)
      · obtain rfl : error = error' := by simpa using herror.symm.trans herror'
        exact ⟨front, e, back, hentries, hrest⟩
    · -- the entries before it are read, and then it cannot be
      rintro ⟨front, e, back, rfl, hfine, hbreaks⟩
      rcases h.foldlM_cases hstart front with ⟨b', hok, -, hread⟩ |
        ⟨front', e', back', error', rfl, -, -, hbreaks'⟩
      · rw [List.foldlM_append, hok]
        show (e :: back).foldlM (R.step check add?) b' = _
        rcases h.step_cases hread e with ⟨_, -, -, hnone⟩ | ⟨error', hstep, hother⟩
        · exact absurd hbreaks (hnone error)
        · rw [List.foldlM_cons, hstep, (hother error).mp hbreaks]
          rfl
      · exact absurd hbreaks' (hfine.not_breaks error')
  told := by
    intro b' hok
    rcases h.foldlM_cases hstart entries with ⟨b'', hok', -, hread⟩ |
      ⟨_, _, _, error, -, herror, -⟩
    · obtain rfl : b' = b'' := by simpa using hok.symm.trans hok'
      exact hread
    · exact absurd (hok.symm.trans herror) (by simp)

end Reading

/-- What is made of what was read does not matter to the rules. -/
theorem Outcome.map {entries : List α} {result : Except ε β} {Told : β → Prop} {Told' : γ → Prop}
    (h : R.Outcome entries result Told) {f : β → γ} (hf : ∀ b, Told b → Told' (f b)) :
    R.Outcome entries (result.map f) Told' := by
  cases result with
  | error error =>
      exact ⟨by simpa [Except.map] using h.isOk_iff, fun other => by
        simpa [Except.map] using h.error_iff other, nofun⟩
  | ok b =>
      refine ⟨by simpa [Except.map] using h.isOk_iff, fun other => ?_, ?_⟩
      · simpa [Except.map] using h.error_iff other
      · rintro _ ⟨rfl⟩
        exact hf b (h.told rfl)

end Rules

end Relock
