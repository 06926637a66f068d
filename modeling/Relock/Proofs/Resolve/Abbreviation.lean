import Relock.Proofs.Resolve.Selection

/-!
# Abbreviated revisions

A record may pin a revision by the first digits of its hash. All that a resolution asks of a
revision is which versions are there (`choose_congr`), and if no other revision that is listed
begins with those digits, the versions at the abbreviation are the versions at the revision
(`Abbreviates.isNamedBy_eq`). So both resolve to the same, and what is locked has the revision in
full (`resolve_eq_of_abbreviates`).
-/

namespace Relock

namespace Revision

theorem utf8Size_of_isHexDigit {c : Char} (h : Text.isHexDigit c = true) : c.utf8Size = 1 := by
  simp only [Text.isHexDigit, Text.isLowerHexDigit, Char.isDigit, Bool.or_eq_true,
    Bool.and_eq_true, decide_eq_true_eq, Char.le_def, UInt32.le_iff_toNat_le] at h
  rw [Char.utf8Size_eq_one_iff, UInt32.le_iff_toNat_le]
  have hdigit : '9'.val.toNat = 57 := rfl
  have hlower : 'f'.val.toNat = 102 := rfl
  have hupper : 'F'.val.toNat = 70 := rfl
  change c.val.toNat ≤ 127
  omega

/-- A text of hexadecimal digits has as many bytes as digits. -/
theorem utf8ByteSize_of_isHexDigit {s : String} (h : ∀ c ∈ s.toList, Text.isHexDigit c = true) :
    s.utf8ByteSize = s.length := by
  obtain ⟨cs, rfl⟩ : ∃ cs, s = String.ofList cs := ⟨s.toList, (String.ofList_toList).symm⟩
  rw [String.toList_ofList] at h
  rw [String.length_ofList]
  induction cs with
  | nil => rfl
  | cons c cs ih =>
      rw [List.forall_mem_cons] at h
      rw [String.ofList_cons, String.utf8ByteSize_append, String.utf8ByteSize_singleton,
        utf8Size_of_isHexDigit h.1, ih h.2, List.length_cons, Nat.add_comm]

/-- `short` are the first 7 to 40 digits of `full`. -/
structure Abbreviates (short full : Revision) : Prop where
  front : short.text.toList <+: full.text.toList
  digits : ∀ c ∈ short.text.toList, Text.isHexDigit c = true
  length_ge : 7 ≤ short.text.length
  length_le : short.text.length ≤ 40

namespace Abbreviates

variable {short full : Revision}

theorem looksLikeCommit (h : Abbreviates short full) :
    Revision.looksLikeCommit short.text = true := by
  have hlow := h.length_ge
  have hhigh := h.length_le
  unfold Revision.looksLikeCommit
  rw [utf8ByteSize_of_isHexDigit h.digits]
  simp [hlow, hhigh, List.all_eq_true.mpr h.digits]

theorem isNamedBy_iff (h : Abbreviates short full) {known : Revision} :
    known.isNamedBy short = true ↔ short.text.toList <+: known.text.toList := by
  unfold isNamedBy
  rw [h.looksLikeCommit, Bool.true_and, Bool.or_eq_true, decide_eq_true_eq,
    List.isPrefixOf_iff_prefix]
  constructor
  · rintro (rfl | hfront)
    · exact List.prefix_refl _
    · exact hfront
  · exact .inr

/-- If no other revision begins alike, the abbreviation names what the revision names, whatever the
revision itself looks like. -/
theorem isNamedBy_eq (h : Abbreviates short full) {known : Revision}
    (honly : short.text.toList <+: known.text.toList → known = full) :
    known.isNamedBy short = known.isNamedBy full := by
  rw [Bool.eq_iff_iff, h.isNamedBy_iff]
  constructor
  · intro hfront
    rw [honly hfront]
    simp [isNamedBy]
  · intro hnamed
    unfold isNamedBy at hnamed
    rw [Bool.or_eq_true, Bool.and_eq_true, decide_eq_true_eq, List.isPrefixOf_iff_prefix] at hnamed
    rcases hnamed with rfl | ⟨_, hfront⟩
    · exact h.front
    · exact h.front.trans hfront

end Abbreviates

end Revision

namespace Resolution

variable {revision revision' : Revision} {versions : List PairedVersion}

theorem atRevision_congr
    (h : ∀ v ∈ versions, v.revision.isNamedBy revision = v.revision.isNamedBy revision') :
    atRevision revision versions = atRevision revision' versions :=
  List.filter_congr h

theorem byRevision_congr (root : ProjectRoot) (constraint : Option Constraint)
    (hhere : atRevision revision versions = atRevision revision' versions)
    (hsome : atRevision revision' versions ≠ []) :
    (byRevision root revision constraint versions).1 =
      (byRevision root revision' constraint versions).1 := by
  unfold byRevision
  rw [hhere]
  cases hversions : atRevision revision' versions with
  | nil => exact absurd hversions hsome
  | cons best others => rfl

/-- Two revisions that name the same versions choose the same, provided that they name any. -/
theorem choose_congr (root : ProjectRoot) (label : Option String)
    (hnamed : ∀ v ∈ versions, v.revision.isNamedBy revision = v.revision.isNamedBy revision')
    (hsome : atRevision revision' versions ≠ []) :
    (choose root revision label versions).1 = (choose root revision' label versions).1 := by
  have hhere := atRevision_congr hnamed
  cases hnumber : numberOf? label with
  | none =>
      rw [choose_of_unnumbered hnumber, choose_of_unnumbered hnumber]
      exact byRevision_congr root none hhere hsome
  | some number =>
      obtain ⟨text, rfl, htext⟩ := Option.bind_eq_some_iff.mp hnumber
      have htagged : atRevision revision (ofNumber number versions) =
          atRevision revision' (ofNumber number versions) :=
        atRevision_congr fun v hv => hnamed v (mem_ofNumber.mp hv).1
      rw [choose_of_numbered htext, choose_of_numbered htext, htagged,
        byRevision_congr root _ hhere hsome]

end Resolution

/-- An abbreviation that fits only one of the revisions listed resolves as that revision does, even
if others list the same versions at another time. A version is locked, at the revision in full. -/
theorem resolve_eq_of_abbreviates {σ τ : Type} {provider : Provider σ} {provider' : Provider τ}
    {root : ProjectRoot} {source : Option String} {s : Session σ} {t : Session τ}
    {versions : List PairedVersion} {short full : Revision}
    (hlisted : (s.listVersions provider root source).1 = .ok versions)
    (hlisted' : (t.listVersions provider' root source).1 = .ok versions)
    (hshort : short.Abbreviates full)
    (honly : ∀ v ∈ versions, short.text.toList <+: v.revision.text.toList → v.revision = full)
    (hsome : ∃ v ∈ versions, v.revision = full) (label : Option String) :
    ∃ constraint, ∃ v ∈ versions, v.revision = full ∧
      (resolve provider root source short label s).1 = .ok ⟨constraint, .paired v⟩ ∧
      (resolve provider' root source full label t).1 = .ok ⟨constraint, .paired v⟩ := by
  have hnamed : ∀ v ∈ sortForUpgrade versions,
      v.revision.isNamedBy short = v.revision.isNamedBy full := fun v hv =>
    hshort.isNamedBy_eq (honly v (mem_sortForUpgrade.mp hv))
  have hnonempty : Resolution.atRevision full (sortForUpgrade versions) ≠ [] := by
    obtain ⟨v, hv, hfull⟩ := hsome
    apply List.ne_nil_of_mem
    rw [Resolution.mem_atRevision, mem_sortForUpgrade]
    exact ⟨hv, by simp [Revision.isNamedBy, hfull]⟩
  rw [Resolution.resolve_of_listed hlisted, Resolution.resolve_of_listed hlisted',
    Resolution.choose_congr root label hnamed hnonempty]
  -- a version at the full revision is chosen, and no other revision is named by it
  have hpicks := Resolution.picks_choose root full label (pairwise_sortForUpgrade versions)
  rcases hchosen : (Resolution.choose root full label (sortForUpgrade versions)).1 with
    ⟨constraint, locked⟩
  rw [hchosen] at hpicks
  obtain ⟨v, hv, rfl⟩ | rfl := hpicks.locks
  · obtain ⟨hmem, hat⟩ := Resolution.mem_atRevision.mp hv
    have hfull : v.revision = full := by
      rw [← hnamed v hmem, hshort.isNamedBy_iff] at hat
      exact honly v (mem_sortForUpgrade.mp hmem) hat
    exact ⟨constraint, v, mem_sortForUpgrade.mp hmem, hfull, rfl, rfl⟩
  · exact absurd (hpicks.bare_iff.mp rfl) hnonempty

namespace SharedDigits

def full : Revision := ⟨"ff2948a2ac8f538c4ecd55962e919d1e13e74baf"⟩

def short : Revision := ⟨"ff2948a"⟩

/-- The tag of the label has moved to a revision that shares six digits with the recorded one. -/
def versions : List PairedVersion :=
  [⟨.branch "main" true, full⟩, ⟨.ofTag "1.0.0", full⟩,
    ⟨.ofTag "v1.1.0", ⟨"ff2948b31f0d538c4ecd55962e919d1e13e74baf"⟩⟩]

def provider : Provider Unit :=
  .fixed "listing" (fun _ _ => .ok versions) fun _ => .ok true

def root : ProjectRoot := .ofString "github.com/x/dep"

end SharedDigits

open SharedDigits in
theorem resolve_eq_of_abbreviates_sharedDigits :
    ((Session.start ()).listVersions provider root none).1 = .ok versions ∧
      short.Abbreviates full ∧
      (∀ v ∈ versions, short.text.toList <+: v.revision.text.toList → v.revision = full) ∧
      (∃ v ∈ versions, v.revision = full) ∧
      ∃ constraint, ∃ v ∈ versions, v.revision = full ∧
        (resolve provider root none short (some "v1.1") (.start ())).1 =
          .ok ⟨constraint, .paired v⟩ ∧
        (resolve provider root none full (some "v1.1") (.start ())).1 =
          .ok ⟨constraint, .paired v⟩ := by
  have hlisted : ((Session.start ()).listVersions provider root none).1 = .ok versions := rfl
  have hdigits : short.text.toList.all Text.isHexDigit = true := by decide
  have hshort : short.Abbreviates full :=
    ⟨by simp [short, full], List.all_eq_true.mp hdigits, by decide, by decide⟩
  have hother : ¬ short.text.toList <+:
      "ff2948b31f0d538c4ecd55962e919d1e13e74baf".toList := by simp [short]
  have honly : ∀ v ∈ versions, short.text.toList <+: v.revision.text.toList →
      v.revision = full := by
    intro v hv hfront
    simp only [versions, List.mem_cons, List.not_mem_nil, or_false] at hv
    rcases hv with rfl | rfl | rfl
    · rfl
    · rfl
    · exact absurd hfront hother
  have hsome : ∃ v ∈ versions, v.revision = full := ⟨_, List.mem_cons_self, rfl⟩
  exact ⟨hlisted, hshort, honly, hsome,
    resolve_eq_of_abbreviates hlisted hlisted hshort honly hsome (some "v1.1")⟩

end Relock
