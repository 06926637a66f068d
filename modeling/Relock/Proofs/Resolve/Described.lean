import Relock.Proofs.Resolve.Selection
import Relock.Proofs.Version.Label
import Relock.Proofs.Version.Semver
import Relock.Proofs.Version.Sorted

/-!
# Labels of described commits

A commit some steps after a tag is labelled by the tag, the number of steps and the abbreviated hash
of the commit, such as `v1.12.0-12-g2fd980e`. If the tag is a complete version without build
metadata, then

* the label ends as such labels do (`Label.hasDescribeSuffix_described`);
* it is read as a pre-release of the tag's three numbers (`Label.number?_described`), the last
  identifier of the tag's own pre-release taking up what was added (`Semver.chars_after`);
* that is not the version of the tag, so the tag is never locked because of the label
  (`Resolution.version_choose_of_number_ne`).
-/

namespace Relock

/-! ## What is added to a tag -/

/-- How far a commit is from a tag: the number of steps, and the abbreviated hash of the commit. -/
structure Label.Steps where
  count : String
  hash : String
  count_ne_empty : count ≠ ""
  count_digits : ∀ c ∈ count.toList, c.isDigit = true
  hash_length_ge : 4 ≤ hash.length
  hash_length_le : hash.length ≤ 40
  hash_digits : ∀ c ∈ hash.toList, Text.isLowerHexDigit c = true

theorem isIdentifierChar_of_isLowerHexDigit {c : Char} (h : Text.isLowerHexDigit c = true) :
    isIdentifierChar c = true := by
  rcases Bool.or_eq_true_iff.mp h with hdigit | hletter
  · simp [isIdentifierChar, Char.isAlphanum, hdigit]
  · simp only [Bool.and_eq_true, decide_eq_true_eq, Char.le_def, UInt32.le_iff_toNat_le] at hletter
    have hf : 'f'.val.toNat = 102 := rfl
    have hlow : 97 ≤ c.toNat := hletter.1
    have hhigh : c.toNat ≤ 122 := hletter.2.trans (by omega)
    exact isIdentifierChar_iff.mpr (.inl (.inl (.inr ⟨hlow, hhigh⟩)))

namespace Label.Steps

def chars (steps : Steps) : List Char :=
  steps.count.toList ++ '-' :: 'g' :: steps.hash.toList

/-- Neither digits nor hexadecimal digits are dots, so the steps are a piece of a pre-release. -/
def identifier (steps : Steps) : Identifier where
  chars := steps.chars
  ne_nil := by simp [chars]
  all_identifierChar := by
    simp only [chars, List.all_append, List.all_cons, Bool.and_eq_true, List.all_eq_true]
    refine ⟨fun c hc => ?_, by decide, by decide, fun c hc => ?_⟩
    · exact isIdentifierChar_of_isLowerHexDigit (by
        rw [Text.isLowerHexDigit, steps.count_digits c hc, Bool.true_or])
    · exact isIdentifierChar_of_isLowerHexDigit (steps.hash_digits c hc)

theorem hyphen_mem (steps : Steps) : '-' ∈ steps.identifier.chars := by
  simp [identifier, chars]

end Label.Steps

/-! ## Pre-releases with one more piece -/

namespace Identifier

theorem hasLeadingZero_of_hyphen {i : Identifier} (h : '-' ∈ i.chars) :
    i.hasLeadingZero = false := by
  have hnumeric : i.isNumeric = false := by
    rw [isNumeric, List.all_eq_false]
    exact ⟨'-', h, by decide⟩
  rw [hasLeadingZero, hnumeric, Bool.false_and, Bool.false_and]

/-- Two identifiers as one, with a hyphen between them. -/
def hyphenate (i j : Identifier) : Identifier where
  chars := i.chars ++ '-' :: j.chars
  ne_nil := by simp
  all_identifierChar := by
    rw [List.all_append, i.all_identifierChar, List.all_cons, j.all_identifierChar]
    rfl

/-- Hangs a piece on the last identifier; without one, the piece stands alone. -/
def hang (piece : Identifier) : List Identifier → List Identifier
  | [] => [piece]
  | [i] => [i.hyphenate piece]
  | i :: ids => i :: hang piece ids

theorem joinDots_cons (i : Identifier) {ids : List Identifier} (h : ids ≠ []) :
    joinDots (i :: ids) = i.chars ++ '.' :: joinDots ids := by
  cases ids with
  | nil => exact absurd rfl h
  | cons j ids => simp [joinDots]

theorem hang_ne_nil (piece : Identifier) (ids : List Identifier) : hang piece ids ≠ [] := by
  unfold hang
  split <;> simp

/-- The piece comes after a hyphen at the end. -/
theorem joinDots_hang (piece : Identifier) {ids : List Identifier} (h : ids ≠ []) :
    joinDots (hang piece ids) = joinDots ids ++ '-' :: piece.chars := by
  fun_induction hang piece ids with
  | case1 => exact absurd rfl h
  | case2 i => simp [joinDots, hyphenate]
  | case3 i ids hne ih =>
      rw [joinDots_cons i (hang_ne_nil piece ids), ih hne, joinDots_cons i hne, List.append_assoc,
        List.cons_append]

/-- Something is always added. -/
theorem hang_ne_self (piece : Identifier) (ids : List Identifier) : hang piece ids ≠ ids := by
  by_cases hids : ids = []
  · rw [hids]
    exact hang_ne_nil piece []
  · intro heq
    have hjoin := joinDots_hang piece hids
    rw [heq] at hjoin
    exact absurd (List.self_eq_append_right.mp hjoin) (by simp)

/-- With a hyphen in it, the piece makes no number. -/
theorem hasLeadingZero_of_mem_hang {piece : Identifier} (hpiece : '-' ∈ piece.chars)
    {ids : List Identifier} (hids : ids.all (! ·.hasLeadingZero) = true) :
    (hang piece ids).all (! ·.hasLeadingZero) = true := by
  fun_induction hang piece ids with
  | case1 => simp [hasLeadingZero_of_hyphen hpiece]
  | case2 i => simp [hasLeadingZero_of_hyphen (i := i.hyphenate piece) (by simp [hyphenate])]
  | case3 i ids hne ih =>
      rw [List.all_cons, Bool.and_eq_true] at hids ⊢
      exact ⟨hids.1, ih hids.2⟩

end Identifier

namespace Prerelease

/-- The pre-release of a commit some steps after a version. -/
def after (pre : Prerelease) (steps : Label.Steps) : Prerelease where
  ids := Identifier.hang steps.identifier pre.ids
  canonical := Identifier.hasLeadingZero_of_mem_hang steps.hyphen_mem pre.canonical

theorem isNone_after (pre : Prerelease) (steps : Label.Steps) : (pre.after steps).isNone = false :=
  isNone_eq_false_iff.mpr (Identifier.hang_ne_nil _ _)

end Prerelease

namespace Semver

/-- The version of a commit some steps after a version. -/
def after (v : Semver) (steps : Label.Steps) : Semver :=
  { v with pre := v.pre.after steps }

/-- Without build metadata, the steps are added at the end of the text. -/
theorem chars_after {v : Semver} (hbuild : v.build = []) (steps : Label.Steps) :
    (v.after steps).chars = v.chars ++ '-' :: steps.chars := by
  have hpre : suffixChars (v.pre.after steps) [] = suffixChars v.pre [] ++ '-' :: steps.chars := by
    have hpiece : steps.identifier.chars = steps.chars := rfl
    by_cases hids : v.pre.ids = []
    · simp [suffixChars, Prerelease.isNone, Prerelease.chars, Prerelease.after, hids,
        Identifier.hang, Identifier.joinDots, hpiece]
    · have hjoin := Identifier.joinDots_hang steps.identifier hids
      simp [suffixChars, Prerelease.isNone, Prerelease.chars, Prerelease.after, hids, hjoin, hpiece,
        Identifier.hang_ne_nil]
  rw [chars_eq, chars_eq, hbuild]
  simp [after, hbuild, hpre]

theorem after_ne (v : Semver) (steps : Label.Steps) : v.after steps ≠ v := by
  intro heq
  have hids : (v.after steps).pre.ids = v.pre.ids := by rw [heq]
  exact Identifier.hang_ne_self steps.identifier v.pre.ids hids

end Semver

namespace Label

/-! ## The labels -/

/-- The label of a commit some steps after a tag. -/
def described (tag : String) (steps : Steps) : String :=
  tag ++ "-" ++ steps.count ++ "-g" ++ steps.hash

theorem toList_described (tag : String) (steps : Steps) :
    (described tag steps).toList = tag.toList ++ '-' :: steps.chars := by
  simp [described, Steps.chars]

/-- Whatever the tag is, the label ends as labels of described commits do. -/
theorem hasDescribeSuffix_described (tag : String) (steps : Steps) :
    hasDescribeSuffix (described tag steps) = true := by
  -- the suffix is read from its end: the hash, the letter, and then the count
  have hreverse : (described tag steps).toList.reverse = steps.hash.toList.reverse ++
      'g' :: '-' :: (steps.count.toList.reverse ++ '-' :: tag.toList.reverse) := by
    simp [toList_described, Steps.chars]
  obtain ⟨hhash, hbefore⟩ := @Text.takeWhile_dropWhile_append Text.isLowerHexDigit
    steps.hash.toList.reverse
    ('g' :: '-' :: (steps.count.toList.reverse ++ '-' :: tag.toList.reverse))
    (fun c hc => steps.hash_digits c (List.mem_reverse.mp hc)) (by simp; decide)
  obtain ⟨hcount, htag⟩ := @Text.takeWhile_dropWhile_append Text.isDecimalDigit
    steps.count.toList.reverse ('-' :: tag.toList.reverse)
    (fun c hc => Text.isDecimalDigit_of_isDigit (steps.count_digits c (List.mem_reverse.mp hc)))
    (by simp; decide)
  have hlength : 4 ≤ steps.hash.toList.length ∧ steps.hash.toList.length ≤ 40 := by
    rw [String.length_toList]
    exact ⟨steps.hash_length_ge, steps.hash_length_le⟩
  have hdrop : dropHash? (described tag steps).toList.reverse =
      some (steps.count.toList.reverse ++ '-' :: tag.toList.reverse) := by
    unfold dropHash?
    rw [hreverse, hhash, hbefore]
    simp [hlength]
  unfold hasDescribeSuffix
  rw [hdrop]
  simp [endsInCount, hcount, htag, steps.count_ne_empty]

variable {tag : String} {number : Semver}

/-- The label of a commit after a complete version is a complete version. -/
theorem strictNumber?_described (h : strictNumber? tag = some number) (hbuild : number.build = [])
    (steps : Steps) : strictNumber? (described tag steps) = some (number.after steps) := by
  unfold strictNumber?
  rw [toList_described, dropV_append_cons (by decide), Semver.parse?_eq_some_iff.mp h,
    ← Semver.chars_after hbuild]
  exact Semver.parse?_chars _

theorem number?_described (h : strictNumber? tag = some number) (hbuild : number.build = [])
    (steps : Steps) : number? (described tag steps) = some (number.after steps) :=
  number?_of_strictNumber? (strictNumber?_described h hbuild steps)

end Label

/-! ## What the labels ask for -/

namespace Identifier

/-- The piece stands at the end of the last identifier. -/
theorem suffix_joinDots_hang (piece : Identifier) (ids : List Identifier) :
    piece.chars <:+ joinDots (hang piece ids) := by
  by_cases hids : ids = []
  · simp [hids, hang, joinDots]
  · rw [joinDots_hang piece hids, List.append_cons]
    exact List.suffix_append _ _

end Identifier

/-- The range of a pre-release shows its three numbers and the identifiers. -/
theorem Range.render_caret {v : Semver} (h : v.pre.isNone = false) : (Range.caret v).render =
    String.ofList ('^' :: (Semver.digits v.major ++ '.' :: (Semver.digits v.minor ++
      '.' :: (Semver.digits v.patch ++ '-' :: v.pre.chars)))) := by
  simp [Range.render, Range.chars, Range.caret, Comparator.chars, Partial.chars, Operator.sign, h]

namespace Resolution

variable {root : ProjectRoot} {revision : Revision} {versions : List PairedVersion}

theorem version_byRevision (constraint constraint' : Option Constraint) :
    (byRevision root revision constraint versions).1.version =
      (byRevision root revision constraint' versions).1.version := by
  unfold byRevision
  cases atRevision revision versions <;> rfl

/-- If the version that is locked has not the number of the label, it would be locked without the
label as well. -/
theorem version_choose_of_number_ne {text : String} {number : Semver} {locked : LockedVersion}
    (hnumber : Label.number? text = some number)
    (hlocked : (choose root revision (some text) versions).1.version = locked)
    (hne : ∀ p, locked = .paired p → p.version.number? ≠ some number) :
    (choose root revision none versions).1.version = locked := by
  rw [choose_of_numbered hnumber] at hlocked
  cases hspelled : spelledLike? text (atRevision revision (ofNumber number versions)) with
  | some exact =>
      rw [hspelled] at hlocked
      have hmem := mem_atRevision_ofNumber.mp (mem_of_spelledLike? hspelled)
      exact absurd hmem.2 (hne exact hlocked.symm)
  | none =>
      rw [hspelled] at hlocked
      rw [choose_of_unnumbered rfl, ← hlocked]
      exact version_byRevision none _

end Resolution

/-! ## A described commit is no release -/

/-- What is known of the label of a commit some steps after a tag: it is read as `v`, which is based
on the number of the tag. -/
structure DescribedCommit (tag : String) (number : Semver) (steps : Label.Steps)
    (v : Semver) : Prop where
  hasDescribeSuffix : Label.hasDescribeSuffix (Label.described tag steps) = true
  number? : Label.number? (Label.described tag steps) = some v
  major : v.major = number.major
  minor : v.minor = number.minor
  patch : v.patch = number.patch
  isNone_pre : v.pre.isNone = false
  /-- The pre-release ends in the number of steps, `-g` and the hash. -/
  suffix_pre : (steps.count ++ "-g" ++ steps.hash).toList <:+ v.pre.chars
  /-- The label asks for versions compatible with its own. -/
  render_caret : (Constraint.caret v).render =
    String.ofList ('^' :: (Semver.digits v.major ++ '.' :: (Semver.digits v.minor ++
      '.' :: (Semver.digits v.patch ++ '-' :: v.pre.chars))))
  parse?_caret : Range.parse? (Constraint.caret v).render.toList = some (.caret v)
  ne_number : v ≠ number
  ofTag_tag : Version.ofTag tag = .semver number tag
  /-- No version that is chosen by the label is the tag. -/
  unmatched : ∀ (revision : Revision) (versions : List PairedVersion) (p : PairedVersion),
    Resolution.spelledLike? (Label.described tag steps)
        (Resolution.atRevision revision (Resolution.ofNumber v versions)) = some p →
      p.version ≠ Version.ofTag tag
  /-- If a tag of that number is locked, it is locked as it would be without a label. -/
  unlabelled : ∀ {σ : Type} (provider : Provider σ) (root : ProjectRoot) (source : Option String)
    (revision : Revision) (s : Session σ) (r : Resolution) (p : PairedVersion),
      (resolve provider root source revision (some (Label.described tag steps)) s).1 = .ok r →
        r.version = .paired p → p.version.number? = some number →
          ∃ r', (resolve provider root source revision none s).1 = .ok r' ∧ r'.version = .paired p
  kind_ofTag : (Version.ofTag (Label.described tag steps)).kind = .prerelease
  /-- As a tag, the label comes after every release. -/
  after_release : ∀ (release : Semver) (label : String), release.pre.isNone = true →
    (Version.semver release label).upgradeOrder (Version.ofTag (Label.described tag steps)) = .lt

/-- The label of a commit after a complete version without build metadata keeps the version's three
numbers, and is another version. -/
theorem describedCommit_after {tag : String} {number : Semver}
    (h : Label.strictNumber? tag = some number) (hbuild : number.build = []) (steps : Label.Steps) :
    DescribedCommit tag number steps (number.after steps) := by
  have hread := Label.number?_described h hbuild steps
  have hsome : (number.after steps).pre.isNone = false := number.pre.isNone_after steps
  have htag := Version.ofTag_of_strictNumber? h
  have hlabel := Version.ofTag_of_strictNumber? (Label.strictNumber?_described h hbuild steps)
  have hne := number.after_ne steps
  refine {
    hasDescribeSuffix := Label.hasDescribeSuffix_described tag steps
    number? := hread
    major := rfl
    minor := rfl
    patch := rfl
    isNone_pre := hsome
    suffix_pre := ?_
    render_caret := Range.render_caret hsome
    parse?_caret := ?_
    ne_number := hne
    ofTag_tag := htag
    unmatched := fun revision versions p hp hversion => ?_
    unlabelled := fun provider root source revision s r p hr hlocked hnumber => ?_
    kind_ofTag := ?_
    after_release := fun release label hrelease => ?_ }
  · have hchars : (steps.count ++ "-g" ++ steps.hash).toList = steps.identifier.chars := by
      simp [Label.Steps.identifier, Label.Steps.chars]
    rw [hchars]
    exact Identifier.suffix_joinDots_hang steps.identifier number.pre.ids
  · show Range.parse? (Range.caret (number.after steps)).render.toList = _
    rw [Range.render, String.toList_ofList, Range.parse?_chars]
  · -- a tag that the label matched would carry the described number, and it carries its own
    have hmatched := (Resolution.mem_atRevision_ofNumber.mp (Resolution.mem_of_spelledLike? hp)).2
    rw [hversion, htag] at hmatched
    exact hne (Option.some.inj hmatched).symm
  · -- the label matches nothing, so what is locked is what is locked without it
    obtain ⟨versions, hlisted, -⟩ := Resolution.locks_of_resolve hr
    rw [Resolution.resolve_of_listed hlisted] at hr
    obtain rfl := Except.ok.inj hr
    rw [Resolution.resolve_of_listed hlisted]
    refine ⟨_, rfl, Resolution.version_choose_of_number_ne hread hlocked fun q hq hq' => ?_⟩
    obtain rfl := LockedVersion.paired.inj hq
    rw [hnumber] at hq'
    exact hne (Option.some.inj hq').symm
  · rw [hlabel, Version.kind_semver, hsome]
    rfl
  · rw [hlabel, Version.upgradeOrder, Version.rank, Version.rank, hrelease, hsome]
    rfl

namespace NumberedCandidate

def tag : String := "v1.12.0-rc.7"

/-- A pre-release that ends in a number. -/
def number : Semver where
  major := 1
  minor := 12
  patch := 0
  pre := ⟨[⟨['r', 'c'], by decide, by decide⟩, ⟨['7'], by decide, by decide⟩], by decide⟩
  build := []

/-- The count has a zero in front, which no number in a pre-release may have. -/
def steps : Label.Steps where
  count := "012"
  hash := "2fd980e"
  count_ne_empty := by decide
  count_digits := List.all_eq_true.mp (by decide)
  hash_length_ge := by decide
  hash_length_le := by decide
  hash_digits := List.all_eq_true.mp (by decide)

end NumberedCandidate

open NumberedCandidate in
theorem describedCommit_after_numberedCandidate :
    Label.strictNumber? tag = some number ∧ number.build = [] ∧
      Label.described tag steps = "v1.12.0-rc.7-012-g2fd980e" ∧
      DescribedCommit tag number steps (number.after steps) ∧
      (Constraint.caret (number.after steps)).render = "^1.12.0-rc.7-012-g2fd980e" := by
  have hnumber : Label.strictNumber? tag = some number := by decide +kernel
  exact ⟨hnumber, rfl, by decide +kernel, describedCommit_after hnumber rfl steps,
    by decide +kernel⟩

end Relock
