import Mathlib.Algebra.Group.Nat.Defs
import Relock.Inputs
import Relock.Proofs.Json
import Relock.Proofs.Version.Range

/-!
# The digest of a manifest stands for the manifest

A manifest is digested as JSON text. The text can be read back (`Json.parse?_compact`), and every
part of a manifest can be told from its JSON, but for the order of what is ignored: constraints
(`Constraint.toJson_injective`), which needs that ranges can be told from their texts, properties
(`ProjectProperties.toJson_injective`), and whole manifests (`Manifest.inputs_eq_iff`). So two
manifests have the same digest if they ask and ignore the same, and else only if SHA-256 gives two
different messages one digest (`Digest.Collide`).
-/

namespace Relock

/-! ## Parts of a manifest -/

namespace Json

theorem text_injective : Function.Injective text := by
  intro s t h
  unfold text at h
  exact Option.some.inj (Json.string.inj h)

theorem record_injective : Function.Injective record := by
  intro members members' h
  have hnames := Json.object.inj h
  refine List.map_injective_iff.mpr ?_ hnames
  rintro ⟨name, value⟩ ⟨name', value'⟩ hmember
  obtain ⟨hname, hvalue⟩ := Prod.mk.inj hmember
  rw [Option.some.inj hname, hvalue]

theorem spelled_textOrNull (s : Option String) : (textOrNull s).Spelled := by
  cases s with
  | none => exact .null
  | some s => exact .text s

theorem textOrNull_injective : Function.Injective textOrNull := by
  intro s t h
  cases s <;> cases t
  · rfl
  · exact absurd h (by simp [textOrNull, text])
  · exact absurd h (by simp [textOrNull, text])
  · exact congrArg some (text_injective h)

end Json

namespace Constraint

theorem spelled_toJson (c : Constraint) : c.toJson.Spelled := by
  cases c with
  | range r => exact .record _ (by simp [Json.Spelled.text])
  | branch name => exact .record _ (by simp [Json.Spelled.text])

theorem toJson_injective : Function.Injective toJson := by
  intro c c' h
  cases c with
  | range r =>
      cases c' with
      | range r' =>
          have hmembers := Json.record_injective h
          simp only [List.cons.injEq, Prod.mk.injEq, and_true, true_and] at hmembers
          rw [Range.render_injective (Json.text_injective hmembers)]
      | branch name => exact absurd (Json.record_injective h) (by simp)
  | branch name =>
      cases c' with
      | range r' => exact absurd (Json.record_injective h) (by simp)
      | branch name' =>
          have hmembers := Json.record_injective h
          simp only [List.cons.injEq, Prod.mk.injEq, and_true, true_and] at hmembers
          rw [Json.text_injective hmembers]

end Constraint

namespace ProjectProperties

theorem spelled_toJson (p : ProjectProperties) : p.toJson.Spelled := by
  obtain ⟨constraint, source⟩ := p
  have hconstraint : (constraint.elim .null Constraint.toJson).Spelled := by
    cases constraint with
    | none => exact .null
    | some c => exact c.spelled_toJson
  refine .record _ ?_
  intro member hmember
  simp only [List.mem_cons, List.not_mem_nil, or_false] at hmember
  rcases hmember with rfl | rfl
  · exact hconstraint
  · exact Json.spelled_textOrNull source

theorem toJson_injective : Function.Injective toJson := by
  rintro ⟨constraint, source⟩ ⟨constraint', source'⟩ h
  have hmembers := Json.record_injective h
  simp only [List.cons.injEq, Prod.mk.injEq, and_true, true_and] at hmembers
  obtain ⟨hconstraint, hsource⟩ := hmembers
  rw [Json.textOrNull_injective hsource]
  cases constraint with
  | none =>
      cases constraint' with
      | none => rfl
      | some c => cases c <;> exact absurd hconstraint (by simp [Constraint.toJson, Json.record])
  | some c =>
      cases constraint' with
      | none => cases c <;> exact absurd hconstraint (by simp [Constraint.toJson, Json.record])
      | some c' => rw [Constraint.toJson_injective hconstraint]

end ProjectProperties

/-! ## Whole manifests -/

namespace Manifest

/-- The manifests ask the same, and ignore the same in whatever order. -/
def SameInputs (m m' : Manifest) : Prop :=
  m.constraints = m'.constraints ∧ m.ignored.Perm m'.ignored

theorem spelled_inputs (m : Manifest) : m.inputs.Spelled := by
  refine .record _ ?_
  intro member hmember
  simp only [List.mem_cons, List.not_mem_nil, or_false] at hmember
  rcases hmember with rfl | rfl
  · refine .record _ ?_
    intro asked hasked
    obtain ⟨⟨root, p⟩, -, rfl⟩ := List.mem_map.mp hasked
    exact p.spelled_toJson
  · refine .array _ ?_
    intro package hpackage
    obtain ⟨name, -, rfl⟩ := List.mem_map.mp hpackage
    exact .text name

/-- Constraints can be told from the members of an object. -/
theorem constraints_eq_of_map_eq {a b : SortedMap ProjectRoot ProjectProperties}
    (h : (a.entries.map fun (root, p) => (root.text, p.toJson)) =
      b.entries.map fun (root, p) => (root.text, p.toJson)) : a = b := by
  have hinjective : Function.Injective
      fun entry : ProjectRoot × ProjectProperties => (entry.1.text, entry.2.toJson) := by
    rintro ⟨root, p⟩ ⟨root', p'⟩ hentry
    obtain ⟨htext, hjson⟩ := Prod.mk.inj hentry
    have hroot : root = root' := by
      cases root
      cases root'
      simpa using htext
    have hproperties : p = p' := ProjectProperties.toJson_injective hjson
    rw [hroot, hproperties]
  have hentries : a.entries = b.entries := List.map_injective_iff.mpr hinjective h
  cases a
  cases b
  simpa using hentries

/-- Sorting forgets the order and nothing else. -/
theorem mergeSort_eq_iff {texts texts' : List String} :
    texts.mergeSort (· ≤ ·) = texts'.mergeSort (· ≤ ·) ↔ texts.Perm texts' := by
  have hperm : ∀ texts : List String, (texts.mergeSort (· ≤ ·)).Perm texts :=
    fun texts => List.mergeSort_perm texts _
  have hsorted : ∀ texts : List String,
      (texts.mergeSort (· ≤ ·)).Pairwise fun a b => decide (a ≤ b) = true := by
    intro texts
    apply List.pairwise_mergeSort
    · intro a b c hab hbc
      simp only [decide_eq_true_eq] at hab hbc ⊢
      exact String.le_trans hab hbc
    · intro a b
      simpa using String.le_total a b
  constructor
  · intro h
    exact (hperm texts).symm.trans (h ▸ hperm texts')
  · intro h
    apply List.Perm.eq_of_pairwise _ (hsorted texts) (hsorted texts')
    · exact (hperm texts).trans (h.trans (hperm texts').symm)
    · intro a b _ _ hab hba
      exact String.le_antisymm (of_decide_eq_true hab) (of_decide_eq_true hba)

/-- All that bears on resolution can be told from the JSON, and nothing else. -/
theorem inputs_eq_iff {m m' : Manifest} : m.inputs = m'.inputs ↔ m.SameInputs m' := by
  constructor
  · intro h
    have hmembers := Json.record_injective h
    simp only [List.cons.injEq, Prod.mk.injEq, and_true, true_and] at hmembers
    obtain ⟨hconstraints, hignored⟩ := hmembers
    refine ⟨constraints_eq_of_map_eq (Json.record_injective hconstraints), ?_⟩
    have htexts := List.map_injective_iff.mpr Json.text_injective (Json.array.inj hignored)
    exact mergeSort_eq_iff.mp htexts
  · rintro ⟨hconstraints, hignored⟩
    unfold inputs
    rw [hconstraints, mergeSort_eq_iff.mpr hignored]

/-- The bytes that are digested are the same for the same inputs only. -/
theorem toUTF8_inputsText_eq_iff {m m' : Manifest} :
    m.inputsText.toUTF8 = m'.inputsText.toUTF8 ↔ m.SameInputs m' := by
  rw [← inputs_eq_iff]
  constructor
  · intro h
    have htext : m.inputsText = m'.inputsText := String.toByteArray_inj.mp h
    have hchars : m.inputs.compact = m'.inputs.compact := String.ofList_injective htext
    exact Json.compact_injective m.spelled_inputs m'.spelled_inputs hchars
  · intro h
    unfold inputsText
    rw [h]

end Manifest

/-! ## Digests -/

namespace Digest

/-- A number is known from as many digits of base sixteen as it has. -/
theorem eq_of_digits (k : Nat) {m n : Nat} (hm : m < 16 ^ k) (hn : n < 16 ^ k)
    (h : ∀ i < k, m / 16 ^ i % 16 = n / 16 ^ i % 16) : m = n := by
  induction k generalizing m n with
  | zero => rw [Nat.lt_one_iff.mp hm, Nat.lt_one_iff.mp hn]
  | succ k ih =>
      have hlow : m % 16 = n % 16 := by simpa using h 0 (Nat.succ_pos k)
      rw [Nat.pow_succ'] at hm hn
      have hhigh : m / 16 = n / 16 := by
        refine ih (Nat.div_lt_of_lt_mul hm) (Nat.div_lt_of_lt_mul hn) fun i hi => ?_
        rw [Nat.div_div_eq_div_mul, Nat.div_div_eq_div_mul, ← Nat.pow_succ']
        exact h (i + 1) (Nat.succ_lt_succ hi)
      rw [← Nat.div_add_mod m 16, ← Nat.div_add_mod n 16, hhigh, hlow]

theorem wordDigits_injective : Function.Injective wordDigits := by
  intro w w' h
  apply UInt32.toNat_inj.mp
  refine eq_of_digits 8 w.toNat_lt w'.toNat_lt fun i hi => ?_
  -- the digits are written from the highest to the lowest
  have hdigit := List.map_inj_left.mp h (7 - i) (List.mem_range.mpr (by omega))
  have hvalue := congrArg Text.hexValue? hdigit
  rw [Json.Token.hexValue?_hexDigit, Json.Token.hexValue?_hexDigit, Option.some_inj,
    Nat.shiftRight_eq_div_pow, Nat.shiftRight_eq_div_pow, Nat.sub_sub_self (by omega), Nat.pow_mul]
    at hvalue
  exact hvalue

theorem length_wordDigits (w : UInt32) : (wordDigits w).length = 8 := by
  rw [wordDigits, List.length_map, List.length_range]

theorem flatMap_wordDigits_ne_nil (w : UInt32) (ws : List UInt32) :
    (w :: ws).flatMap wordDigits ≠ [] := by
  intro h
  have hlength := congrArg List.length h
  rw [List.flatMap_cons, List.length_append, length_wordDigits, List.length_nil] at hlength
  omega

theorem flatMap_wordDigits_injective : Function.Injective (List.flatMap wordDigits) := by
  intro ws ws' h
  induction ws generalizing ws' with
  | nil =>
      cases ws' with
      | nil => rfl
      | cons w' ws' => exact absurd h.symm (flatMap_wordDigits_ne_nil w' ws')
  | cons w ws ih =>
      cases ws' with
      | nil => exact absurd h (flatMap_wordDigits_ne_nil w ws)
      | cons w' ws' =>
          rw [List.flatMap_cons, List.flatMap_cons] at h
          obtain ⟨hfirst, hrest⟩ :=
            List.append_inj h ((length_wordDigits w).trans (length_wordDigits w').symm)
          rw [wordDigits_injective hfirst, ih hrest]

/-- Digests that are written alike are alike. -/
theorem hex_eq_iff {a b : List UInt8} : hex a = hex b ↔ sha256 a = sha256 b := by
  unfold hex
  rw [String.ofList_inj, flatMap_wordDigits_injective.eq_iff]

/-- Different messages with the same digest. -/
def Collide (a b : ByteArray) : Prop :=
  a ≠ b ∧ sha256 a.toList = sha256 b.toList

end Digest

namespace Manifest

theorem inputsDigest_eq_iff_sha256 {m m' : Manifest} : m.inputsDigest = m'.inputsDigest ↔
    Digest.sha256 m.inputsText.toUTF8.toList = Digest.sha256 m'.inputsText.toUTF8.toList :=
  Digest.hex_eq_iff

/-- Exactly the manifests that ask and ignore the same are digested as the same bytes, so that they
have the same digest; and any two others have different ones unless SHA-256 has a collision there. -/
theorem inputsDigest_eq_iff (m m' : Manifest) :
    (m.inputsText.toUTF8 = m'.inputsText.toUTF8 ↔ m.SameInputs m') ∧
      (m.inputsDigest = m'.inputsDigest ↔ m.SameInputs m' ∨
        Digest.Collide m.inputsText.toUTF8 m'.inputsText.toUTF8) := by
  refine ⟨toUTF8_inputsText_eq_iff, ?_⟩
  rw [← toUTF8_inputsText_eq_iff, inputsDigest_eq_iff_sha256]
  constructor
  · intro h
    by_cases hbytes : m.inputsText.toUTF8 = m'.inputsText.toUTF8
    · exact .inl hbytes
    · exact .inr ⟨hbytes, h⟩
  · rintro (hbytes | ⟨-, hdigest⟩)
    · rw [hbytes]
    · exact hdigest

end Manifest

namespace BranchAndVersion

/-- A manifest that asks something of one root. -/
def asking (constraint : Constraint) (ignored : List String) : Manifest where
  constraints := SortedMap.empty.insert (.ofString "github.com/x/dep") ⟨some constraint, none⟩
  ignored := ignored

def branch : Constraint := .branch "main"

def version : Constraint := .caret (.release 1 2 0)

end BranchAndVersion

open BranchAndVersion in
theorem inputsDigest_eq_iff_branchAndVersion :
    (asking branch ["a", "b"]).inputsDigest = (asking branch ["b", "a"]).inputsDigest ∧
      (asking branch []).inputsText.toUTF8 ≠ (asking version []).inputsText.toUTF8 ∧
      ¬ Digest.Collide (asking branch []).inputsText.toUTF8 (asking version []).inputsText.toUTF8 := by
  have hother : ¬ (asking branch []).SameInputs (asking version []) :=
    fun h => absurd h.1 (by decide +kernel)
  refine ⟨?_, ?_, fun hcollide => ?_⟩
  · rw [(Manifest.inputsDigest_eq_iff (asking branch ["a", "b"]) (asking branch ["b", "a"])).2]
    exact .inl ⟨rfl, .swap ..⟩
  · rwa [Ne, (Manifest.inputsDigest_eq_iff (asking branch []) (asking version [])).1]
  · have hsame :=
      (Manifest.inputsDigest_eq_iff (asking branch []) (asking version [])).2.mpr (.inr hcollide)
    exact absurd hsame (by decide +kernel)

end Relock
