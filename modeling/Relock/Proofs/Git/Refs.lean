import Mathlib.Data.List.Induction
import Mathlib.Data.List.Nodup
import Relock.Git.Refs
import Relock.Proofs.LockFile

/-!
# What an advertisement says

A repository may tell its refs in any order, and nothing may depend on it: the commit of an
annotated tag can come before the tag object, after it, or without it.

* `commitOf?` is what refs say of a tag, by the two names under which they can say it.
* **the step** (`lookup_addTag`): one more ref changes what is kept of a tag as it changes what the
  refs say of it. Three cases are told apart, by `tag_cases`: the ref of no tag, of the commit of a
  tag, and of a tag itself.
* **the run** (`lookup_tagsOfRefs`): what is kept of a tag is what all the refs say of it.

`Tells` adds the branches. `versionsOfRefs` makes exactly the versions that the refs tell of, each
once (`mem_versionsOfRefs`, `nodup_versionsOfRefs`), and so the same ones in whatever order the refs
come.
-/

namespace Relock.Git

/-! ## Names of refs -/

def branchRef (name : String) : String := branchPath ++ name

def tagRef (tag : String) : String := tagPath ++ tag

/-- The name under which the commit of an annotated tag is told. -/
def peeledRef (tag : String) : String := tagRef tag ++ peelMark

/-- The text ends as the name of a commit of a tag does. -/
def IsPeeled (text : String) : Prop := peelMark.toList <:+ text.toList

instance (text : String) : Decidable (IsPeeled text) :=
  inferInstanceAs (Decidable (peelMark.toList <:+ text.toList))

theorem dropFront?_eq_some_iff {front text rest : String} :
    dropFront? front text = some rest ↔ text = front ++ rest := by
  unfold dropFront?
  rw [Option.map_eq_some_iff]
  constructor
  · rintro ⟨chars, hchars, rfl⟩
    rw [List.isPrefixOf?_eq_some_iff_append_eq] at hchars
    rw [← String.toList_inj, ← hchars]
    simp
  · rintro rfl
    exact ⟨rest.toList, List.isPrefixOf?_eq_some_iff_append_eq.mpr (by simp), by simp⟩

theorem dropBack?_eq_some_iff {back text rest : String} :
    dropBack? back text = some rest ↔ text = rest ++ back := by
  unfold dropBack?
  rw [Option.map_eq_some_iff]
  constructor
  · rintro ⟨chars, hchars, rfl⟩
    rw [List.isSuffixOf?_eq_some_iff_append_eq] at hchars
    rw [← String.toList_inj, ← hchars]
    simp
  · rintro rfl
    exact ⟨rest.toList, List.isSuffixOf?_eq_some_iff_append_eq.mpr (by simp), by simp⟩

theorem isPeeled_append (tag : String) : IsPeeled (tag ++ peelMark) :=
  ⟨tag.toList, by simp⟩

theorem exists_of_isPeeled {text : String} (h : IsPeeled text) : ∃ tag, text = tag ++ peelMark := by
  obtain ⟨chars, hchars⟩ := h
  refine ⟨String.ofList chars, ?_⟩
  rw [← String.toList_inj, ← hchars]
  simp

theorem tagRef_injective : Function.Injective tagRef := by
  intro tag other h
  simpa [tagRef] using h

theorem peeledRef_injective : Function.Injective peeledRef := by
  intro tag other h
  apply tagRef_injective
  simpa [peeledRef] using h

/-- The commit of a tag is told as if it were a tag whose name ends in the mark. -/
theorem peeledRef_eq_tagRef (tag : String) : peeledRef tag = tagRef (tag ++ peelMark) := by
  simp [peeledRef, tagRef, String.append_assoc]

theorem isPeeled_of_peeledRef_eq {tag other : String} (h : peeledRef tag = tagRef other) :
    IsPeeled other := by
  rw [peeledRef_eq_tagRef] at h
  exact tagRef_injective h ▸ isPeeled_append tag

/-- A name is that of no tag, that of the commit of a tag, or that of a tag itself. -/
theorem tag_cases (name : String) :
    (∀ tag, name ≠ tagRef tag) ∨ (∃ tag, name = peeledRef tag) ∨
      ∃ tag, name = tagRef tag ∧ ¬ IsPeeled tag := by
  by_cases h : ∃ tag, name = tagRef tag
  · obtain ⟨tag, rfl⟩ := h
    by_cases hmark : IsPeeled tag
    · obtain ⟨inner, rfl⟩ := exists_of_isPeeled hmark
      exact .inr (.inl ⟨inner, (peeledRef_eq_tagRef inner).symm⟩)
    · exact .inr (.inr ⟨tag, rfl, hmark⟩)
  · exact .inl fun tag hname => h ⟨tag, hname⟩

/-! ## Lookups -/

section

variable {α β : Type} [BEq α] [LawfulBEq α] {entries entries' : List (α × β)}

/-- Where every key stands once, the value of a key is the one that an entry gives it. -/
theorem lookup_eq_some_iff_mem (h : (entries.map (·.1)).Nodup) {key : α} {value : β} :
    entries.lookup key = some value ↔ (key, value) ∈ entries := by
  rw [List.lookup_eq_some_iff]
  constructor
  · rintro ⟨front, back, rfl, -⟩
    simp
  · intro hmem
    obtain ⟨front, back, rfl⟩ := List.mem_iff_append.mp hmem
    refine ⟨front, back, rfl, ?_⟩
    intro entry hentry
    rw [List.map_append, List.nodup_append] at h
    have hne := h.2.2 entry.1 (List.mem_map_of_mem hentry) key (by simp)
    simpa using hne.symm

theorem lookup_eq_of_perm (h : (entries.map (·.1)).Nodup) (hperm : entries'.Perm entries)
    (key : α) : entries'.lookup key = entries.lookup key := by
  have h' : (entries'.map (·.1)).Nodup := (hperm.map _).nodup_iff.mpr h
  apply Option.ext
  intro value
  rw [lookup_eq_some_iff_mem h', lookup_eq_some_iff_mem h, hperm.mem_iff]

omit [LawfulBEq α] in
theorem lookup_concat (entries : List (α × β)) (entry : α × β) (key : α) :
    (entries ++ [entry]).lookup key =
      (entries.lookup key).or (if key == entry.1 then some entry.2 else none) := by
  rw [List.lookup_append, List.lookup_cons, List.lookup_nil]
  cases key == entry.1 <;> rfl

theorem lookup_eq_none_of_not_mem {key : α} (h : key ∉ entries.map (·.1)) :
    entries.lookup key = none := by
  rw [List.lookup_eq_none_iff]
  intro entry hentry
  have hne : key ≠ entry.1 := fun heq => h (heq ▸ List.mem_map_of_mem hentry)
  simpa using hne

end

/-! ## What refs say of a tag -/

/-- The object that refs give to a tag: the commit told for it, and without one the object of the
tag itself. What ends in the mark is no tag itself. -/
def commitOf? (refs : List Ref) (tag : String) : Option String :=
  (refs.lookup (peeledRef tag)).or (if IsPeeled tag then none else refs.lookup (tagRef tag))

section

variable {refs : List Ref} {ref : Ref} {tag other : String}

/-- A ref that is of no tag says nothing of one. -/
theorem commitOf?_concat_of_other (h : ∀ tag, ref.1 ≠ tagRef tag) (other : String) :
    commitOf? (refs ++ [ref]) other = commitOf? refs other := by
  have hpeeled : (peeledRef other == ref.1) = false := by
    rw [peeledRef_eq_tagRef]
    simpa using (h _).symm
  have htag : (tagRef other == ref.1) = false := by simpa using (h other).symm
  simp [commitOf?, lookup_concat, hpeeled, htag]

/-- A commit counts for its tag, whatever was said of the tag before. -/
theorem commitOf?_concat_of_peeled (h : ref.1 ∉ refs.map (·.1)) (hname : ref.1 = peeledRef tag)
    (other : String) : commitOf? (refs ++ [ref]) other =
      if other = tag then some ref.2 else commitOf? refs other := by
  by_cases hsame : other = tag
  · rw [hname] at h
    simp [commitOf?, lookup_concat, hname, hsame, lookup_eq_none_of_not_mem h]
  · have hpeeled : (peeledRef other == ref.1) = false := by
      rw [hname]
      simpa using fun heq => hsame (peeledRef_injective heq)
    rw [if_neg hsame, commitOf?, commitOf?, lookup_concat, lookup_concat, hpeeled]
    -- under its own name the ref is at most a tag that ends in the mark
    by_cases hmark : IsPeeled other
    · simp [hmark]
    · have htag : (tagRef other == ref.1) = false := by
        rw [hname]
        simpa using fun heq => hmark (isPeeled_of_peeledRef_eq heq.symm)
      simp [htag]

/-- The object of a tag itself counts if nothing was said of the tag before. -/
theorem commitOf?_concat_of_tag (h : ref.1 ∉ refs.map (·.1)) (hname : ref.1 = tagRef tag)
    (hmark : ¬ IsPeeled tag) (other : String) : commitOf? (refs ++ [ref]) other =
      (commitOf? refs other).or (if other = tag then some ref.2 else none) := by
  have hpeeled : (peeledRef other == ref.1) = false := by
    rw [hname]
    simpa using fun heq => hmark (isPeeled_of_peeledRef_eq heq)
  rw [commitOf?, commitOf?, lookup_concat, lookup_concat, hpeeled]
  by_cases hsame : other = tag
  · rw [hname] at h
    simp [hname, hsame, hmark, lookup_eq_none_of_not_mem h]
  · have htag : (tagRef other == ref.1) = false := by
      rw [hname]
      simpa using fun heq => hsame (tagRef_injective heq)
    simp [htag, hsame]

end

/-! ## The step -/

section

variable {refs tags : List Ref} {ref : Ref} {tag : String}

theorem lookup_setCommit (tag commit : String) (tags : List Ref) (other : String) :
    (setCommit tag commit tags).lookup other =
      if other = tag then some commit else tags.lookup other := by
  induction tags with
  | nil =>
      by_cases hsame : other = tag
      · simp [setCommit, hsame]
      · have hne : (other == tag) = false := by simpa using hsame
        simp [setCommit, List.lookup_cons, hsame, hne]
  | cons entry tags ih =>
      unfold setCommit
      rw [List.lookup_cons]
      split
      · next hentry =>
        -- the tag keeps its place, and only its commit is another one
        rw [List.lookup_cons, hentry]
        by_cases hsame : other = tag
        · simp [hsame]
        · have hne : (other == tag) = false := by simpa using hsame
          simp [hsame, hne]
      · next hentry =>
        rw [List.lookup_cons, ih]
        by_cases hsame : other = tag
        · have hne : (tag == entry.1) = false := by simpa using Ne.symm hentry
          simp [hsame, hne]
        · simp [hsame]

/-- Giving a tag a commit adds the tag if it is new, and keeps all others in their places. -/
theorem map_fst_setCommit (tag commit : String) (tags : List Ref) :
    (setCommit tag commit tags).map (·.1) =
      if tag ∈ tags.map (·.1) then tags.map (·.1) else tags.map (·.1) ++ [tag] := by
  induction tags with
  | nil => rfl
  | cons entry tags ih =>
      unfold setCommit
      by_cases hentry : entry.1 = tag
      · simp [hentry]
      · rw [if_neg hentry, List.map_cons, ih]
        have hne : tag ≠ entry.1 := Ne.symm hentry
        by_cases hmem : tag ∈ tags.map (·.1)
        · rw [if_pos hmem, if_pos (by simpa using Or.inr hmem), List.map_cons]
        · rw [if_neg hmem, if_neg (by simpa [hne] using hmem), List.map_cons, List.cons_append]

theorem addTag_of_other (h : ∀ tag, ref.1 ≠ tagRef tag) (tags : List Ref) :
    addTag tags ref = tags := by
  cases hdrop : dropFront? tagPath ref.1 with
  | none => rw [addTag, hdrop]
  | some tag => exact absurd (dropFront?_eq_some_iff.mp hdrop) (h tag)

theorem addTag_of_peeled (h : ref.1 = peeledRef tag) (tags : List Ref) :
    addTag tags ref = setCommit tag ref.2 tags := by
  have hfront : dropFront? tagPath ref.1 = some (tag ++ peelMark) := by
    rw [dropFront?_eq_some_iff, h]
    exact peeledRef_eq_tagRef tag
  have hback : dropBack? peelMark (tag ++ peelMark) = some tag := dropBack?_eq_some_iff.mpr rfl
  simp only [addTag, hfront, hback]

theorem addTag_of_tag (h : ref.1 = tagRef tag) (hmark : ¬ IsPeeled tag) (tags : List Ref) :
    addTag tags ref = if tag ∈ tags.map (·.1) then tags else tags ++ [(tag, ref.2)] := by
  have hfront : dropFront? tagPath ref.1 = some tag := dropFront?_eq_some_iff.mpr h
  have hback : dropBack? peelMark tag = none := by
    cases hdrop : dropBack? peelMark tag with
    | none => rfl
    | some inner => exact absurd (dropBack?_eq_some_iff.mp hdrop ▸ isPeeled_append inner) hmark
  have hany : tags.any (·.1 = tag) = decide (tag ∈ tags.map (·.1)) := by
    rw [Bool.eq_iff_iff]
    simp
  simp only [addTag, hfront, hback, hany, decide_eq_true_eq]

/-- No tag is kept twice. -/
theorem nodup_addTag (h : (tags.map (·.1)).Nodup) (ref : Ref) :
    ((addTag tags ref).map (·.1)).Nodup := by
  rcases tag_cases ref.1 with hother | ⟨tag, hname⟩ | ⟨tag, hname, hmark⟩
  · rwa [addTag_of_other hother]
  · rw [addTag_of_peeled hname, map_fst_setCommit]
    split
    · exact h
    · next hnew =>
      rw [← List.concat_eq_append]
      exact List.Nodup.concat hnew h
  · rw [addTag_of_tag hname hmark]
    split
    · exact h
    · next hnew =>
      rw [List.map_append, List.map_singleton, ← List.concat_eq_append]
      exact List.Nodup.concat hnew h

/-- Where what is kept is what the refs say, it is so with one more ref. -/
theorem lookup_addTag (h : ref.1 ∉ refs.map (·.1))
    (htags : ∀ tag, tags.lookup tag = commitOf? refs tag) (other : String) :
    (addTag tags ref).lookup other = commitOf? (refs ++ [ref]) other := by
  rcases tag_cases ref.1 with hother | ⟨tag, hname⟩ | ⟨tag, hname, hmark⟩
  · rw [addTag_of_other hother, commitOf?_concat_of_other hother, htags]
  · rw [addTag_of_peeled hname, commitOf?_concat_of_peeled h hname, lookup_setCommit, htags]
  · rw [addTag_of_tag hname hmark, commitOf?_concat_of_tag h hname hmark, ← htags]
    split
    · next hknown =>
      -- the commit of the tag has come before
      by_cases hsame : other = tag
      · obtain ⟨entry, hentry, rfl⟩ := List.mem_map.mp hknown
        have hsome : (tags.lookup entry.1).isSome = true :=
          List.lookup_isSome_iff.mpr ⟨entry, hentry, by simp⟩
        rw [hsame, Option.or_of_isSome hsome]
      · rw [if_neg hsame, Option.or_none]
    · rw [lookup_concat]
      simp

end

/-! ## The run -/

section

variable {refs : List Ref}

theorem nodup_tagsOfRefs (refs : List Ref) : ((tagsOfRefs refs).map (·.1)).Nodup := by
  induction refs using List.reverseRecOn with
  | nil => exact List.nodup_nil
  | append_singleton refs ref ih =>
      rw [tagsOfRefs, List.foldl_concat]
      exact nodup_addTag ih ref

/-- What is kept of a tag is what the refs say of it. -/
theorem lookup_tagsOfRefs (h : (refs.map (·.1)).Nodup) (tag : String) :
    (tagsOfRefs refs).lookup tag = commitOf? refs tag := by
  induction refs using List.reverseRecOn generalizing tag with
  | nil => simp [tagsOfRefs, commitOf?]
  | append_singleton refs ref ih =>
      rw [List.map_append, List.map_singleton, List.nodup_append] at h
      have hnew : ref.1 ∉ refs.map (·.1) := fun hmem => h.2.2 _ hmem _ (by simp) rfl
      rw [tagsOfRefs, List.foldl_concat]
      exact lookup_addTag hnew (ih h.1) tag

/-! ## Versions -/

/-- The versions that refs tell of: every tag at its commit, and every branch at its own, which is
the default one if its ref is. -/
inductive Tells (refs : List Ref) (default? : Option String) : PairedVersion → Prop
  | tag (tag commit : String) (h : commitOf? refs tag = some commit) :
      Tells refs default? ⟨.ofTag tag, ⟨commit⟩⟩
  | branch (name commit : String) (h : refs.lookup (branchRef name) = some commit) :
      Tells refs default? ⟨.branch name (default? == some (branchRef name)), ⟨commit⟩⟩

theorem branch?_eq_some_iff {default? : Option String} {ref : Ref} {version : PairedVersion} :
    branch? default? ref = some version ↔
      ∃ name, ref.1 = branchRef name ∧
        version = ⟨.branch name (default? == some (branchRef name)), ⟨ref.2⟩⟩ := by
  unfold branch?
  rw [Option.map_eq_some_iff]
  constructor
  · rintro ⟨name, hname, rfl⟩
    have href := dropFront?_eq_some_iff.mp hname
    refine ⟨name, href, ?_⟩
    rw [href]
    rfl
  · rintro ⟨name, hname, rfl⟩
    refine ⟨name, dropFront?_eq_some_iff.mpr hname, ?_⟩
    rw [hname]

/-- The versions are those that the refs tell of. -/
theorem mem_versionsOfRefs (h : (refs.map (·.1)).Nodup) {default? : Option String}
    {version : PairedVersion} :
    version ∈ versionsOfRefs refs default? ↔ Tells refs default? version := by
  unfold versionsOfRefs
  rw [List.mem_append, List.mem_map, List.mem_filterMap]
  constructor
  · rintro (⟨⟨tag, commit⟩, hmem, rfl⟩ | ⟨⟨ref, commit⟩, hmem, hbranch⟩)
    · rw [← lookup_eq_some_iff_mem (nodup_tagsOfRefs refs), lookup_tagsOfRefs h] at hmem
      exact .tag tag commit hmem
    · obtain ⟨name, rfl, rfl⟩ := branch?_eq_some_iff.mp hbranch
      exact .branch name commit ((lookup_eq_some_iff_mem h).mpr hmem)
  · rintro (⟨tag, commit, hcommit⟩ | ⟨name, commit, hcommit⟩)
    · rw [← lookup_tagsOfRefs h, lookup_eq_some_iff_mem (nodup_tagsOfRefs refs)] at hcommit
      exact .inl ⟨_, hcommit, rfl⟩
    · rw [lookup_eq_some_iff_mem h] at hcommit
      exact .inr ⟨_, hcommit, branch?_eq_some_iff.mpr ⟨name, rfl, rfl⟩⟩

/-- No tag and no branch comes twice. -/
theorem nodup_versionsOfRefs (h : (refs.map (·.1)).Nodup) (default? : Option String) :
    ((versionsOfRefs refs default?).map (·.version)).Nodup := by
  unfold versionsOfRefs
  rw [List.map_append, List.nodup_append]
  refine ⟨?_, ?_, ?_⟩
  · -- a tag is the label of its version, whether that is a number or not
    have htags := nodup_tagsOfRefs refs
    rw [List.nodup_iff_pairwise_ne, List.pairwise_map] at htags
    rw [List.map_map, List.nodup_iff_pairwise_ne, List.pairwise_map]
    refine htags.imp fun hne hsame => hne ?_
    have hlabel := congrArg Version.label hsame
    simpa [Version.label_ofTag] using hlabel
  · -- a branch has the name of its ref without what all of them begin with
    rw [List.nodup_iff_pairwise_ne, List.pairwise_map] at h ⊢
    refine h.filterMap _ ?_
    intro ref ref' hne version hversion version' hversion' hsame
    obtain ⟨name, hname, rfl⟩ := branch?_eq_some_iff.mp hversion
    obtain ⟨name', hname', rfl⟩ := branch?_eq_some_iff.mp hversion'
    have hnames : name = name' := congrArg Version.label hsame
    rw [hname, hname', hnames] at hne
    exact hne rfl
  · -- a tag is no branch
    intro version htag version' hbranch
    obtain ⟨paired, hpaired, rfl⟩ := List.mem_map.mp htag
    obtain ⟨entry, -, rfl⟩ := List.mem_map.mp hpaired
    obtain ⟨paired', hpaired', rfl⟩ := List.mem_map.mp hbranch
    obtain ⟨ref, -, href⟩ := List.mem_filterMap.mp hpaired'
    obtain ⟨name, -, rfl⟩ := branch?_eq_some_iff.mp href
    exact Version.ofTag_ne_branch

/-- What refs tell does not depend on their order. -/
theorem Tells.of_perm {refs' : List Ref} (h : (refs.map (·.1)).Nodup) (hperm : refs'.Perm refs)
    {default? : Option String} {version : PairedVersion} (htells : Tells refs' default? version) :
    Tells refs default? version := by
  have hlookup := lookup_eq_of_perm h hperm
  cases htells with
  | tag tag commit hcommit =>
      rw [commitOf?, hlookup, hlookup] at hcommit
      exact .tag tag commit hcommit
  | branch name commit hcommit =>
      rw [hlookup] at hcommit
      exact .branch name commit hcommit

/-- Refs with different names are made into exactly the versions that they tell of, each tag and
each branch once; and into the same versions in whatever order they are told. -/
theorem decodes_versionsOfRefs (h : (refs.map (·.1)).Nodup) (default? : Option String) :
    (∀ version, version ∈ versionsOfRefs refs default? ↔ Tells refs default? version) ∧
      ((versionsOfRefs refs default?).map (·.version)).Nodup ∧
      ∀ refs', refs'.Perm refs →
        (versionsOfRefs refs' default?).Perm (versionsOfRefs refs default?) := by
  refine ⟨fun _ => mem_versionsOfRefs h, nodup_versionsOfRefs h default?, ?_⟩
  intro refs' hperm
  have h' : (refs'.map (·.1)).Nodup := (hperm.map _).nodup_iff.mpr h
  rw [List.perm_ext_iff_of_nodup (nodup_versionsOfRefs h' default?).of_map
    (nodup_versionsOfRefs h default?).of_map]
  intro version
  rw [mem_versionsOfRefs h', mem_versionsOfRefs h]
  exact ⟨.of_perm h hperm, .of_perm h' hperm.symm⟩

end

namespace CommitFirst

/-- The commit of a tag before its object, a tag whose name ends in the mark, and a branch with the
name of a tag. -/
def refs : List Ref :=
  [("HEAD", "a"), ("refs/tags/v1.0.0^\x7b\x7d", "b"), ("refs/heads/master", "a"),
   ("refs/tags/odd^\x7b\x7d^\x7b\x7d", "c"), ("refs/heads/v1.0.0", "d"),
   ("refs/tags/v1.0.0", "e"), ("refs/tags/odd^\x7b\x7d", "f")]

end CommitFirst

open CommitFirst in
theorem decodes_versionsOfRefs_commitFirst :
    (refs.map (·.1)).Nodup ∧
      ⟨.ofTag "v1.0.0", ⟨"b"⟩⟩ ∈ versionsOfRefs refs (some "refs/heads/master") ∧
      ⟨.ofTag "v1.0.0", ⟨"e"⟩⟩ ∉ versionsOfRefs refs (some "refs/heads/master") ∧
      ⟨.ofTag "odd^\x7b\x7d", ⟨"c"⟩⟩ ∈ versionsOfRefs refs (some "refs/heads/master") ∧
      ⟨.branch "master" true, ⟨"a"⟩⟩ ∈ versionsOfRefs refs (some "refs/heads/master") ∧
      (versionsOfRefs refs.reverse (some "refs/heads/master")).Perm
        (versionsOfRefs refs (some "refs/heads/master")) := by
  have hnames : (refs.map (·.1)).Nodup := by decide +kernel
  obtain ⟨hmem, hnodup, hperm⟩ := decodes_versionsOfRefs hnames (some "refs/heads/master")
  have hcommit := (hmem _).mpr (.tag "v1.0.0" "b" (by decide +kernel))
  refine ⟨hnames, hcommit, ?_, (hmem _).mpr (.tag "odd^\x7b\x7d" "c" (by decide +kernel)),
    (hmem _).mpr (.branch "master" "a" (by decide +kernel)), hperm _ refs.reverse_perm⟩
  intro hobject
  have hsame := List.inj_on_of_nodup_map hnodup hobject hcommit rfl
  exact absurd hsame (by decide)

end Relock.Git
