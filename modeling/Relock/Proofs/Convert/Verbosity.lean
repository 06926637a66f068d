import Relock.Convert.Aloud
import Relock.Proofs.Root.Deduction

/-!
# How much is shown makes no difference

A console looks at its verbosity whenever something is told, in the middle of a conversion. Nothing
but the written texts comes of it: telling everything at once is the same as collecting notices and
telling them later (`convertAloud_flush`, `resolveAloud_flush`), and collecting does not know the
verbosity.

* `Console.hearAll_eq` says what a console has written and counted after some notices;
* `Deducer.deduce_after` that a deduction does not look at what was told before it;
* **the step** (`stepAloud_flush`) and **the run** (`foldl_stepAloud_flush`): a conversion at a
  console goes as the collecting one, with the console told all that was collected;
* `OnlyShown` says what may differ between runs at the three verbosities, and
  `onlyShown_convertAloud` that conversions and resolutions are such runs.
-/

namespace Relock

/-! ## What a console has heard -/

namespace Console

/-- A notice is written as the shell shows it, and counted if it is a warning. -/
theorem hear_eq (k : Console) (notice : Notice) :
    k.hear notice = ⟨k.shell, k.written ++ (k.shell.text? notice).toList,
      k.warnings + Shell.warningCount [notice]⟩ := by
  obtain ⟨⟨verbosity, painted, discards⟩, written, warnings⟩ := k
  cases verbosity <;> cases discards <;> cases notice <;>
    simp [hear, status, warn, detail, block, write, isQuiet, isVerbose, Shell.text?, Shell.shows,
      Shell.fullText?, Shell.warningCount, Notice.isWarning]

theorem hearAll_append (k : Console) (notices others : List Notice) :
    k.hearAll (notices ++ others) = (k.hearAll notices).hearAll others :=
  List.foldl_append

/-- All notices together are written as the shell shows them, and all warnings are counted. -/
theorem hearAll_eq (k : Console) (notices : List Notice) :
    k.hearAll notices = ⟨k.shell, k.written ++ k.shell.texts notices,
      k.warnings + Shell.warningCount notices⟩ := by
  induction notices generalizing k with
  | nil => simp [hearAll, Shell.texts, Shell.warningCount]
  | cons notice notices ih =>
      have hwritten : (k.shell.text? notice).toList ++ k.shell.texts notices =
          k.shell.texts (notice :: notices) := by
        unfold Shell.texts
        rw [List.filterMap_cons]
        cases k.shell.text? notice <;> rfl
      have hwarnings : Shell.warningCount [notice] + Shell.warningCount notices =
          Shell.warningCount (notice :: notices) := by
        rw [← List.singleton_append]
        exact List.countP_append.symm
      change (k.hear notice).hearAll notices = _
      rw [ih, hear_eq, ← hwritten, ← hwarnings, List.append_assoc, Nat.add_assoc]

end Console

/-! ## Sessions -/

section Sessions

variable {σ : Type}

/-- A session in which some notices were given before. -/
def Session.after (before : List Notice) (s : Session σ) : Session σ :=
  { s with notices := before ++ s.notices }

namespace Session

theorem tell_after (before : List Notice) (notice : Notice) (s : Session σ) :
    (s.after before).tell notice = (s.tell notice).after before := by
  simp [after, tell]

theorem listVersions_after (provider : Provider σ) (root : ProjectRoot) (source : Option String)
    (before : List Notice) (s : Session σ) :
    (s.after before).listVersions provider root source =
      ((s.listVersions provider root source).1,
        (s.listVersions provider root source).2.after before) := by
  simp [after, listVersions]

theorem sourceExists_after (provider : Provider σ) (root : ProjectRoot) (before : List Notice)
    (s : Session σ) :
    (s.after before).sourceExists provider root =
      ((s.sourceExists provider root).1, (s.sourceExists provider root).2.after before) := by
  simp [after, sourceExists]

theorem flush_after (before : List Notice) (s : Session σ) (k : Console) :
    (s.after before).flush k = s.flush (k.hearAll before) := by
  simp [after, flush, Console.hearAll_append]

theorem flush_tellAll (notices : List Notice) (s : Session σ) (k : Console) :
    (s.tellAll notices).flush k = ((s.flush k).1, (s.flush k).2.hearAll notices) := by
  simp [tellAll, flush, Console.hearAll_append]

theorem flush_tell (notice : Notice) (s : Session σ) (k : Console) :
    (s.tell notice).flush k = ((s.flush k).1, (s.flush k).2.hear notice) :=
  flush_tellAll [notice] s k

theorem after_flush (s : Session σ) (k : Console) : (s.flush k).1.after s.notices = s := by
  simp [after, flush]

end Session

namespace Deducer

theorem probe_after (provider : Provider σ) (candidates : List ProjectRoot)
    (before : List Notice) (s : Session σ) :
    probe provider candidates (s.after before) =
      ((probe provider candidates s).1, (probe provider candidates s).2.after before) := by
  induction candidates generalizing s with
  | nil => rfl
  | cons candidate rest ih =>
      unfold probe
      rw [Session.sourceExists_after]
      rcases s.sourceExists provider candidate with ⟨error | found, s'⟩
      · rfl
      · cases found with
        | true => rfl
        | false => exact ih s'

theorem search_after (provider : Provider σ) (path : String) (before : List Notice)
    (s : Session σ) :
    search provider path (s.after before) =
      ((search provider path s).1, (search provider path s).2.after before) := by
  unfold search
  split
  · rfl
  · exact probe_after provider _ before s

/-- A deduction does not look at what was told before it. -/
theorem deduce_after (provider : Provider σ) (d : Deducer) (path : String)
    (before : List Notice) (s : Session σ) :
    d.deduce provider path (s.after before) =
      ((d.deduce provider path s).1, (d.deduce provider path s).2.1,
        (d.deduce provider path s).2.2.after before) := by
  cases hanswer : d.answers.lookup (trimSlashes path) with
  | some root? => rw [deduce_of_answered hanswer, deduce_of_answered hanswer]
  | none =>
      cases hroots : d.roots.find? (·.contains (trimSlashes path)) with
      | some root => rw [deduce_of_covered hanswer hroots, deduce_of_covered hanswer hroots]
      | none =>
          rw [deduce_of_new hanswer hroots, deduce_of_new hanswer hroots]
          unfold find
          rw [search_after]
          rcases search provider (trimSlashes path) s with ⟨error | _ | root, s'⟩
          · rfl
          · rfl
          · -- a root that is found is told of, after what was told before
            dsimp only
            rw [Session.tell_after]

/-- So it makes no difference whether a console is told before it. -/
theorem deduce_flush (provider : Provider σ) (d : Deducer) (path : String) (s : Session σ)
    (k : Console) :
    (d.deduce provider path (s.flush k).1).1 = (d.deduce provider path s).1 ∧
      (d.deduce provider path (s.flush k).1).2.1 = (d.deduce provider path s).2.1 ∧
      (d.deduce provider path (s.flush k).1).2.2.flush (s.flush k).2 =
        (d.deduce provider path s).2.2.flush k := by
  have hafter := deduce_after provider d path s.notices (s.flush k).1
  rw [Session.after_flush] at hafter
  rw [hafter]
  exact ⟨rfl, rfl, (Session.flush_after _ _ _).symm⟩

end Deducer

end Sessions

/-! ## Resolving -/

namespace Resolution

theorem byRevisionAloud_eq (root : ProjectRoot) (revision : Revision)
    (constraint : Option Constraint) (versions : List PairedVersion) (k : Console) :
    byRevisionAloud root revision constraint versions k =
      ((byRevision root revision constraint versions).1,
        k.hearAll (byRevision root revision constraint versions).2) := by
  unfold byRevisionAloud byRevision
  cases atRevision revision versions with
  | nil => rfl
  | cons best others => cases others <;> rfl

theorem chooseAloud_eq (root : ProjectRoot) (revision : Revision) (label : Option String)
    (versions : List PairedVersion) (k : Console) :
    chooseAloud root revision label versions k =
      ((choose root revision label versions).1,
        k.hearAll (choose root revision label versions).2) := by
  unfold chooseAloud choose
  cases label with
  | none => exact byRevisionAloud_eq root revision none versions k
  | some text =>
      dsimp only
      cases Label.number? text with
      | none => exact byRevisionAloud_eq root revision none versions _
      | some number =>
          have hdescribed : k.hearAll (describedNotice root text) =
              if Label.hasDescribeSuffix text then
                k.detail (root.text ++ ": `" ++ text ++
                  "` is a described commit, not a release tag")
              else k := by
            unfold describedNotice
            split <;> rfl
          dsimp only
          rw [← hdescribed]
          -- the notices of the fallback come after those about the label
          cases spelledLike? text (atRevision revision (ofNumber number versions)) with
          | some exact => rfl
          | none =>
              dsimp only
              rw [byRevisionAloud_eq, Console.hearAll_append, Console.hearAll_append]
              cases ofNumber number versions <;> rfl

end Resolution

/-- A resolution at a console goes as one that collects its notices, and the console is told all of
them. -/
theorem resolveAloud_flush {σ : Type} (provider : Provider σ) (root : ProjectRoot)
    (source : Option String) (revision : Revision) (label : Option String) (s : Session σ)
    (k : Console) :
    resolveAloud provider root source revision label (s.flush k).1 (s.flush k).2 =
      (((resolve provider root source revision label s).1,
        ((resolve provider root source revision label s).2.flush k).1),
        ((resolve provider root source revision label s).2.flush k).2) := by
  have hafter := Session.listVersions_after provider root source s.notices (s.flush k).1
  rw [Session.after_flush] at hafter
  unfold resolveAloud resolve
  rw [hafter]
  rcases (s.flush k).1.listVersions provider root source with ⟨error | versions, s'⟩
  · dsimp only
    rw [Session.flush_after]
    rfl
  · dsimp only
    rw [Resolution.chooseAloud_eq, Session.flush_tellAll, Session.flush_after]
    rfl

/-! ## Converting -/

namespace Conversion

variable {σ : Type}

/-- Hands on to a console what a conversion has to tell. -/
def flush (c : Conversion σ) (k : Console) : Conversion σ × Console :=
  ({ c with session := (c.session.flush k).1 }, (c.session.flush k).2)

theorem skipAloud_flush (importPath : String) (error : ResolveError) (c : Conversion σ)
    (k : Console) :
    skipAloud importPath error (c.flush k).1 (c.flush k).2 = (skip importPath error c).flush k := by
  unfold skip flush
  rw [Session.flush_tellAll]
  rfl

theorem acceptAloud_flush (root : ProjectRoot) (path : String) (record : ImportRecord)
    (resolution : Resolution) (c : Conversion σ) (k : Console) :
    acceptAloud root path record resolution (c.flush k).1 (c.flush k).2 =
      (accept root path record resolution c).flush k := by
  unfold accept flush
  rw [Session.flush_tell]
  rfl

theorem joinAloud_flush (root : ProjectRoot) (path : String) (c : Conversion σ) (k : Console) :
    joinAloud root path (c.flush k).1 (c.flush k).2 = (join root path c).flush k := by
  unfold join flush
  rw [Session.flush_tell]
  rfl

theorem tell_flush (text : String) (c : Conversion σ) (k : Console) :
    ((c.flush k).1, (c.flush k).2.detail text) = (c.tell (.detail text)).flush k := by
  unfold tell flush
  rw [Session.flush_tell]
  rfl

theorem resolveRootAloud_flush (provider : Provider σ) (root : ProjectRoot) (path : String)
    (record : ImportRecord) (c : Conversion σ) (k : Console) :
    resolveRootAloud provider root path record (c.flush k).1 (c.flush k).2 =
      (resolveRoot provider root path record c).flush k := by
  -- the console is told before the listing, the session by the same notice
  have hresolve := resolveAloud_flush provider root record.source record.revision record.label
    (c.session.tell (resolvingNotice root record)) k
  rw [Session.flush_tell] at hresolve
  dsimp only [resolvingNotice, Console.hear] at hresolve
  unfold resolveRootAloud resolveRoot
  dsimp only [flush]
  rw [hresolve]
  dsimp only [resolvingNotice]
  rcases resolve provider root record.source record.revision record.label _ with
    ⟨error | resolution, session⟩
  · exact skipAloud_flush root.text error
      { c with session, seen := root :: c.seen, failed := root :: c.failed } k
  · exact acceptAloud_flush root path record resolution
      { c with session, seen := root :: c.seen } k

theorem stepAtAloud_flush (provider : Provider σ) (root : ProjectRoot) (path : String)
    (record : ImportRecord) (c : Conversion σ) (k : Console) :
    stepAtAloud provider root path record (c.flush k).1 (c.flush k).2 =
      (stepAt provider root path record c).flush k := by
  unfold stepAtAloud stepAt
  by_cases hfailed : root ∈ c.failed
  · have hfailed' : root ∈ (c.flush k).1.failed := hfailed
    rw [if_pos hfailed', if_pos hfailed]
    exact tell_flush _ c k
  · have hfailed' : root ∉ (c.flush k).1.failed := hfailed
    rw [if_neg hfailed', if_neg hfailed]
    by_cases hseen : root ∈ c.seen
    · have hseen' : root ∈ (c.flush k).1.seen := hseen
      rw [if_pos hseen', if_pos hseen]
      exact joinAloud_flush root path c k
    · have hseen' : root ∉ (c.flush k).1.seen := hseen
      rw [if_neg hseen', if_neg hseen]
      exact resolveRootAloud_flush provider root path record c k

/-- A step at a console goes as the collecting step, and the console is told what it collects. -/
theorem stepAloud_flush (provider : Provider σ) (project : ProjectRoot) (ignored : List String)
    (c : Conversion σ) (record : ImportRecord) (k : Console) :
    stepAloud provider project ignored (c.flush k) record =
      (step provider project ignored c record).flush k := by
  unfold step
  change stepAloud provider project ignored ((c.flush k).1, (c.flush k).2) record = _
  unfold stepAloud
  dsimp only
  by_cases hown : project.contains (trimSlashes record.importPath) = true
  · rw [if_pos hown, if_pos hown]
    exact tell_flush _ c k
  · rw [if_neg hown, if_neg hown]
    by_cases hignored : trimSlashes record.importPath ∈ ignored
    · rw [if_pos hignored, if_pos hignored]
      exact tell_flush _ c k
    · rw [if_neg hignored, if_neg hignored]
      -- here the deducer gets a session without notices, there one with all of them, so the two
      -- deductions are compared part by part
      obtain ⟨hanswer, hdeducer, hsession⟩ :=
        c.deducer.deduce_flush provider (trimSlashes record.importPath) c.session k
      dsimp only [flush]
      rcases hplain : c.deducer.deduce provider (trimSlashes record.importPath) c.session with
        ⟨answer, deducer, session⟩
      rcases haloud : c.deducer.deduce provider (trimSlashes record.importPath)
        (c.session.flush k).1 with ⟨answer', deducer', session'⟩
      rw [hplain, haloud] at hanswer hdeducer hsession
      dsimp only at hanswer hdeducer hsession ⊢
      subst hanswer hdeducer
      rw [hsession]
      cases answer' with
      | error error =>
          exact skipAloud_flush (trimSlashes record.importPath) error
            { c with deducer := deducer', session } k
      | ok root =>
          exact stepAtAloud_flush provider root (trimSlashes record.importPath) record
            { c with deducer := deducer', session } k

theorem foldl_stepAloud_flush (provider : Provider σ) (project : ProjectRoot)
    (ignored : List String) (records : List ImportRecord) (c : Conversion σ) (k : Console) :
    records.foldl (stepAloud provider project ignored) (c.flush k) =
      (records.foldl (step provider project ignored) c).flush k := by
  induction records generalizing c with
  | nil => rfl
  | cons record records ih => rw [List.foldl_cons, List.foldl_cons, stepAloud_flush, ih]

theorem foldl_ignoreAloud_flush (packages : List String) (c : Conversion σ) (k : Console) :
    packages.foldl ignoreAloud (c.flush k) = (packages.foldl ignore c).flush k := by
  induction packages generalizing c with
  | nil => rfl
  | cons package packages ih =>
      have hstep : ignoreAloud (c.flush k) package = (c.ignore package).flush k := by
        unfold ignore
        change ignoreAloud ((c.flush k).1, (c.flush k).2) package = _
        unfold ignoreAloud
        dsimp only [flush]
        cases c.manifest.ignore? package with
        | none => rfl
        | some manifest =>
            dsimp only
            rw [Session.flush_tell]
            rfl
      rw [List.foldl_cons, List.foldl_cons, hstep, ih]

theorem finishAloud_flush (packages : List String) (c : Conversion σ) (k : Console) :
    finishAloud packages (c.flush k).1 (c.flush k).2 = (c.finish packages).flush k := by
  have hpair : ((c.flush k).1, (c.flush k).2) = c.flush k := rfl
  unfold finishAloud
  rw [hpair, foldl_ignoreAloud_flush]
  rfl

theorem runAloud_flush (provider : Provider σ) (project : ProjectRoot)
    (records : List ImportRecord) (ignored : List String) (session : Session σ) (k : Console) :
    runAloud provider project records ignored (session.flush k).1 (session.flush k).2 =
      (run provider project records ignored session).flush k := by
  have hstart : (start (session.flush k).1, (session.flush k).2) = (start session).flush k := rfl
  unfold runAloud
  rw [hstart, foldl_stepAloud_flush]
  exact finishAloud_flush ignored _ k

end Conversion

/-- A conversion at a console comes to the same as one that collects its notices. -/
theorem Converter.convertAloud_flush {σ : Type} (provider : Provider σ) (project : ProjectRoot)
    (config : LoadedConfig) (ignored : List String) (skipped : List SkippedRoot)
    (session : Session σ) (k : Console) :
    convertAloud provider project config ignored ⟨skipped, (session.flush k).1⟩
        (session.flush k).2 =
      (let done := convert provider project config ignored ⟨skipped, session⟩
      ((done.1, ⟨done.2.skipped, (done.2.session.flush k).1⟩), (done.2.session.flush k).2)) := by
  unfold convertAloud convert
  cases config.error? with
  | some error => rfl
  | none =>
      dsimp only
      rw [Conversion.runAloud_flush]
      rfl

/-! ## The three verbosities -/

/-- The shell at another verbosity. -/
def Shell.withVerbosity (shell : Shell) (verbosity : Verbosity) : Shell :=
  { shell with verbosity }

namespace Shell

theorem texts_quiet (shell : Shell) (notices : List Notice) :
    (shell.withVerbosity .quiet).texts notices = [] := by
  refine List.filterMap_eq_nil_iff.mpr fun notice _ => ?_
  simp [text?, withVerbosity, shows]

/-- A normal shell leaves a notice out or shows it as a verbose one does. -/
theorem text?_normal (shell : Shell) (notice : Notice) :
    (shell.withVerbosity .normal).text? notice = none ∨
      (shell.withVerbosity .normal).text? notice = (shell.withVerbosity .verbose).text? notice := by
  cases notice
  case detail => exact .inl (by simp [text?, withVerbosity, shows])
  case explanation => exact .inl (by simp [text?, withVerbosity, shows])
  all_goals exact .inr rfl

theorem texts_normal_sublist (shell : Shell) (notices : List Notice) :
    ((shell.withVerbosity .normal).texts notices).Sublist
      ((shell.withVerbosity .verbose).texts notices) := by
  induction notices with
  | nil => exact .slnil
  | cons notice notices ih =>
      unfold texts at ih ⊢
      rw [List.filterMap_cons, List.filterMap_cons]
      rcases shell.text?_normal notice with hnone | hsame
      · rw [hnone]
        cases (shell.withVerbosity .verbose).text? notice with
        | none => exact ih
        | some text => exact ih.cons text
      · rw [hsame]
        cases (shell.withVerbosity .verbose).text? notice with
        | none => exact ih
        | some text => exact ih.cons_cons text

end Shell

/-- Verbosity is only presentation in a run at a console: `outcome` comes of the run and `notices`
are told in it. -/
structure OnlyShown {α : Type} (outcome : α) (notices : List Notice) (run : Console → α × Console) :
    Prop where
  /-- At every console the outcome is the same and the same is told. -/
  told : ∀ k, run k = (outcome, k.hearAll notices)
  /-- The outcome does not depend on the verbosity. -/
  same : ∀ (shell : Shell) v w, (run (.opened (shell.withVerbosity v))).1 =
    (run (.opened (shell.withVerbosity w))).1
  /-- Nor does the number of warnings. -/
  warnings : ∀ (shell : Shell) v w, (run (.opened (shell.withVerbosity v))).2.warnings =
    (run (.opened (shell.withVerbosity w))).2.warnings
  /-- A quiet shell writes nothing. -/
  quiet : ∀ shell : Shell, (run (.opened (shell.withVerbosity .quiet))).2.written = []
  /-- What a normal shell writes is among what a verbose one writes, in the same order. -/
  normal : ∀ shell : Shell, (run (.opened (shell.withVerbosity .normal))).2.written.Sublist
    (run (.opened (shell.withVerbosity .verbose))).2.written

/-- It is enough that the console is told a list of notices that does not depend on it. -/
theorem OnlyShown.of_told {α : Type} {outcome : α} {notices : List Notice}
    {run : Console → α × Console} (h : ∀ k, run k = (outcome, k.hearAll notices)) :
    OnlyShown outcome notices run := by
  have hwritten : ∀ shell, (run (.opened shell)).2.written = shell.texts notices := by
    intro shell
    rw [h, Console.hearAll_eq]
    exact List.nil_append _
  have hwarnings : ∀ shell, (run (.opened shell)).2.warnings = Shell.warningCount notices := by
    intro shell
    rw [h, Console.hearAll_eq]
    exact Nat.zero_add _
  exact {
    told := h
    same := fun shell v w => by rw [h, h]
    warnings := fun shell v w => by rw [hwarnings, hwarnings]
    quiet := fun shell => (hwritten _).trans (shell.texts_quiet notices)
    normal := fun shell => by
      rw [hwritten, hwritten]
      exact shell.texts_normal_sublist notices }

def Session.untold {σ : Type} (s : Session σ) : Session σ := { s with notices := [] }

/-- A converter that has nothing to tell. -/
def Converter.untold {σ : Type} (c : Converter σ) : Converter σ :=
  { c with session := c.session.untold }

/-- Verbosity is only presentation: a conversion comes to the same result or error, the same
skipped roots and the same questions to the same provider at a quiet, a normal and a verbose shell,
and so does a resolution. -/
theorem onlyShown_convertAloud {σ : Type} (provider : Provider σ) :
    (∀ (project : ProjectRoot) (config : LoadedConfig) (ignored : List String) (c : Converter σ),
      let done := Converter.convert provider project config ignored c.untold
      OnlyShown (done.1, done.2.untold) done.2.session.notices
        (Converter.convertAloud provider project config ignored c.untold)) ∧
    ∀ (root : ProjectRoot) (source : Option String) (revision : Revision) (label : Option String)
      (s : Session σ),
      let done := resolve provider root source revision label s.untold
      OnlyShown (done.1, done.2.untold) done.2.notices
        (resolveAloud provider root source revision label s.untold) := by
  constructor
  · intro project config ignored c
    exact .of_told fun k =>
      Converter.convertAloud_flush provider project config ignored c.skipped c.session.untold k
  · intro root source revision label s
    exact .of_told fun k => resolveAloud_flush provider root source revision label s.untold k

end Relock
