import Relock.Config
import Relock.Proofs.Files
import Relock.Proofs.FirstSeen
import Relock.Proofs.SortedMap

/-!
# Which setting counts

A project lays its own configuration over the one of its user. The three kinds of settings come
together in three ways:

* **addresses**: a root has the one of the project, if there is one, and else that of the user, where a
  root with slashes at its end is another one than without;
* **packages to ignore**: those of the user and then those of the project, each once;
* **switches**: on if either file has it on (`switched_merge`). This is what precedence of the
  project asks for (`preferred`), but for one case: a project cannot turn off what its user has
  turned on.

`layered_merge` says so of any two files, and `layered_loadMergedConfig` of what is loaded from
them.
-/

namespace Relock

namespace Config

/-! ## Laying one configuration over another -/

/-- What a switch is if the project goes before its user, and no word of either leaves it off. -/
def preferred (user own : Option Bool) : Bool := (own.or user).getD false

/-- How a switch comes out of what the files of a user and of a project say of it. -/
structure Switched (user own : Option Bool) (on : Bool) : Prop where
  on_iff : on = true ↔ user = some true ∨ own = some true
  /-- The project goes before its user, unless it is to turn off what the user has turned on. -/
  preferred_iff : on = preferred user own ↔ ¬ (user = some true ∧ own = some false)

/-- What counts when the file of a project is laid over the one of a user. Roots are compared as they
are written. -/
structure Layered (user own : ConfigFile) (c : Config) : Prop where
  sources : ∀ root,
    c.sources.lookup? root = (own.sources.lookup? root).or (user.sources.lookup? root)
  ignore : c.ignore = (user.ignore ++ own.ignore).eraseDups
  verbose : Switched user.verbose own.verbose c.verbose
  offline : Switched user.offline own.offline c.offline

/-- Texts added one by one come after the others, in first-seen order. -/
theorem foldl_addNew (before later : List String) :
    later.foldl addNew before.eraseDups = (before ++ later).eraseDups := by
  induction later generalizing before with
  | nil => rw [List.append_nil, List.foldl_nil]
  | cons text later ih =>
      have hstep : addNew before.eraseDups text = (before ++ [text]).eraseDups := by
        unfold addNew
        by_cases hmem : text ∈ before
        · rw [if_pos (List.mem_eraseDups.mpr hmem), eraseDups_concat_of_mem hmem]
        · rw [if_neg (mt List.mem_eraseDups.mp hmem), eraseDups_concat_of_not_mem hmem]
      rw [List.foldl_cons, hstep, ih, List.append_assoc, List.singleton_append]

/-- A switch that is on in either of two files is on. -/
theorem switched_merge (user own : Option Bool) :
    Switched user own (user.getD false || own.getD false) where
  on_iff := by
    cases user <;> cases own <;> simp
  preferred_iff := by
    -- a word of the project counts alone, so it differs only if it is the one to turn off
    rcases own with _ | _ | _
    · simp [preferred]
    · rcases user with _ | _ | _ <;> simp [preferred]
    · simp [preferred]

/-- Two files that are laid one over the other, beginning with nothing set. -/
theorem layered_merge (user own : ConfigFile) :
    Layered user own ((empty.merge (ofFile user)).merge (ofFile own)) where
  sources root := by
    show ((SortedMap.empty.insertAll user.sources.entries).insertAll
      own.sources.entries).lookup? root = _
    rw [SortedMap.lookup?_insertAll, SortedMap.lookup?_insertAll, SortedMap.lookup?_empty,
      Option.or_none]
  ignore := by
    show own.ignore.foldl addNew (user.ignore.foldl addNew []) = _
    have huser : user.ignore.foldl addNew [] = user.ignore.eraseDups := foldl_addNew [] user.ignore
    rw [huser, foldl_addNew]
  verbose := switched_merge user.verbose own.verbose
  offline := switched_merge user.offline own.offline

end Config

namespace Files

/-! ## Loading -/

variable {f : Files} {path : String} {file : ConfigFile}

/-- A file that can be loaded counts, and nothing is told of it. -/
theorem loadConfigOrEmpty_of_loadConfigFile (h : f.loadConfigFile path = .ok file) :
    f.loadConfigOrEmpty path = (Config.ofFile file, []) := by
  have hload : f.loadConfig path = .ok (Config.ofFile file) := by
    unfold loadConfig
    rw [h]
    rfl
  have hcontains : f.contains path = true := by
    cases hread : f.read "config file: " path with
    | ok text => exact contains_of_read hread
    | error fault =>
        unfold loadConfigFile at h
        rw [hread] at h
        exact absurd h (by simp [bind, Except.bind])
  unfold loadConfigOrEmpty
  rw [if_pos hcontains, hload]

theorem loadConfigFile_of_file {names : List String} {text : String}
    (h : f.place? path = some (.file names text.toUTF8))
    (hparse : ConfigFile.parse? text = some file) : f.loadConfigFile path = .ok file := by
  unfold loadConfigFile
  rw [read_of_file h]
  dsimp only [bind, Except.bind]
  rw [hparse]
  rfl

section

variable {userPath ownPath : String} {user own : ConfigFile}
  (huser : f.loadConfigFile userPath = .ok user) (hown : f.loadConfigFile ownPath = .ok own)
include huser hown

theorem loadMergedConfig_of_loadConfigFile : f.loadMergedConfig (some userPath) ownPath =
    ((Config.empty.merge (.ofFile user)).merge (.ofFile own), []) := by
  unfold loadMergedConfig
  rw [Option.elim_some, loadConfigOrEmpty_of_loadConfigFile huser,
    loadConfigOrEmpty_of_loadConfigFile hown]
  rfl

/-- From two files that can be loaded comes the configuration in which the project's is laid over the
user's, and nothing is told. -/
theorem layered_loadMergedConfig :
    ∃ config, f.loadMergedConfig (some userPath) ownPath = (config, []) ∧
      Config.Layered user own config :=
  ⟨_, loadMergedConfig_of_loadConfigFile huser hown, Config.layered_merge user own⟩

end

end Files

namespace TurnedOff

def userText : String :=
  "[import]\nignore = [\"a/x\", \"a/y\", \"a/x\"]\nverbose = true\n\n" ++
    "[import.sources]\n\"a/b\" = \"https://user/b\"\n\"a/c\" = \"https://user/c\"\n"

def ownText : String :=
  "[import]\nignore = [\"a/z\", \"a/y\"]\nverbose = false\n\n" ++
    "[import.sources]\n\"a/b\" = \"https://own/b\"\n\n[net]\noffline = true\n"

/-- A user who wants details, and a project that does not. -/
def files : Files where
  entries := [(["user.toml"], .file userText.toUTF8), (["own.toml"], .file ownText.toUTF8)]
  current := []

def user : ConfigFile where
  ignore := ["a/x", "a/y", "a/x"]
  verbose := some true
  sources := SortedMap.empty.insertAll [("a/b", "https://user/b"), ("a/c", "https://user/c")]
  offline := none

def own : ConfigFile where
  ignore := ["a/z", "a/y"]
  verbose := some false
  sources := SortedMap.empty.insertAll [("a/b", "https://own/b")]
  offline := some true

theorem loaded_user : files.loadConfigFile "user.toml" = .ok user := by
  have hplace : files.place? "user.toml" = some (.file ["user.toml"] userText.toUTF8) :=
    Files.place?_of_name (by decide) (by decide) (by decide) (by decide) rfl
  exact Files.loadConfigFile_of_file hplace (by decide +kernel)

theorem loaded_own : files.loadConfigFile "own.toml" = .ok own := by
  have hplace : files.place? "own.toml" = some (.file ["own.toml"] ownText.toUTF8) :=
    Files.place?_of_name (by decide) (by decide) (by decide) (by decide) rfl
  exact Files.loadConfigFile_of_file hplace (by decide +kernel)

end TurnedOff

open TurnedOff in
/-- A project does not always go before its user. -/
theorem verbose_ne_preferred_turnedOff :
    files.loadConfigFile "user.toml" = .ok user ∧ files.loadConfigFile "own.toml" = .ok own ∧
      (files.loadMergedConfig (some "user.toml") "own.toml").1.verbose ≠
        Config.preferred user.verbose own.verbose := by
  refine ⟨loaded_user, loaded_own, ?_⟩
  have hconfig : files.loadMergedConfig (some "user.toml") "own.toml" =
      ((Config.empty.merge (.ofFile user)).merge (.ofFile own), []) :=
    Files.loadMergedConfig_of_loadConfigFile loaded_user loaded_own
  rw [hconfig]
  decide +kernel

open TurnedOff in
theorem layered_loadMergedConfig_turnedOff :
    files.loadConfigFile "user.toml" = .ok user ∧ files.loadConfigFile "own.toml" = .ok own ∧
      ∃ config, files.loadMergedConfig (some "user.toml") "own.toml" = (config, []) ∧
        config.sources.lookup? "a/b" = some "https://own/b" ∧
        config.sources.lookup? "a/c" = some "https://user/c" ∧
        config.ignore = ["a/x", "a/y", "a/z"] ∧
        config.verbose = true ∧ config.offline = true := by
  obtain ⟨config, hconfig, h⟩ := Files.layered_loadMergedConfig loaded_user loaded_own
  refine ⟨loaded_user, loaded_own, config, hconfig, ?_, ?_, ?_, ?_, ?_⟩
  · rw [h.sources]
    decide +kernel
  · rw [h.sources]
    decide +kernel
  · rw [h.ignore]
    decide +kernel
  · exact h.verbose.on_iff.mpr (.inl rfl)
  · exact h.offline.on_iff.mpr (.inr rfl)

end Relock
