import Relock.Version.Basic

/-!
# The upgrade order

How an upgrade would rank the versions of a repository: releases from the highest to the lowest,
then pre-releases likewise, then branches with the default one first, then the other tags by name.
Names compare character by character.
-/

namespace Relock

namespace Version

/-- The class of a version in the upgrade order. -/
def rank : Version → Nat
  | semver number _ => if number.pre.isNone then 0 else 1
  | branch _ _ => 2
  | tag _ => 3

/-- The order within a class. -/
def compareAlike : Version → Version → Ordering
  | semver m s, semver n t => (n.compare m).then (compare s t)
  | branch s d, branch t e => (compare e d).then (compare s t)
  | tag s, tag t => compare s t
  | _, _ => .eq

/-- The upgrade order: `lt` for the version that an upgrade would consider first. -/
def upgradeOrder (a b : Version) : Ordering :=
  (compare a.rank b.rank).then (a.compareAlike b)

end Version

/-- Sorts into upgrade order; equal versions keep their order. -/
def sortForUpgrade (versions : List PairedVersion) : List PairedVersion :=
  versions.mergeSort fun a b => (a.version.upgradeOrder b.version).isLE

end Relock
