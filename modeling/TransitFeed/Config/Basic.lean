import TransitFeed.Config.Stage
import TransitFeed.Copy.Options

/-!
# Configurations

A configuration gives the options of a copy and its stages, in the order they run. Every
copy wants the two expansions that create missing networks and services: they are added
at the end unless the configuration already places them.
-/

namespace TransitFeed

/-- What a copy should do. -/
structure Configuration where
  options : CopyOptions := {}
  stages : List StageConfig := []
  deriving Repr, Inhabited

namespace Configuration

/-- The expansions every copy wants, in the order they are added. -/
def defaultExpansions : List StageConfig := [.network, .implicitService]

/-- Adds the default expansions that the configuration does not already place. -/
def withDefaultExpansions (c : Configuration) : Configuration :=
  let add (stages : List StageConfig) (e : StageConfig) :=
    if stages.contains e then stages else stages ++ [e]
  { c with stages := defaultExpansions.foldl add c.stages }

end Configuration

end TransitFeed
