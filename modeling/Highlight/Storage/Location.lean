import Highlight.Storage.Path

/-!
# Where settings are kept

All files of the program lie in one directory of its name.
-/

namespace Highlight.Location

/-- The directory of the program: inside the directory that the environment gives for settings, or inside
`.config` of the home directory. -/
def directory (configHome : Option Path) (home : Path) : Path :=
  Path.join (configHome.getD (Path.join home ".config".toList)) "mark-occurrences".toList

/-- The file of the settings in the program's directory. -/
def settingsFile (directory : Path) : Path := Path.join directory "occurrences.yaml".toList

/-- The directory of the logs in the program's directory. -/
def logs (directory : Path) : Path := Path.join directory "logs".toList

end Highlight.Location
