import DebugLink.Config.Layers
import DebugLink.Toml.Overlay

/-!
Loading a configuration from files that hold TOML.
-/

set_option autoImplicit false

namespace DebugLink.Config

/-- Reads files that hold TOML. -/
def tomlReader : Reader :=
  ⟨Overlay.parse?⟩

/-- Reads a configuration from a text. -/
def ofText (text : String) : Except ConfigError Config :=
  tomlReader.ofText text

/-- Loads a single file. -/
def loadFile (tree : FileTree) (path : Path) : Except ConfigError Config :=
  tomlReader.loadFile tree path

/-- Loads the files of the user and of the project. The result comes with the tree afterwards. -/
def load (tree : FileTree) (directory : Path) (project : Option Path) :
    Except ConfigError Config × FileTree :=
  tomlReader.load tree directory project

end DebugLink.Config
