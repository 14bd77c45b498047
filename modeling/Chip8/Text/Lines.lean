/-!
Text made of lines, each of which ends in a line feed, also the last.
-/

namespace Chip8

/-- Lines as one text. -/
def unlines (lines : List String) : String :=
  String.join (lines.map (· ++ "\n"))

end Chip8
