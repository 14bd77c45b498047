import Chip8.Text.Lines

/-!
The text that explains the command.
-/

namespace Chip8

/-- The name and version of the command. -/
def versionLine : String := "Chip8 v0.1.0"

/-- How the command is used. -/
def usageLines : List String :=
  ["",
   "usage: chip8 CMD FILE [OPTIONS]",
   "",
   "commands:",
   "    run     Run the target ROM file and print the final screen",
   "    dis     Disassemble the target ROM into readable assembly",
   "",
   "options for run:",
   "    --frames N    Number of 60Hz frames to run (default 600)",
   "    --key K       Hold down hexadecimal key K for the whole run",
   "    --seed S      Seed the random number generator",
   "    --fast        Run frames back to back instead of in real time",
   "",
   "examples:",
   "    chip8 run maze.ch8 --frames 120 --seed 7",
   "    chip8 dis maze.ch8",
   ""]

/-- Version and usage as they are printed. -/
def usageText : String :=
  unlines (versionLine :: usageLines)

end Chip8
