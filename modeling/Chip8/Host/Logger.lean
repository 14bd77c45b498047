import Chip8.Log

/-!
The logger of the command line: level, source and wording, without the time and without colours.

* `plainLogger`: the layout of a line;
* `thresholdOf`: the threshold that a name stands for.
-/

namespace Chip8

/-- The name of a level as a log line has it. -/
def Level.label : Level → String
  | error => "ERROR"
  | warn => "WARN"
  | info => "INFO"
  | debug => "DEBUG"
  | trace => "TRACE"

/-- Lines of a level in a column of five characters, a source in brackets, and the wording. -/
def plainLogger : Logger where
  line _ l source message :=
    String.ofList (l.label.toList.rightpad 5 ' ') ++ " [" ++ source ++ "] " ++ message
  shows _ l source message :=
    ⟨(String.ofList (l.label.toList.rightpad 5 ' ') ++ " [" ++ source ++ "] ").toList, [],
      by rw [List.append_nil, ← String.toList_append]⟩

/-- The threshold of a name, of any case. The name `off` stands for none; a name
that is unknown lets everything through. -/
def thresholdOf (name : String) : Option Level :=
  match name.toLower with
  | "off" => none
  | "error" => some .error
  | "warn" => some .warn
  | "info" => some .info
  | "debug" => some .debug
  | _ => some .trace

end Chip8
