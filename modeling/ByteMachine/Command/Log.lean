import ByteMachine.Machine.Session

/-! The text of a log. The host writes it, and its lines may bear more than their entries: a time
stamp, colours. -/
namespace ByteMachine

class LogWriter where
  write : List LogEntry → String

/-- Levels end in one column. -/
def LogEntry.line (l : LogEntry) : String :=
  String.ofList (l.level.toList.leftpad 5 ' ') ++ " " ++ l.message ++
    String.join (l.fields.map fun (name, value) => " " ++ name ++ "=" ++ value)

namespace LogWriter

/-- Each line without colours, behind its stamp. -/
abbrev stamped (stamp : Nat → String) : LogWriter where
  write log := String.join (log.mapIdx fun k l => stamp k ++ l.line ++ "\n")

instance unstamped : LogWriter := stamped fun _ => ""

end LogWriter
end ByteMachine
