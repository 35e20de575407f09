import EchoLoad.Event
import EchoLoad.Text.Inert
import EchoLoad.Text.Split

/-!
# The log

An entry of the log has a level, a message and named values. The message is written so that it
cannot drive a terminal; the values are written as they are. A message or value that holds line ends
takes several lines of the log.
-/

namespace EchoLoad.Log

def entry (level : Event.Level) (message : String) (fields : List (String × String)) : String :=
  let values := fields.map fun (name, value) => " " ++ name ++ "=" ++ value
  level.name ++ " " ++ Text.inert message ++ String.join values

def ofEvent (e : Event) : String := entry e.level e.message e.fields

def ofError (e : Error) : String := entry .error e.message []

/-- The lines that are seen when each of these texts is printed with a line end. -/
def lines (texts : List String) : List String :=
  texts.flatMap fun text => (Text.lines (text ++ "\n").toList).map String.ofList

end EchoLoad.Log
