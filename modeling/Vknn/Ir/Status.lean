import Vknn.Ir.Graph

/-!
# Status codes and errors
-/

namespace Vknn

/-- The outcome of an engine call. -/
inductive Status where
  | ok | invalidArgument | unsupported | notFound | runtimeError | deviceLost | ioError
deriving DecidableEq, Repr

def statusStr : Status → Str
  | .ok => str "Ok"
  | .invalidArgument => str "InvalidArgument"
  | .unsupported => str "Unsupported"
  | .notFound => str "NotFound"
  | .runtimeError => str "RuntimeError"
  | .deviceLost => str "DeviceLost"
  | .ioError => str "IoError"

/-- A thrown error: its status, and the message that starts with the status's name. -/
structure Error where
  status : Status
  what : Str
deriving DecidableEq

/-- The error a `throw` site builds from a status and its own message. -/
def Error.mk' (s : Status) (msg : Str) : Error := ⟨s, statusStr s ++ str ": " ++ msg⟩

end Vknn
