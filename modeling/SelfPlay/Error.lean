import SelfPlay.Fault

/-!
# What can go wrong in self-play
-/

namespace SelfPlay

/-- Why an operation was refused or failed. -/
inductive Error where
  | invalidFen (text : String)
  | invalidMove (text : String)
  /-- The move may not be played in the position. -/
  | illegalMove (move fen : String)
  /-- An option's value lies above its maximum or below zero. -/
  | optionOutOfRange (name value maximum : String)
  /-- An option's text is no value of its kind. -/
  | invalidOptionValue (name value : String)
  | mixedResignStyle
  /-- The configuration is malformed, in a way that `detail` names. -/
  | config (detail : String)
  | io (message : String)
  | network (fault : Fault)
  /-- The search engine could not be made or could not run. -/
  | engine (fault : Fault)
  | writer (fault : Fault)
deriving DecidableEq, Repr

namespace Error

def message : Error → String
  | .invalidFen text => "invalid position: " ++ text
  | .invalidMove text => "invalid move notation: " ++ text
  | .illegalMove move fen => "illegal move " ++ move ++ " in position " ++ fen
  | .optionOutOfRange name value maximum =>
    "option " ++ name ++ " out of range: " ++ value ++ " (allowed 0..=" ++ maximum ++ ")"
  | .invalidOptionValue name value => "failed to parse option " ++ name ++ ": " ++ value
  | .mixedResignStyle => "both players must use the same resign style"
  | .config detail => "config parse error: " ++ detail
  | .io message => "I/O error: " ++ message
  | .network fault => "network computation failed: " ++ fault.oneLine
  | .engine fault => "search engine failed: " ++ fault.oneLine
  | .writer fault => "training data writer failed: " ++ fault.oneLine

/-- The causes that an error reports behind its own message. -/
def sources : Error → List String
  | .config detail => [detail]
  | .io message => [message]
  | .network fault => fault.messages
  | .engine fault => fault.messages
  | .writer fault => fault.messages
  | _ => []

/-- The error as the start of a chain of contexts. -/
def toFault (error : Error) : Fault := ⟨[], error.message, error.sources⟩

end Error

end SelfPlay
