import TabStop.Shell.Run
import TabStop.Text.Expansion

/-!
# Shells by name

Settings name the shell that runs code. The usual shells all run the code that is understood here.
-/

namespace TabStop.Command

/-- The names of shells. -/
def shellNames : List String := ["sh", "dash", "bash"]

/-- The places where shells are. -/
def shellPlaces : List String := ["", "/bin/", "/usr/bin/"]

/-- Whether a program is one of the shells. -/
def isShell (program : String) : Bool :=
  shellPlaces.any fun place => shellNames.any fun name => program == place ++ name

/-- The variables that code sees: those of the environment, and the name of the program as `$0`. -/
def variablesFor (program : String) (vars : Text.Variables) : Text.Variables := fun name =>
  if name = "0" then some program else vars name

/-- Runs code by a program; fails if that is no shell. -/
def runShell (vars : Text.Variables) (program code : String) : Option String :=
  if isShell program then Shell.run? (variablesFor program vars) code else none

end TabStop.Command
