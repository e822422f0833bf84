import MetricSql.Disk.Basic
import MetricSql.Settings.Reader

namespace MetricSql.Settings

def ofFile (d : Disk) (path : String) : Except Failure Settings :=
  match d.readText path with
  | .error e => .error (.settingsFile e)
  | .ok text =>
    match ofText? text with
    | some s => .ok s
    | none => .error .settings

def sitePath : String := "headless.toml"

def userPath : String := "home/.config/headless/config.toml"

/-- The settings of the first file that can be read, of the one that is named and the usual ones. -/
def find (d : Disk) (named : Option String) : Settings :=
  ((named.toList ++ [sitePath, userPath]).findSome? fun path => (ofFile d path).toOption).getD {}

end MetricSql.Settings
