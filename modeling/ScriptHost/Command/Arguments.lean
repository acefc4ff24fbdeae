/-!
# Command lines

The words after the program's name: a command, for some commands one more
word, and a configuration file that may be named before or behind any of them.
Behind a bare `--` every word stands for itself.
-/

namespace ScriptHost

inductive Topic where
  | root
  | state
  | list
  | show
  | remove
  | config
  deriving DecidableEq, Repr, Inhabited

namespace Topic

def sub? : Topic → String → Option Topic
  | root, "state" => some state
  | root, "config" => some config
  | state, "list" => some list
  | state, "show" => some «show»
  | state, "remove" => some remove
  | _, _ => none

def isGroup (t : Topic) : Bool := t == root || t == state

def takesItem (t : Topic) : Bool := t == «show» || t == remove

def path : Topic → String
  | root => "scriptd"
  | state => "scriptd state"
  | list => "scriptd state list"
  | «show» => "scriptd state show"
  | remove => "scriptd state remove"
  | config => "scriptd config"

def about : Topic → String
  | root => "Script engine state tooling"
  | state => "Persisted script state operations"
  | list => "List stored state documents"
  | «show» => "Show a stored state document"
  | remove => "Delete a stored state document"
  | config => "Print the effective configuration"

end Topic

inductive Command where
  | list
  | show (item : String)
  | remove (item : String)
  | config
  deriving DecidableEq, Repr, Inhabited

inductive Arguments where
  | run (config : Option String) (command : Command)
  | help (topic : Topic)
  | bad
  deriving DecidableEq, Repr, Inhabited

namespace Arguments

/-- What has been read of a command line: the topic, the file named last, whether it was named
at this topic, and the item. -/
structure Draft where
  topic : Topic
  config : Option String
  isNamed : Bool
  item : Option String
  deriving DecidableEq, Repr, Inhabited

def finish (d : Draft) : Arguments :=
  match d.topic, d.item with
  | .list, _ => run d.config .list
  | .config, _ => run d.config .config
  | .show, some item => run d.config (.show item)
  | .remove, some item => run d.config (.remove item)
  | _, _ => bad

/-- A word that stands for itself. -/
def takeItem? (d : Draft) (word : String) : Option Draft :=
  if d.topic.takesItem && d.item.isNone then some { d with item := some word } else none

/-- The name of a configuration file: given once a word of the command, and not empty. -/
def takeConfig? (d : Draft) (path : String) : Option Draft :=
  if d.isNamed || path.isEmpty then none
  else some { d with config := some path, isNamed := true }

def isOption (word : String) : Bool := word.startsWith "-" && word != "-"

/-- The words behind a bare `--`. -/
def plainWords : Draft → List String → Arguments
  | d, [] => finish d
  | d, word :: words =>
    match takeItem? d word with
    | some d => plainWords d words
    | none => bad

def helpFor (t : Topic) : List String → Arguments
  | [] => help t
  | word :: words =>
    match t.sub? word with
    | some t => helpFor t words
    | none => bad

def optionFlag : String := "--config"

/-- The value that a word gives to the option itself. -/
def attached? (word : String) : Option String :=
  let start := (optionFlag ++ "=").toList
  if start.isPrefixOf word.toList then
    some (String.ofList (word.toList.drop start.length)) else none

def words : Draft → List String → Arguments
  | d, [] => finish d
  | d, word :: rest =>
    match d.topic.sub? word with
    | some topic => words ⟨topic, d.config, false, none⟩ rest
    | none =>
      if d.topic.isGroup && word == "help" then helpFor d.topic rest
      else if word == "--" then plainWords d rest
      else if word == "--help" || word.startsWith "-h" then help d.topic
      else if word == optionFlag then
        match rest with
        | value :: rest =>
          if isOption value then bad
          else match takeConfig? d value with
            | some d => words d rest
            | none => bad
        | [] => bad
      else match attached? word with
        | some value =>
          match takeConfig? d value with
          | some d => words d rest
          | none => bad
        | none =>
          if isOption word then bad
          else match takeItem? d word with
            | some d => words d rest
            | none => bad

def parse (args : List String) : Arguments := words ⟨.root, none, false, none⟩ args

/-! ## Help -/

def usage (t : Topic) : String :=
  "Usage: " ++ t.path ++ " [OPTIONS]" ++
    (if t.isGroup then " <COMMAND>" else if t.takesItem then " <ID>" else "") ++ "\n"

def commandLines (rows : List (String × String)) (width : Nat) : String :=
  String.join (rows.map fun (name, about) =>
    "  " ++ name ++ String.ofList (List.replicate (width - name.length) ' ') ++ "  " ++ about ++
      "\n")

def helpRow : String × String :=
  ("help", "Print this message or the help of the given subcommand(s)")

def commands : Topic → String
  | .root =>
    "\nCommands:\n" ++
      commandLines [("state", Topic.state.about), ("config", Topic.config.about), helpRow] 6
  | .state =>
    "\nCommands:\n" ++
      commandLines [("list", Topic.list.about), ("show", Topic.show.about),
        ("remove", Topic.remove.about), helpRow] 6
  | .show | .remove => "\nArguments:\n  <ID>  Script item ID (full UUID or prefix)\n"
  | _ => ""

def helpText (t : Topic) : String :=
  t.about ++ "\n\n" ++ usage t ++ commands t ++ "\nOptions:\n" ++
    commandLines [("    --config <CONFIG>",
      "TOML config file; environment variables are used when absent"), ("-h, --help", "Print help")]
      21

end Arguments

end ScriptHost
