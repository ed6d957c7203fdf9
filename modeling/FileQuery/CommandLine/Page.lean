/-! The commands of the program, each with its options, its operands and its page of help. -/
set_option autoImplicit false
namespace FileQuery.CommandLine

inductive Switch where
  | directory
  | json
  | pretty
  | force
  | version
  | help
  deriving DecidableEq, Repr

namespace Switch

def long : Switch → String
  | directory => "--directory"
  | json => "--json"
  | pretty => "--pretty"
  | force => "--force"
  | version => "--version"
  | help => "--help"

def letter? : Switch → Option Char
  | directory => some 'd'
  | _ => none

def takesValue : Switch → Bool
  | directory => true
  | _ => false

end Switch

inductive Page where
  | program
  | exec
  | run
  | shell
  | config
  | showConfig
  | configPath
  | initConfig
  deriving DecidableEq, Repr

inductive Operands where
  | nothing
  | one (name : String)
  | many (name : String)
  | command
  deriving DecidableEq, Repr

namespace Page

def title : Page → String
  | program => "filang"
  | exec => "filang exec"
  | run => "filang run"
  | shell => "filang shell"
  | config => "filang config"
  | showConfig => "filang config show"
  | configPath => "filang config path"
  | initConfig => "filang config init"

def switches : Page → List Switch
  | program => [.version, .help]
  | exec => [.directory, .json, .help]
  | run => [.directory, .json, .help]
  | shell => [.directory, .help]
  | config => [.help]
  | showConfig => [.pretty, .help]
  | configPath => [.help]
  | initConfig => [.force, .help]

def operands : Page → Operands
  | program | config => .command
  | exec => .many "STATEMENTS"
  | run => .one "SCRIPT"
  | _ => .nothing

def commands : Page → List (String × Page)
  | program => [("config", config), ("exec", exec), ("run", run), ("shell", shell)]
  | config => [("init", initConfig), ("path", configPath), ("show", showConfig)]
  | _ => []

def usage (p : Page) : String :=
  "Usage: " ++ p.title ++ " [OPTIONS]" ++
    match p with
    | program => " [COMMAND] [ARGS]..."
    | config => " COMMAND [ARGS]..."
    | exec => " STATEMENTS..."
    | run => " SCRIPT"
    | _ => ""

def description : Page → List String
  | program =>
    ["filang - Query and manage files with a small SQL-like language.",
     "",
     "Without a command, starts the interactive shell."]
  | exec =>
    ["Run one or more statements and exit.",
     "",
     "Examples:",
     "",
     "    filang exec 'COUNT FILES'",
     "",
     "    filang exec 'CREATE FOLDER \"archive\"' 'MOVE FILES WHERE name LIKE",
     "    \"%.bak\" TO \"archive\"'",
     "",
     "    filang exec --json 'SELECT FILES WHERE size > 1048576 ORDER BY size",
     "    DESC'"]
  | run =>
    ["Run a .fql script, one statement per line.",
     "",
     "Blank lines and lines starting with // are skipped.",
     "",
     "Examples:",
     "",
     "    filang run cleanup.fql --directory ~/Downloads"]
  | shell =>
    ["Launch the interactive filang shell.",
     "",
     "Every line is one statement. Keywords are case-insensitive.",
     "",
     "Examples:",
     "",
     "    filang shell",
     "",
     "    filang:/tmp> CREATE FILE \"notes.txt\"     filang:/tmp> WRITE FILE",
     "    \"notes.txt\" TO \"first line\\nsecond line\"     filang:/tmp> SELECT FILES",
     "    WHERE extension = \".txt\" ORDER BY size DESC     filang:/tmp> USE \"logs\"",
     "    filang:/tmp/logs> DELETE FILES WHERE modified < \"2024-01-01\"",
     "    filang:/tmp/logs> DROP"]
  | config => ["Configuration management commands."]
  | showConfig =>
    ["Show the current configuration with all merges applied.",
     "",
     "Defaults, then the config file, then FILANG_SECTION_KEY environment",
     "variables. By default, outputs single-line JSON."]
  | configPath => ["Show the config file path being used."]
  | initConfig => ["Write the default configuration file."]

def remark (p : Page) : Switch → List String
  | .directory =>
    match p with
    | run => ["Folder to run the script in (defaults to the", "current folder)"]
    | shell => ["Folder to start in (defaults to the configured", "start folder)"]
    | _ => ["Folder to run the statements in"]
  | .json => ["Print each result as a JSON line"]
  | .pretty => ["Display as formatted JSON instead of single-line JSON"]
  | .force => ["Overwrite an existing configuration file"]
  | .version => ["Show the version and exit."]
  | .help => ["Show this message and exit."]

def entry (s : Switch) : String :=
  match s with
  | .directory => "-d, --directory DIRECTORY"
  | s => s.long

def columns (rows : List (String × List String)) : List String :=
  let width := (rows.map fun r => r.1.length).foldl max 0 + 2
  rows.flatMap fun (term, remark) =>
    remark.mapIdx fun i line =>
      let shown := if i = 0 then term else ""
      "  " ++ shown ++ String.ofList (List.replicate (width - shown.length) ' ') ++ line

def help (p : Page) : String :=
  let text := p.description.map fun l => if l.isEmpty then l else "  " ++ l
  let options := columns (p.switches.map fun s => (entry s, p.remark s))
  let commands := columns (p.commands.map fun (name, q) => (name, q.description.take 1))
  let lines := [p.usage, ""] ++ text ++ ["", "Options:"] ++ options ++
    if commands.isEmpty then [] else ["", "Commands:"] ++ commands
  String.join (lines.map (· ++ "\n"))

end Page

end FileQuery.CommandLine
