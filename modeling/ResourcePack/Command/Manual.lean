import ResourcePack.Command.Basic

/-!
# Help, manual pages and completions
-/

namespace ResourcePack

namespace Command

def about : String := "Resource pack compiler for Pebble-compatible firmware"

def usage (name : String) : String :=
  match name with
  | "build" => "build [-P] [-H] [-M] [-r ROOT] MANIFEST BASENAME"
  | "convert" => "convert [--palette NAME] [--method NAME] [--bitdepth N] INPUT OUTPUT"
  | "crc" => "crc FILE"
  | "list" => "list PACK"
  | "completions" => "completions SHELL"
  | _ => "man-pages [DIRECTORY]"

def summary (name : String) : String :=
  match name with
  | "build" => "Build a resource pack, C header and make dependency file from a manifest."
  | "convert" => "Quantize a PNG to a device palette."
  | "crc" => "Print the hardware CRC of a file."
  | "list" => "List the resource table of a pack."
  | "completions" => "Generate shell completions for bash, zsh, fish, elvish, or powershell."
  | _ => "Generate man pages in the specified directory."

def help : String :=
  s!"{about}\n\nUsage: {program} [--json] [-v] [--trace] COMMAND\n\n" ++
    String.join (names.map fun name => s!"  {usage name}\n      {summary name}\n")

def page (title usage text : String) : String :=
  s!".TH {title} 1\n.SH NAME\n{title} \\- {text}\n.SH SYNOPSIS\n{program} {usage}\n"

/-- The manual pages of the program and its commands, by file name. -/
def pages : List (String × String) :=
  (s!"{program}.1", page program "COMMAND" about) ::
    names.map fun name =>
      (s!"{program}-{name}.1", page s!"{program}-{name}" (usage name) (summary name))

/-- The names of all commands with blanks between them. -/
def nameList : String := " ".intercalate (names ++ [helpName])

/-- A script that lets a shell complete the names of commands. -/
def completionScript : Shell → String
  | .bash => s!"complete -W '{nameList}' {program}\n"
  | .zsh => s!"#compdef {program}\n_arguments '1:command:({nameList})'\n"
  | .fish => s!"complete -c {program} -n __fish_use_subcommand -f -a '{nameList}'\n"
  | .elvish =>
    s!"set edit:completion:arg-completer[{program}] = \x7b|@words| put {nameList} \x7d\n"
  | .powershell =>
    s!"Register-ArgumentCompleter -Native -CommandName {program} -ScriptBlock " ++
      s!"\x7b '{nameList}'.Split(' ') \x7d\n"

end Command

end ResourcePack
