import ResourcePack.Build.Outputs
import ResourcePack.Command.Parameters

/-!
# Commands

The program has six commands of its own and one that prints help on them. `Request.ofArguments?`
tells what a command line asks for.
-/

namespace ResourcePack

def Command.program : String := "pbpack"

def Command.version : String := "0.1.0"

/-- The shells that completions can be had for. -/
inductive Shell where
  | bash
  | elvish
  | fish
  | powershell
  | zsh
  deriving DecidableEq, Repr

namespace Shell

def name : Shell → String
  | .bash => "bash"
  | .elvish => "elvish"
  | .fish => "fish"
  | .powershell => "powershell"
  | .zsh => "zsh"

def ofName? (name : String) : Option Shell :=
  [bash, elvish, fish, powershell, zsh].find? (·.name = name)

@[simp] theorem ofName?_name (shell : Shell) : ofName? shell.name = some shell := by
  cases shell <;> rfl

end Shell

inductive Command where
  | build (manifest basename root : Path) (outputs : Build.Outputs)
  | convert (input output : Path) (options : ConvertOptions)
  | crc (file : Path)
  | list (pack : Path)
  | completions (shell : Shell)
  | manPages (directory : Path)
  deriving DecidableEq, Repr

namespace Command

/-- What a command line asks for. -/
inductive Request where
  | inquiry (inquiry : Inquiry)
  /-- Run a command and perhaps report as JSON. -/
  | run (json : Bool) (command : Command)
  deriving DecidableEq, Repr

/-- Parameters that can be given both before and after the name of a command. -/
def everywhere : List Parameter :=
  [⟨"json", none, .switch⟩, ⟨"verbose", some 'v', .switch⟩, ⟨"trace", none, .switch⟩,
    ⟨"help", some 'h', .help⟩]

/-- Parameters before the name of a command. -/
def first : List Parameter := everywhere ++ [⟨"version", some 'V', .version⟩]

def isPath (text : String) : Bool := text ≠ ""

/-- Whether reading a text succeeds. -/
def succeeds {ε α : Type} (outcome : Except ε α) : Bool := outcome.toBool

/-- The names of the commands, in the order in which they are explained. -/
def names : List String := ["build", "convert", "crc", "list", "completions", "man-pages"]

def helpName : String := "help"

/-- The parameters of a command. -/
def parametersOf (name : String) : List Parameter :=
  everywhere ++
    match name with
    | "build" =>
      [⟨"root", some 'r', .value isPath⟩, ⟨"pack", some 'P', .switch⟩,
        ⟨"header", some 'H', .switch⟩, ⟨"make-dep", some 'M', .switch⟩]
    | "convert" =>
      [⟨"palette", none, .value (succeeds ∘ Family.parse)⟩,
        ⟨"method", none, .value (succeeds ∘ Method.parse)⟩,
        ⟨"bitdepth", none, .value (succeeds ∘ Depth.parse)⟩]
    | _ => []

/-- The words a command takes. -/
def placesOf (name : String) : Places :=
  match name with
  | "build" | "convert" => ⟨[isPath, isPath], 2⟩
  | "completions" => ⟨[fun word => (Shell.ofName? word).isSome], 1⟩
  | "man-pages" => ⟨[isPath], 0⟩
  | _ => ⟨[isPath], 1⟩

/-- The settings of a conversion. -/
def convertOptions? (given : Given) : Option ConvertOptions := do
  let family ← ((given.lookup "palette").mapM Family.parse).toOption
  let method ← ((given.lookup "method").mapM Method.parse).toOption
  let depth ← ((given.lookup "bitdepth").mapM Depth.parse).toOption
  return { family := family.getD .pebble64, method := method.getD .nearest, depth }

/-- The command with this name, parameters and words. -/
def ofParts? (name : String) (given : Given) (words : List String) : Option Command :=
  match name, words with
  | "build", [manifest, basename] =>
    some (.build ⟨manifest⟩ ⟨basename⟩ ⟨(given.lookup "root").getD "."⟩
      (.select (given.has "pack") (given.has "header") (given.has "make-dep")))
  | "convert", [input, output] => (convertOptions? given).map (.convert ⟨input⟩ ⟨output⟩)
  | "crc", [file] => some (.crc ⟨file⟩)
  | "list", [pack] => some (.list ⟨pack⟩)
  | "completions", [shell] => (Shell.ofName? shell).map .completions
  | "man-pages", [] => some (.manPages ⟨"man"⟩)
  | "man-pages", [directory] => some (.manPages ⟨directory⟩)
  | _, _ => none

/-- Whether words behind the help command name a command to explain. -/
def isTopic (words : List String) : Bool :=
  match words with
  | [] => true
  | [name] => name ∈ helpName :: names
  | _ => false

namespace Request

/-- What a command line asks for; none if it makes no sense. -/
def ofArguments? (arguments : List String) : Option Request := do
  match ← start? first [] arguments with
  | .inquiry asked => return .inquiry asked
  | .word before name rest =>
    if name = helpName then
      if isTopic rest then return .inquiry .help else none
    else if name ∈ names then
      match ← arguments? (parametersOf name) (placesOf name) [] [] rest with
      | .inquiry asked => return .inquiry asked
      | .given given words =>
        return .run (before.has "json" || given.has "json") (← ofParts? name given words)
    else none

end Request

end Command

end ResourcePack
