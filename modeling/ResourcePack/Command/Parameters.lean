/-!
# Parameters on a command line

A parameter is given by its long name behind two dashes or by its letter behind one.
Letters of several parameters may share a dash. A parameter that takes a value takes it
from behind an equals sign, from the letters after its own, or from the next argument,
which must not begin with a dash unless it is one. No parameter may be given twice.

Arguments are looked at one by one, so a request for help counts only if nothing before it
is wrong.
-/

namespace ResourcePack

namespace Command

/-- What giving a parameter means. -/
inductive Meaning where
  /-- It is on. -/
  | switch
  /-- It has a value, which has to pass a check. -/
  | value (check : String → Bool)
  /-- Help is asked for. -/
  | help
  /-- The version is asked for. -/
  | version

structure Parameter where
  name : String
  letter : Option Char
  meaning : Meaning

/-- Something that is answered at once. -/
inductive Inquiry where
  | help
  | version
  deriving DecidableEq, Repr

/-- The parameters given so far and their values, empty ones for switches. -/
abbrev Given := List (String × String)

namespace Given

def has (given : Given) (name : String) : Bool := (given.lookup name).isSome

end Given

/-- What becomes of an argument. -/
inductive Step where
  /-- It is no parameter. -/
  | word
  /-- It asks for something that is answered at once. -/
  | inquiry (inquiry : Inquiry)
  /-- All of its parameters are given. -/
  | done (given : Given)
  /-- The value of its last parameter is the next argument. -/
  | wants (parameter : String) (check : String → Bool) (given : Given)

namespace Step

/-- Give a parameter that has not been given before. -/
def give? (given : Given) (name value : String) : Option Given :=
  if given.has name then none else some ((name, value) :: given)

/-- Give a parameter a value that passes its check. -/
def giveChecked? (given : Given) (name : String) (check : String → Bool) (value : String) :
    Option Given :=
  if check value then give? given name value else none

def isValue (argument : String) : Bool :=
  argument = "-" || argument.toList.head? ≠ some '-'

/-- An argument with a long name, and the value behind the equals sign, if any. -/
def long? (parameters : List Parameter) (given : Given) (name : String)
    (value : Option String) : Option Step := do
  let parameter ← parameters.find? (·.name = name)
  match parameter.meaning, value with
  | .switch, none => return .done (← give? given name "")
  | .help, none => return .inquiry .help
  | .version, none => return .inquiry .version
  | .value check, some value => return .done (← giveChecked? given name check value)
  | .value check, none => if given.has name then none else return .wants name check given
  | _, some _ => none

def letters? (parameters : List Parameter) (given : Given) : List Char → Option Step
  | [] => some (.done given)
  | letter :: rest => do
    let parameter ← parameters.find? (·.letter = some letter)
    match parameter.meaning with
    | .switch => letters? parameters (← give? given parameter.name "") rest
    | .help => return .inquiry .help
    | .version => return .inquiry .version
    | .value check =>
      match rest with
      | [] => if given.has parameter.name then none else return .wants parameter.name check given
      | '=' :: value =>
        return .done (← giveChecked? given parameter.name check (String.ofList value))
      | value => return .done (← giveChecked? given parameter.name check (String.ofList value))

/-- What becomes of an argument; none if it is wrong. -/
def ofArgument? (parameters : List Parameter) (given : Given) (argument : String) : Option Step :=
  match argument.toList with
  | '-' :: '-' :: name =>
    let value := name.dropWhile (· != '=')
    long? parameters given (String.ofList (name.takeWhile (· != '=')))
      (if value.isEmpty then none else some (String.ofList value.tail))
  | '-' :: letter :: rest => letters? parameters given (letter :: rest)
  | _ => some .word

end Step

/-- The arguments before the first word. -/
inductive Start where
  | inquiry (inquiry : Inquiry)
  | word (given : Given) (word : String) (rest : List String)

/-- Read arguments up to the first word, which has to come. -/
def start? (parameters : List Parameter) (given : Given) : List String → Option Start
  | [] => none
  | "--" :: _ => none
  | argument :: rest =>
    match Step.ofArgument? parameters given argument with
    | none => none
    | some .word => some (.word given argument rest)
    | some (.inquiry inquiry) => some (.inquiry inquiry)
    | some (.done given) => start? parameters given rest
    | some (.wants parameter check given) =>
      match rest with
      | [] => none
      | value :: rest =>
        if Step.isValue value then
          match Step.giveChecked? given parameter check value with
          | some given => start? parameters given rest
          | none => none
        else none

/-- What the arguments of a command say. -/
inductive Arguments where
  | inquiry (inquiry : Inquiry)
  | given (given : Given) (words : List String)

/-- The words a command takes: a check for each one, and how many have to be there. -/
structure Places where
  checks : List (String → Bool)
  required : Nat

namespace Places

/-- Take one more word, if there is a place for it. -/
def take? (places : Places) (words : List String) (word : String) : Option (List String) :=
  match places.checks[words.length]? with
  | some check => if check word then some (words ++ [word]) else none
  | none => none

def takeAll? (places : Places) (words rest : List String) : Option (List String) :=
  rest.foldlM places.take? words

end Places

/-- Read the arguments of a command. After two dashes alone everything is a word. -/
def arguments? (parameters : List Parameter) (places : Places) (given : Given)
    (words : List String) : List String → Option Arguments
  | [] => if places.required ≤ words.length then some (.given given words) else none
  | "--" :: rest =>
    match places.takeAll? words rest with
    | some words =>
      if places.required ≤ words.length then some (.given given words) else none
    | none => none
  | argument :: rest =>
    match Step.ofArgument? parameters given argument with
    | none => none
    | some .word =>
      match places.take? words argument with
      | some words => arguments? parameters places given words rest
      | none => none
    | some (.inquiry inquiry) => some (.inquiry inquiry)
    | some (.done given) => arguments? parameters places given words rest
    | some (.wants parameter check given) =>
      match rest with
      | [] => none
      | value :: rest =>
        if Step.isValue value then
          match Step.giveChecked? given parameter check value with
          | some given => arguments? parameters places given words rest
          | none => none
        else none

end Command

end ResourcePack
