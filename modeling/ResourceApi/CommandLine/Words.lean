import ResourceApi.Text.Quoted
import ResourceApi.Text.Similarity

/-! # Words of a command line

A command is given options, which are known by their spelling, and other words,
which are known by their place. A long option may hold its value behind an equals
sign. Short options may share a word, and the last of them may hold its value. Two
dashes end the options. -/

namespace ResourceApi.CommandLine

/-- The options of all commands. -/
inductive Key where
  | help
  | verbose
  | config
  | output
  | allowIdentifier
  | routePrefix
  | noWrite
  | check
  deriving DecidableEq

/-- What an option is given: nothing, so that its spelling tells its value, or a text. -/
inductive Form where
  | flag (value : Bool)
  | text
  deriving DecidableEq

structure Spelling where
  name : String
  key : Key
  form : Form

inductive Given where
  | flag (key : Key) (value : Bool)
  | text (key : Key) (value : String)
  deriving DecidableEq

def Given.key : Given → Key
  | flag key _ => key
  | text key _ => key

/-- Why a command line cannot be followed. -/
inductive UsageProblem where
  /-- No option has the name; some may be near to it. -/
  | noSuchOption (name : String) (nearest : List String)
  | valueMissing (name : String)
  | valueNotTaken (name : String)
  | noSuchCommand (name : String) (nearest : List String)
  | commandMissing
  | argumentMissing (label : String)
  | argumentsLeft (words : List String)
  /-- The value at the label is not as it has to be. -/
  | badValue (label reason : String)
  deriving DecidableEq

namespace UsageProblem

/-- The question behind an unknown name that is near to others. -/
def suggestion (nearest : List String) : String :=
  match nearest.map Text.quoted with
  | [] => ""
  | [name] => " Did you mean " ++ name ++ "?"
  | names => " (Did you mean one of: " ++ ", ".intercalate names ++ "?)"

def message : UsageProblem → String
  | noSuchOption name nearest =>
    "No such option " ++ Text.quoted name ++ "." ++ suggestion nearest
  | valueMissing name => "Option " ++ Text.quoted name ++ " requires an argument."
  | valueNotTaken name => "Option " ++ Text.quoted name ++ " does not take a value."
  | noSuchCommand name nearest =>
    "No such command " ++ Text.quoted name ++ "." ++ suggestion nearest
  | commandMissing => "Missing command."
  | argumentMissing label => "Missing argument '" ++ label ++ "'."
  | argumentsLeft words =>
    "Got unexpected extra argument" ++ (if words.length == 1 then "" else "s") ++ " (" ++
      " ".intercalate words ++ ")"
  | badValue label reason => "Invalid value for " ++ label ++ ": " ++ reason

/-- Whether the usage of the command is shown with the message. -/
def showsUsage : UsageProblem → Bool
  | valueMissing _ | valueNotTaken _ => false
  | _ => true

end UsageProblem

/-- What a command understands. -/
structure Grammar where
  options : List Spelling
  /-- Whether options may follow other words. -/
  mixed : Bool

namespace Grammar

def find? (g : Grammar) (name : String) : Option Spelling := g.options.find? (·.name == name)

/-- The names of options that start with two dashes. -/
def longNames (g : Grammar) : List String :=
  (g.options.map (·.name)).filter fun n => "--".toList.isPrefixOf n.toList

/-- What a word of options says: those that are complete, and one that the next word completes. -/
structure Reading where
  given : List Given
  waiting : Option Spelling := none

/-- Reads the letters of short options that share a word. -/
def readLetters (g : Grammar) : List Char → Except UsageProblem Reading
  | [] => .ok ⟨[], none⟩
  | c :: rest =>
    let name := String.ofList ['-', c]
    match g.find? name with
    | none => .error (.noSuchOption name [])
    | some o =>
      match o.form with
      | .text =>
        if rest.isEmpty then .ok ⟨[], some o⟩
        else .ok ⟨[.text o.key (String.ofList rest)], none⟩
      | .flag b => do
        let r ← readLetters g rest
        pure { r with given := .flag o.key b :: r.given }

/-- Reads an option by its whole name, with the value behind the equals sign if there is one. -/
def readNamed (o : Spelling) (value : Option String) : Except UsageProblem Reading :=
  match o.form, value with
  | .text, some v => .ok ⟨[.text o.key v], none⟩
  | .text, none => .ok ⟨[], some o⟩
  | .flag b, none => .ok ⟨[.flag o.key b], none⟩
  | .flag _, some _ => .error (.valueNotTaken o.name)

/-- Reads a word that starts with a dash. -/
def readWord (g : Grammar) (word : List Char) : Except UsageProblem Reading :=
  let name := String.ofList (word.takeWhile (· != '='))
  let value := if word.contains '=' then some (String.ofList ((word.dropWhile (· != '=')).drop 1))
    else none
  match word with
  | '-' :: '-' :: _ =>
    match g.find? name with
    | some o => readNamed o value
    | none => .error (.noSuchOption name (Text.nearest name g.longNames))
  | _ => g.readLetters (word.drop 1)

def isOption (word : List Char) : Bool := word.head? == some '-' && word != ['-']

/-- The options that are given, in order, and the other words. -/
def read (g : Grammar) : List String → Except UsageProblem (List Given × List String)
  | [] => .ok ([], [])
  | word :: rest =>
    if word == "--" then .ok ([], rest)
    else if isOption word.toList then
      match g.readWord word.toList with
      | .error p => .error p
      | .ok r =>
        match r.waiting, rest with
        | none, rest => (g.read rest).map fun (given, words) => (r.given ++ given, words)
        | some o, value :: rest =>
          (g.read rest).map fun (given, words) =>
            (r.given ++ .text o.key value :: given, words)
        | some o, [] => .error (.valueMissing o.name)
    else if g.mixed then (g.read rest).map fun (given, words) => (given, word :: words)
    else .ok ([], word :: rest)

end Grammar

/-- The options in the order in which they come first, each with what it is given last. -/
def settle : List Given → List Given
  | [] => []
  | o :: rest =>
    let later := settle rest
    ((later.find? (·.key == o.key)).getD o) :: later.filter (·.key != o.key)

def flag? (given : List Given) (key : Key) : Option Bool :=
  given.findSome? fun
    | .flag k b => if k = key then some b else none
    | .text .. => none

def text? (given : List Given) (key : Key) : Option String :=
  given.findSome? fun
    | .text k s => if k = key then some s else none
    | .flag .. => none

end ResourceApi.CommandLine
