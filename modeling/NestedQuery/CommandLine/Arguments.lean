import NestedQuery.CommandLine.Setting
import NestedQuery.CommandLine.Variable

/-!
# Reading the command line

Settings stand before the command, behind it, or at both places; what stands behind it goes first. A
command line is read from the left, so that the first mistake or the first request for help decides.
Only the value right before the command is looked at last, behind all words of the command.
-/

namespace NestedQuery.CommandLine

open Text

inductive Format where
  | text
  | json
  deriving DecidableEq, Repr

def Format.ofName? (name : String) : Option Format :=
  if name == "text" then some .text else if name == "json" then some .json else none

inductive Command where
  | query (document : String) (bindings : List (String × Json))
  | schema

/-- A command with all its settings. -/
structure Invocation where
  command : Command
  config : Option String
  log : Option String
  format : Format
  database : Option String
  catalog : Option String

/-- Why a command line is not run to its end. -/
inductive Stop where
  | wrong
  | version
  | help (level : Level)
  deriving DecidableEq, Repr

/-! ### One level -/

structure Given where
  config : Option String
  log : Option String
  format : Option Format
  database : Option String
  catalog : Option String
  bindings : List (String × Json)
  document : Option String

namespace Given

def empty : Given := ⟨none, none, none, none, none, [], none⟩

/-- A path of at least one character that takes a place where nothing stands. -/
def path? (place : Option String) (value : String) : Option (Option String) :=
  if place.isSome || value.isEmpty then none else some (some value)

/-- Takes up a setting, which must be of use and, unless it is a variable, the first of its kind. -/
def set (g : Given) (setting : Setting) (value : String) : Option Given :=
  match setting with
  | .config => (path? g.config value).map fun p => { g with config := p }
  | .database => (path? g.database value).map fun p => { g with database := p }
  | .catalog => (path? g.catalog value).map fun p => { g with catalog := p }
  | .log => if g.log.isSome then none else some { g with log := some value }
  | .format =>
    if g.format.isSome then none
    else (Format.ofName? value).map fun f => { g with format := some f }
  | .assignment =>
    match parseVariable value with
    | .ok v => some { g with bindings := g.bindings ++ [v] }
    | .error _ => none

/-- Takes up a query document, the only one, which only the command `query` has. -/
def put (g : Given) (level : Level) (document : String) : Option Given :=
  if level = .query ∧ g.document.isNone then some { g with document := some document } else none

end Given

/-- What a word of a command line is by its form. -/
inductive Form where
  -- the two dashes behind which no word is a setting
  | divider
  | long (name : String) (value : Option String)
  -- a dash and at least one letter
  | short (letter : Char)
  | plain
  deriving DecidableEq, Repr

def Form.of (word : String) : Form :=
  match word.toList with
  | ['-', '-'] => divider
  | '-' :: '-' :: rest =>
    match cutFirst '=' rest with
    | some (name, value) => long (.ofList name) (some (.ofList value))
    | none => long (.ofList rest) none
  | '-' :: letter :: _ => short letter
  | _ => plain

/-- The request for help or for the version that a word with dashes is, if it is one. -/
def requestOf? (level : Level) (form : Form) : Option Stop :=
  match form with
  | .long "help" none | .short 'h' => some (.help level)
  | .long "version" none | .short 'V' => if level = .program then some .version else none
  | _ => none

/-- Takes up words that are no settings. -/
def putAll (level : Level) (g : Given) : List String → Except Stop Given
  | [] => .ok g
  | word :: rest =>
    match g.put level word with
    | some g => putAll level g rest
    | none => .error .wrong

/-- A value that is to be looked at later. -/
abbrev Pending := Option (Setting × String)

/-- Takes up the value that was to be looked at later. -/
def Given.setPending (g : Given) : Pending → Option Given
  | none => some g
  | some (setting, value) => g.set setting value

/-- What the words of a level are read to: what is given, a value that is not looked at yet, and the
words that are left. -/
structure Scanned where
  given : Given
  pending : Pending
  rest : List String

/-- Whether the words of a level end at a word. -/
def isCommand (level : Level) (form : Form) : Bool := level = .program && form = .plain

/-- Reads the words of a level. Before the command the first plain word ends the level, and the
words from it on are left. -/
def scan (level : Level) (g : Given) (pending : Pending) : List String → Except Stop Scanned
  | [] => .ok ⟨g, pending, []⟩
  | word :: rest =>
    let form := Form.of word
    if isCommand level form then .ok ⟨g, pending, word :: rest⟩
    else
      match g.setPending pending with
      | none => .error .wrong
      | some g =>
        match requestOf? level form with
        | some stop => .error stop
        | none =>
          match form with
          | .plain =>
            match g.put level word with
            | some g => scan level g none rest
            | none => .error .wrong
          | .short _ => .error .wrong
          | .divider =>
            if level = .program then .error .wrong
            else (putAll level g rest).map fun g => ⟨g, none, []⟩
          | .long name value =>
            match level.setting? name, value, rest with
            | none, _, _ => .error .wrong
            | some setting, some value, rest =>
              match g.set setting value with
              | some g => scan level g none rest
              | none => .error .wrong
            | some _, none, [] => .error .wrong
            | some setting, none, value :: rest =>
              if Form.of value = .plain then scan level g (some (setting, value)) rest
              else .error .wrong

/-! ### Both levels -/

/-- The command of a level with what is given behind it. -/
def Given.command? (g : Given) : Level → Option Command
  | .query => g.document.map fun document => .query document g.bindings
  | .schema => some .schema
  | .program => none

/-- The invocation by a level's command, from what is given before and behind it. The environment
gives the configuration where a level does not; it must not be empty then. -/
def invocation? (environment : Option String) (level : Level) (before behind : Given) :
    Option Invocation :=
  if environment = some "" ∧ (before.config.isNone ∨ behind.config.isNone) then none
  else (behind.command? level).map fun command => {
    command := command
    config := (behind.config.or before.config).or environment
    log := behind.log.or before.log
    format := (behind.format.or before.format).getD .text
    database := behind.database
    catalog := behind.catalog }

/-- What is given at both levels, read with what was to be looked at later. -/
def settle (environment : Option String) (level : Level) (before behind : Scanned) :
    Option Invocation :=
  (behind.given.setPending behind.pending).bind fun behind =>
    (before.given.setPending before.pending).bind fun before =>
      invocation? environment level before behind

/-- Reads a command line up to its end, or to where it stops. -/
def read (environment : Option String) (words : List String) : Except Stop Invocation :=
  match scan .program .empty none words with
  | .error stop => .error stop
  | .ok before =>
    match before.rest with
    | [] => .error .wrong
    | word :: rest =>
      match Level.ofCommand? word with
      | none => .error .wrong
      | some level =>
        match scan level .empty none rest with
        | .error stop => .error stop
        | .ok behind =>
          match settle environment level before behind with
          | some invocation => .ok invocation
          | none => .error .wrong

end NestedQuery.CommandLine
