import CliffordT.Config.Setting

/-!
# Flags of a command line

A flag is given as `--name=value` or `--name value`; one that is a truth value may stand alone. A truth value may also
have a letter, given after one dash, and letters may be joined. Arguments that are no flags may stand between them, and
after `--` everything is an argument.
-/

namespace CliffordT.Command

/-- What the value of a flag is. -/
inductive FlagKind where
  | int
  | float
  | text
  | duration
  | switch
deriving DecidableEq, Repr

/-- A flag that a command knows. -/
structure Flag where
  name : String
  kind : FlagKind
  /-- the letter of a truth value -/
  letter : Option Char
  /-- what the flag is for -/
  purpose : String
  /-- the text of the value that counts when the flag is not given -/
  otherwise : String
deriving DecidableEq, Repr

/-- How a flag is named in messages. -/
def Flag.title (f : Flag) : String :=
  match f.letter with
  | some c => "-" ++ c.toString ++ ", --" ++ f.name
  | none => "--" ++ f.name

/-- Why the arguments make no sense. -/
inductive FlagError where
  | badForm (arg : String)
  | unknown (name : String)
  | unknownShorthand (first : UInt8) (letters : String)
  | missingValue (arg : String)
  | invalid (value title reason : String)
  | helpRequested
deriving DecidableEq, Repr

/-- The wording of such an error. -/
def FlagError.message : FlagError → String
  | .badForm arg => "bad flag syntax: " ++ arg
  | .unknown name => "unknown flag: --" ++ name
  | .unknownShorthand first letters => "unknown shorthand flag: " ++ Text.quotedByte first ++ " in -" ++ letters
  | .missingValue arg => "flag needs an argument: " ++ arg
  | .invalid value title reason =>
    "invalid argument " ++ Text.quoted value ++ " for " ++ Text.quoted title ++ " flag: " ++ reason
  | .helpRequested => "pflag: help requested"

/-- Read the value of a flag. -/
def FlagKind.read (kind : FlagKind) (s : String) : Except String Setting :=
  match kind with
  | .int =>
    match Decimal.readInt s with
    | .ok n => .ok (.int n)
    | .error e => .error (Reading.message .int s e)
  | .float =>
    match Decimal.readFloat s with
    | .ok x => .ok (.float x)
    | .error e => .error (Reading.message .float s e)
  | .text => .ok (.text s)
  | .duration =>
    match Duration.read s with
    | .ok d => .ok (.int d.nanoseconds)
    | .error e => .error e.message
  | .switch =>
    match Decimal.readBool s with
    | .ok b => .ok (.bool b)
    | .error e => .error (Reading.message .truth s e)

/-- The flags that were set, in order, and the other arguments. -/
structure Arguments where
  set : List (String × Setting)
  rest : List String

/-- The last value that was given to a flag. -/
def Arguments.value? (a : Arguments) (name : String) : Option Setting := a.set.reverse.lookup name

/-- Split an argument `--name=value` behind its dashes. -/
def splitFlag (s : String) : String × Option String :=
  let name := s.toList.takeWhile (· ≠ '=')
  match s.toList.drop name.length with
  | [] => (String.ofList name, none)
  | _ :: value => (String.ofList name, some (String.ofList value))

/-- Record the value of a flag. -/
def setFlag (flag : Flag) (value : String) (done : Arguments) : Except FlagError Arguments :=
  match flag.kind.read value with
  | .ok v => .ok { done with set := done.set ++ [(flag.name, v)] }
  | .error reason => .error (.invalid value flag.title reason)

/-- The letters after one dash, from the first on. A letter may be followed by `=` and a value. -/
def readLetters (known : List Flag) : Arguments → List Char → Except FlagError Arguments
  | done, [] => .ok done
  | done, c :: cs =>
    if "test.".toList.isPrefixOf (c :: cs) then .ok done
    else
      match known.find? (·.letter = some c) with
      | none =>
        if c = 'h' then .error .helpRequested
        else
          let letters := String.ofList (c :: cs)
          .error (.unknownShorthand (letters.toUTF8.toList.headD 0) letters)
      | some flag =>
        match cs with
        | '=' :: v :: value => setFlag flag (String.ofList (v :: value)) done
        | cs => do readLetters known (← setFlag flag "true" done) cs

/-- Read arguments by the flags that are known. -/
def readFlags (known : List Flag) : Arguments → List String → Except FlagError Arguments
  | done, [] => .ok done
  | done, arg :: args =>
    match arg.toList with
    | '-' :: '-' :: [] => .ok { done with rest := done.rest ++ args }
    | '-' :: '-' :: c :: cs =>
      if c = '-' ∨ c = '=' then .error (.badForm arg)
      else
        let (name, value?) := splitFlag (String.ofList (c :: cs))
        match known.find? (·.name = name) with
        | none => if name = "help" then .error .helpRequested else .error (.unknown name)
        | some flag =>
          match value?, args with
          | some value, args => do readFlags known (← setFlag flag value done) args
          | none, [] =>
            if flag.kind = .switch then setFlag flag "true" done else .error (.missingValue arg)
          | none, next :: later =>
            if flag.kind = .switch then do readFlags known (← setFlag flag "true" done) (next :: later)
            else do readFlags known (← setFlag flag next done) later
    | '-' :: c :: cs => do readFlags known (← readLetters known done (c :: cs)) args
    | _ => readFlags known { done with rest := done.rest ++ [arg] } args

/-- Read the arguments of a command. -/
def readArguments (known : List Flag) (args : List String) : Except FlagError Arguments :=
  readFlags known ⟨[], []⟩ args

end CliffordT.Command
