/-!
What the arguments of a call ask for. Options stand anywhere; those for all commands may be given
once before the command and once after it, where the later one counts.
-/

namespace GameHop.Command

inductive Verb where
  | check
  | format
  | emit
deriving DecidableEq, Repr

def Verb.all : List Verb :=
  [.check, .format, .emit]

def Verb.name : Verb → String
  | .check => "check"
  | .format => "fmt"
  | .emit => "emit"

def Verb.ofName? (x : String) : Option Verb :=
  all.find? (·.name == x)

/-! ## Options -/

inductive Opt where
  | verifier
  | workers
  | noCache
  | verbose
  | checkOnly
  | out
  | help
  | version
deriving DecidableEq, Repr

namespace Opt

def all : List Opt :=
  [verifier, workers, noCache, verbose, checkOnly, out, help, version]

def name : Opt → String
  | verifier => "boogie"
  | workers => "workers"
  | noCache => "no-cache"
  | verbose => "verbose"
  | checkOnly => "check"
  | out => "out"
  | help => "help"
  | version => "version"

def letter? : Opt → Option Char
  | verifier => some 'b'
  | workers => some 'j'
  | verbose => some 'v'
  | help => some 'h'
  | version => some 'V'
  | noCache | checkOnly | out => none

def takesValue : Opt → Bool
  | verifier | workers | out => true
  | noCache | verbose | checkOnly | help | version => false

/-- Whether an option may stand after a command, or before it. -/
def allowed : Option Verb → Opt → Bool
  | verb, version => verb.isNone
  | verb, checkOnly => verb == some .format
  | verb, out => verb == some .emit
  | _, _ => true

def ofName? (verb : Option Verb) (x : String) : Option Opt :=
  all.find? fun o => o.allowed verb && o.name == x

def ofLetter? (verb : Option Verb) (c : Char) : Option Opt :=
  all.find? fun o => o.allowed verb && o.letter? == some c

end Opt

/-! ## Requests -/

inductive UsageError where
  | noCommand
  | unknownCommand (x : String)
  | unknownOption (x : String)
  | unexpectedArgument (x : String)
  | noValue (o : Opt)
  | unexpectedValue (o : Opt)
  | emptyValue
  | notANumber (x : String)
  | repeated (o : Opt)
  | noPath
  | noDirectory

def UsageError.message : UsageError → String
  | noCommand => "a command is required"
  | unknownCommand x => "unrecognized command '" ++ x ++ "'"
  | unknownOption x => "unexpected option '" ++ x ++ "'"
  | unexpectedArgument x => "unexpected argument '" ++ x ++ "'"
  | noValue o => "a value is required for '--" ++ o.name ++ "'"
  | unexpectedValue o => "no value is allowed for '--" ++ o.name ++ "'"
  | emptyValue => "a path is not empty"
  | notANumber x => "invalid number '" ++ x ++ "'"
  | repeated o => "'--" ++ o.name ++ "' cannot be used multiple times"
  | noPath => "a file is required"
  | noDirectory => "'--out' is required"

structure Options where
  verifier : Option String := none
  workers : Option Nat := none
  noCache : Bool := false
  verbose : Bool := false

inductive Action where
  | check (path : String)
  | format (path : String) (checkOnly : Bool)
  | emit (path out : String)

/-- Why a reading ends before the last argument. -/
inductive Stop where
  | help
  | version
  | usage (e : UsageError)

inductive Request where
  | help
  | version
  | act (options : Options) (action : Action)

/-! ## Reading -/

/-- A number of workers: digits, perhaps after a plus sign, below 2^64. -/
def number? (x : String) : Option Nat :=
  let ds := match x.toList with
    | '+' :: ds => ds
    | ds => ds
  if ds.isEmpty || !ds.all (fun c => '0' ≤ c && c ≤ '9') then none
  else
    let n := ds.foldl (fun n c => 10 * n + (c.toNat - '0'.toNat)) 0
    if n < UInt64.size then some n else none

structure Reading where
  verb : Option Verb := none
  path : Option String := none
  /-- Options before the command. -/
  outer : List (Opt × String) := []
  /-- Options since the command, or since the start. -/
  given : List (Opt × String) := []

namespace Reading

def checkValue (o : Opt) (value : String) : Except UsageError Unit :=
  match o with
  | .verifier | .out => if value.isEmpty then .error .emptyValue else .ok ()
  | .workers => if (number? value).isSome then .ok () else .error (.notANumber value)
  | _ => .ok ()

/-- Takes an option in; the value of a flag is empty. -/
def give (r : Reading) (o : Opt) (value : String) : Except Stop Reading :=
  match o with
  | .help => .error .help
  | .version => .error .version
  | o => do
    if (r.given.lookup o).isSome then throw (.usage (.repeated o))
    (checkValue o value).mapError .usage
    return { r with given := (o, value) :: r.given }

def givePath (r : Reading) (x : String) : Except Stop Reading :=
  if r.verb.isNone || r.path.isSome then .error (.usage (.unexpectedArgument x))
  else if x.isEmpty then .error (.usage .emptyValue)
  else .ok { r with path := some x }

/-- Takes an argument in that is no option: a command, or the file of one. -/
def giveWord (r : Reading) (x : String) : Except Stop Reading :=
  if r.verb.isSome then r.givePath x
  else
    match Verb.ofName? x with
    | some v => .ok { r with verb := some v, outer := r.given, given := [] }
    | none => .error (.usage (.unknownCommand x))

/-- Takes an option by name in, with what follows a `=`. Gives the option that waits for a value. -/
def giveLong (r : Reading) (body : List Char) : Except Stop (Reading × Option Opt) :=
  let name := String.ofList (body.takeWhile (· != '='))
  match Opt.ofName? r.verb name, body.dropWhile (· != '=') with
  | none, _ => .error (.usage (.unknownOption name))
  | some o, [] =>
    if o.takesValue then .ok (r, some o) else (r.give o "").map (·, none)
  | some o, _ :: value =>
    if o.takesValue then (r.give o (String.ofList value)).map (·, none)
    else .error (.usage (.unexpectedValue o))

/-- Takes options by letters in. What follows the letter of an option with a value is the value. -/
def giveLetters (r : Reading) : List Char → Except Stop (Reading × Option Opt)
  | [] => .ok (r, none)
  | c :: cs =>
    match Opt.ofLetter? r.verb c with
    | none => .error (.usage (.unknownOption (String.ofList [c])))
    | some o =>
      if o.takesValue then
        match cs with
        | [] => .ok (r, some o)
        | '=' :: value => (r.give o (String.ofList value)).map (·, none)
        | value => (r.give o (String.ofList value)).map (·, none)
      else do
        let r ← r.give o ""
        r.giveLetters cs

/-- Takes an argument in. Gives the option that waits for a value. -/
def giveArgument (r : Reading) (x : String) : Except Stop (Reading × Option Opt) :=
  match x.toList with
  | '-' :: '-' :: body => r.giveLong body
  | '-' :: c :: cs => r.giveLetters (c :: cs)
  | _ => (r.giveWord x).map (·, none)

/-- Whether an argument cannot be the value of an option. -/
def looksLikeOption (x : String) : Bool :=
  match x.toList with
  | '-' :: _ :: _ => true
  | _ => false

/-- What `help` and the words after it ask for: help on a command, if there is one. -/
def helpOn : List String → Stop
  | [] => .help
  | x :: xs =>
    if x == "help" || (Verb.ofName? x).isSome then
      match xs with
      | [] => .help
      | y :: _ => .usage (.unknownCommand y)
    else .usage (.unknownCommand x)

def read (r : Reading) : List String → Except Stop Reading
  | [] => .ok r
  | x :: rest =>
    if x == "--" then rest.foldlM givePath r
    else if r.verb.isNone && x == "help" then .error (helpOn rest)
    else
      match r.giveArgument x with
      | .error stop => .error stop
      | .ok (r, none) => r.read rest
      | .ok (r, some o) =>
        match rest with
        | [] => .error (.usage (.noValue o))
        | value :: rest =>
          if looksLikeOption value then .error (.usage (.noValue o))
          else
            match r.give o value with
            | .error stop => .error stop
            | .ok r => r.read rest

/-- The value of an option; one after the command counts before one in front of it. -/
def value? (r : Reading) (o : Opt) : Option String :=
  r.given.lookup o <|> r.outer.lookup o

def options (r : Reading) : Options :=
  { verifier := r.value? .verifier
    workers := (r.value? .workers).bind number?
    noCache := (r.value? .noCache).isSome
    verbose := (r.value? .verbose).isSome }

def finish (r : Reading) : Except UsageError Request := do
  match r.verb, r.path with
  | none, _ => throw .noCommand
  | some _, none => throw .noPath
  | some .check, some path => return .act r.options (.check path)
  | some .format, some path => return .act r.options (.format path (r.value? .checkOnly).isSome)
  | some .emit, some path =>
    match r.value? .out with
    | none => throw .noDirectory
    | some out => return .act r.options (.emit path out)

end Reading

def Request.ofArguments (args : List String) : Except UsageError Request :=
  match Reading.read {} args with
  | .ok r => r.finish
  | .error .help => .ok .help
  | .error .version => .ok .version
  | .error (.usage e) => .error e

end GameHop.Command
