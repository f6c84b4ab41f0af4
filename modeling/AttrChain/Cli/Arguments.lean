/-!
The arguments of the command line.

Options have long names behind two hyphens and some have short ones of one letter behind one; short
ones may stand together. A value follows its option as the next argument or behind an equals sign.
-/

namespace AttrChain.Cli

inductive Switch where
  | lenient | json | verbose | quiet | help | version
  deriving DecidableEq

inductive Param where
  | scene | onText | byText | toText | fire
  deriving DecidableEq

inductive Meaning where
  | switch (s : Switch)
  | param (p : Param)
  deriving DecidableEq

def long? : String → Option Meaning
  | "config" => some (.param .scene)
  | "on" => some (.param .onText)
  | "by" => some (.param .byText)
  | "to" => some (.param .toText)
  | "fire" => some (.param .fire)
  | "lenient" => some (.switch .lenient)
  | "json" => some (.switch .json)
  | "verbose" => some (.switch .verbose)
  | "quiet" => some (.switch .quiet)
  | "help" => some (.switch .help)
  | "version" => some (.switch .version)
  | _ => none

def short? : Char → Option Meaning
  | 'c' => some (.param .scene)
  | 'f' => some (.param .fire)
  | 'v' => some (.switch .verbose)
  | 'q' => some (.switch .quiet)
  | 'h' => some (.switch .help)
  | 'V' => some (.switch .version)
  | _ => none

inductive Fault where
  | unexpected (arg : String)
  | missingValue (p : Param)
  | repeatedParam (p : Param)
  | repeatedSwitch (s : Switch)
  | surplusValue (s : Switch)
  | emptyPath
  deriving DecidableEq

structure Options where
  scenePath : Option String
  onText : Option String
  byText : Option String
  toText : Option String
  fires : List String
  lenient : Bool
  json : Bool
  verbosity : Nat
  quiet : Bool
  deriving DecidableEq

def Options.initial : Options := ⟨none, none, none, none, [], false, false, 0, false⟩

inductive Request where
  | help
  | version
  | run (o : Options)
  deriving DecidableEq

inductive Stop where
  | fault (f : Fault)
  | help
  | version
  deriving DecidableEq

/-- Takes in an option without a value. Only the one for more messages may be repeated. -/
def Options.switch (s : Switch) (o : Options) : Except Stop Options :=
  let once (before : Bool) (after : Options) : Except Stop Options :=
    if before then .error (.fault (.repeatedSwitch s)) else .ok after
  match s with
  | .lenient => once o.lenient { o with lenient := true }
  | .json => once o.json { o with json := true }
  | .quiet => once o.quiet { o with quiet := true }
  | .verbose => .ok { o with verbosity := o.verbosity + 1 }
  | .help => .error .help
  | .version => .error .version

/-- Takes in an option with its value. Only the one for events may be repeated, and a path is never
empty. -/
def Options.assign (p : Param) (value : String) (o : Options) : Except Stop Options :=
  let once (before : Option String) (after : Options) : Except Stop Options :=
    if before.isSome then .error (.fault (.repeatedParam p)) else .ok after
  match p with
  | .scene =>
    if value = "" then .error (.fault .emptyPath)
    else once o.scenePath { o with scenePath := some value }
  | .onText => once o.onText { o with onText := some value }
  | .byText => once o.byText { o with byText := some value }
  | .toText => once o.toText { o with toText := some value }
  | .fire => .ok { o with fires := o.fires ++ [value] }

inductive Shape where
  | plain
  | terminator
  | long (name : String) (value : Option String)
  | short (names : List Char)
  deriving DecidableEq

def splitValue (cs : List Char) : String × Option String :=
  match cs.dropWhile (· != '=') with
  | [] => (String.ofList cs, none)
  | _ :: value => (String.ofList (cs.takeWhile (· != '=')), some (String.ofList value))

def Shape.of (arg : String) : Shape :=
  match arg.toList with
  | ['-', '-'] => terminator
  | '-' :: '-' :: rest =>
    let (name, value) := splitValue rest
    long name value
  | '-' :: c :: rest => short (c :: rest)
  | _ => plain

def readLong (name : String) (value : Option String) (o : Options) :
    Except Stop (Option Param × Options) :=
  match long? name, value with
  | none, _ => .error (.fault (.unexpected ("--" ++ name)))
  | some (.switch s), none => (o.switch s).map fun o => (none, o)
  | some (.switch s), some _ => .error (.fault (.surplusValue s))
  | some (.param p), none => .ok (some p, o)
  | some (.param p), some value => (o.assign p value).map fun o => (none, o)

/-- Takes in options by their short names. What stands behind an option with a value is the value.
Gives the option whose value is still to come. -/
def readShort : List Char → Options → Except Stop (Option Param × Options)
  | [], o => .ok (none, o)
  | c :: rest, o =>
    match short? c with
    | none => .error (.fault (.unexpected ("-" ++ String.ofList [c])))
    | some (.switch s) =>
      match o.switch s with
      | .error stop => .error stop
      | .ok o => readShort rest o
    | some (.param p) =>
      match rest with
      | [] => .ok (some p, o)
      | '=' :: value => (o.assign p (String.ofList value)).map fun o => (none, o)
      | value => (o.assign p (String.ofList value)).map fun o => (none, o)

/-- Takes in arguments one by one; `pending` is the option whose value is still to come. A value
that has the shape of an option is refused. -/
def readAll : Option Param → List String → Options → Except Stop Options
  | none, [], o => .ok o
  | some p, [], _ => .error (.fault (.missingValue p))
  | some p, arg :: rest, o =>
    match Shape.of arg with
    | .plain =>
      match o.assign p arg with
      | .error stop => .error stop
      | .ok o => readAll none rest o
    | _ => .error (.fault (.missingValue p))
  | none, arg :: rest, o =>
    let read : Except Stop (Option Param × Options) := match Shape.of arg with
      | .plain => .error (.fault (.unexpected arg))
      | .terminator => match rest with
        | [] => .ok (none, o)
        | next :: _ => .error (.fault (.unexpected next))
      | .long name value => readLong name value o
      | .short names => readShort names o
    match read with
    | .error stop => .error stop
    | .ok (pending, o) => readAll pending rest o

/-- What the arguments ask for. Help and version are answered as soon as they are met. -/
def Request.read (args : List String) : Except Fault Request :=
  match readAll none args .initial with
  | .ok o => .ok (.run o)
  | .error .help => .ok .help
  | .error .version => .ok .version
  | .error (.fault f) => .error f

end AttrChain.Cli
