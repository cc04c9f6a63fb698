import Entail.Text.Quoted
import Entail.Text.Digit

/-! The command line, read as a standard option parser reads it: long options by any unambiguous
prefix, bundled short options, `--` ending the options, and what is refused and where. -/

namespace Entail

open Text

/-- The options of the program. -/
inductive Flag
  | help
  | interactive
  | file
  | natural
  | verbose
  | strict
deriving DecidableEq, Repr

namespace Flag

/-- The flags in the order the parser knows them. -/
def all : List Flag := [help, interactive, file, natural, verbose, strict]

/-- The spellings of a flag, in the order the parser knows them. -/
def spellings : Flag → List String
  | help => ["-h", "--help"]
  | interactive => ["--interactive", "-i"]
  | file => ["--file", "-f"]
  | natural => ["--natural", "-n"]
  | verbose => ["--verbose", "-v"]
  | strict => ["--strict", "-s"]

/-- How a flag is named in a complaint: its spellings joined by `/`. -/
def title (f : Flag) : String := "/".intercalate f.spellings

end Flag

/-- Every spelling with its flag, in the order the parser knows them. -/
def spellingTable : List (String × Flag) :=
  Flag.all.flatMap fun f => f.spellings.map fun s => (s, f)

/-- The settings that the command line gives. -/
structure Options where
  interactive : Bool := false
  file : Option String := none
  natural : Bool := true
  verbose : Bool := false
  strict : Bool := false
deriving DecidableEq, Repr

/-- How a command line is read. -/
inductive Options.Outcome
  /-- The program runs with these settings. -/
  | run (o : Options)
  /-- The help text is asked for. -/
  | help
  /-- The command line is refused with this complaint. -/
  | refused (complaint : String)
deriving DecidableEq, Repr

/-- The usage line. -/
def usageText : String :=
  "usage: es.py [-h] [--interactive] [--file FILE] [--natural] [--verbose]\n" ++
  "             [--strict]\n"

/-- The help text. -/
def helpText : String :=
  usageText ++ "\noptions:\n" ++
  "  -h, --help            show this help message and exit\n" ++
  "  --interactive, -i     interactive mode\n" ++
  "  --file FILE, -f FILE  File to read\n" ++
  "  --natural, -n         more natural input\n" ++
  "  --verbose, -v         more verbose evaluation\n" ++
  "  --strict, -s          Be strict when ambiguous (None->False converter)\n"

/-- What one argument is, before any is acted on. -/
inductive Arg
  /-- A plain argument. -/
  | plain
  /-- The argument `--`, after which every argument is plain. -/
  | separator
  /-- A known option, spelled `spelling`, with the value attached to it if any. -/
  | known (flag : Flag) (spelling : String) (attached : Option String)
  /-- Something that looks like an option and is none. -/
  | unknown
deriving DecidableEq, Repr

namespace Arg

/-- Whether a text looks like a negative number: `-` then decimal digits, or decimal digits around
one point, with one newline allowed at the end. -/
def isNegativeNumber (s : String) : Bool :=
  let cs := s.toList
  let cs := if cs.getLast? = some '\n' then cs.dropLast else cs
  match cs with
  | '-' :: rest =>
    let digits := rest.takeWhile isDecimal
    let after := rest.dropWhile isDecimal
    match after with
    | [] => !digits.isEmpty
    | '.' :: frac => !frac.isEmpty && frac.all isDecimal
    | _ => false
  | _ => false

/-- A text cut at its first `=`: what comes before, and what comes after if there is one. -/
def cutAtEquals (s : String) : String × Option String :=
  match s.splitOn "=" with
  | p :: v :: vs => (p, some ("=".intercalate (v :: vs)))
  | _ => (s, none)

/-- The options a text can stand for: for `--name`, every long option that begins with `name`
(with the value after `=`, if any); for `-xrest`, the short option `-x` with `rest` attached. -/
def candidates (s : String) : List (Flag × String × Option String) :=
  match s.toList with
  | '-' :: '-' :: _ =>
    let (pre, val) := cutAtEquals s
    spellingTable.filterMap fun (sp, f) =>
      if sp.startsWith pre then some (f, sp, val) else none
  | '-' :: x :: rest =>
    spellingTable.filterMap fun (sp, f) =>
      if sp = String.ofList ['-', x] then some (f, sp, some (String.ofList rest))
      else if sp.startsWith s then some (f, sp, none)
      else none
  | _ => []

/-- Classifies an argument that comes before any `--`; a prefix that fits several long options is
refused. -/
def classify (s : String) : Except String Arg :=
  if s = "--" then .ok separator
  else
    match s.toList with
    | [] => .ok plain
    | [_] => .ok plain
    | c :: _ =>
      if c ≠ '-' then .ok plain
      else
        match spellingTable.lookup s with
        | some f => .ok (known f s none)
        | none =>
          let (pre, val) := cutAtEquals s
          match val, spellingTable.lookup pre with
          | some v, some f => .ok (known f pre (some v))
          | _, _ =>
            match candidates s with
            | [(f, sp, att)] => .ok (known f sp att)
            | [] =>
              if isNegativeNumber s then .ok plain
              else if s.contains ' ' then .ok plain
              else .ok unknown
            | many =>
              .error ("ambiguous option: " ++ s ++ " could match " ++
                ", ".intercalate (many.map fun m => m.2.1))

/-- Classifies every argument; after the first `--` all are plain. -/
def classifyAll : List String → Except String (List (String × Arg))
  | [] => .ok []
  | s :: rest => do
    let a ← classify s
    if a = separator then
      pure ((s, a) :: rest.map fun r => (r, plain))
    else
      let more ← classifyAll rest
      pure ((s, a) :: more)

end Arg

namespace Options

/-- The complaint about a value given to an option that takes none. -/
def ignoredValue (f : Flag) (v : String) : String :=
  "argument " ++ f.title ++ ": ignored explicit argument " ++ quote v

/-- The flag a short option letter names. -/
def shortFlag? (x : Char) : Option Flag := spellingTable.lookup (String.ofList ['-', x])

/-- What one option argument asks for: the flags that take no value, in order, and for the file
option, its value, or `none` when the value is the next argument. -/
structure Request where
  flags : List Flag
  file : Option (Option String) := none
deriving DecidableEq, Repr

/-- The request with one more flag in front. -/
def Request.after (f : Flag) (r : Request) : Request := { r with flags := f :: r.flags }

/-- Reads the value attached to the short flag `f`, which takes none, as more short options:
each letter must name an option, and the file option takes the letters after its own as its
value. An empty value, or a letter that names no option, is refused with what is left. -/
def bundle (f : Flag) : List Char → Except String Request
  | [] => .error (ignoredValue f "")
  | x :: rest =>
    match shortFlag? x with
    | none => .error (ignoredValue f (String.ofList (x :: rest)))
    | some .file =>
      .ok { flags := [f], file := some (if rest.isEmpty then none else some (String.ofList rest)) }
    | some g =>
      match rest with
      | [] => .ok { flags := [f, g] }
      | r :: rs => Request.after f <$> bundle g (r :: rs)

/-- What one option argument asks for. A value attached to an option that takes none is refused,
unless the option is short and the value spells more short options. -/
def request (f : Flag) (spelling : String) : Option String → Except String Request
  | none => .ok (if f = .file then { flags := [], file := some none } else { flags := [f] })
  | some v =>
    if f = .file then .ok { flags := [], file := some (some v) }
    else if spelling.startsWith "--" then .error (ignoredValue f v)
    else bundle f v.toList

/-- Sets the flags in order; help, when reached, ends the reading. -/
def setAll (o : Options) : List Flag → Option Options
  | [] => some o
  | .help :: _ => none
  | .interactive :: fs => setAll { o with interactive := true } fs
  | .file :: fs => setAll o fs
  | .natural :: fs => setAll { o with natural := true } fs
  | .verbose :: fs => setAll { o with verbose := true } fs
  | .strict :: fs => setAll { o with strict := true } fs

/-- Acts on the classified arguments in order, collecting those that are not understood. -/
def consume (o : Options) (extras : List String) : List (String × Arg) → Options.Outcome
  | [] =>
    if extras.isEmpty then .run o
    else .refused ("unrecognized arguments: " ++ " ".intercalate extras)
  | (_, .known f spelling attached) :: rest =>
    match request f spelling attached with
    | .error complaint => .refused complaint
    | .ok r =>
      match r.file with
      | none =>
        match setAll o r.flags with
        | none => .help
        | some o => consume o extras rest
      | some (some v) =>
        match setAll o r.flags with
        | none => .help
        | some o => consume { o with file := some v } extras rest
      | some none =>
        match rest with
        | (v, .plain) :: after =>
          match setAll o r.flags with
          | none => .help
          | some o => consume { o with file := some v } extras after
        | _ => .refused "argument --file/-f: expected one argument"
  | (s, _) :: rest => consume o (extras ++ [s]) rest

/-- Reads a command line. -/
def parse (args : List String) : Options.Outcome :=
  match Arg.classifyAll args with
  | .error complaint => .refused complaint
  | .ok classified => consume {} [] classified

end Options

end Entail
