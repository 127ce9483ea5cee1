import TransactionalPages.Config
import TransactionalPages.Fault

/-!
# Command line options

An option is given by a long or a short name, and its value stands behind an
equals sign, directly behind a short name, or in the next argument. Each option
may be given once, and there are no other arguments.
-/

namespace TransactionalPages.CommandLine

structure Options where
  dataDir : String
  capacity : Nat
  pageSize : Nat
  threads : Nat
  transactions : Nat
  ops : Nat
  debug : Bool
  deriving DecidableEq, Repr

instance : Inhabited Options :=
  ⟨⟨"./data", (default : Config).capacity, (default : Config).pageSize, 4, 50, 8, false⟩⟩

inductive Setting where
  | dataDir
  | capacity
  | pageSize
  | threads
  | transactions
  | ops
  | debug
  deriving DecidableEq, Repr

inductive UsageError where
  | unexpectedArgument (text : String)
  | valueMissing (setting : Setting)
  | valueUnwanted (setting : Setting)
  | badNumber (setting : Setting) (text : String)
  | repeated (setting : Setting)
  deriving DecidableEq, Repr

namespace Setting

def long : Setting → String
  | dataDir => "data-dir"
  | capacity => "capacity"
  | pageSize => "page-size"
  | threads => "threads"
  | transactions => "transactions"
  | ops => "ops"
  | debug => "debug"

def short : Setting → Char
  | dataDir => 'D'
  | capacity => 'c'
  | pageSize => 'p'
  | threads => 't'
  | transactions => 'n'
  | ops => 'o'
  | debug => 'd'

def all : List Setting := [dataDir, capacity, pageSize, threads, transactions, ops, debug]

def ofLong? (name : List Char) : Option Setting := all.find? fun s => s.long.toList = name

def ofShort? (name : Char) : Option Setting := all.find? fun s => s.short = name

def takesValue (s : Setting) : Bool := s ≠ debug

end Setting

namespace UsageError

def message : UsageError → String
  | unexpectedArgument text => "unexpected argument '" ++ text ++ "' found"
  | valueMissing s => "a value is required for '--" ++ s.long ++ "' but none was supplied"
  | valueUnwanted s => "unexpected value for '--" ++ s.long ++ "' found; no more were expected"
  | badNumber s text => "invalid value '" ++ text ++ "' for '--" ++ s.long ++ "'"
  | repeated s => "the argument '--" ++ s.long ++ "' cannot be used multiple times"

end UsageError

/-- A setting with the text of its value, which is empty for a flag. -/
abbrev Given := Setting × String

/-- What one argument says: flags that stand for themselves, and possibly a setting whose value
comes with it or, if that is `none`, in the next argument. -/
structure Reading where
  flags : List Setting
  last : Option (Setting × Option String)

/-- The value behind a name, which may be set off by an equals sign but not be empty. -/
def attached (s : Setting) : List Char → Except UsageError (Option String)
  | [] => .ok none
  | '=' :: [] => .error (.valueMissing s)
  | '=' :: value => .ok (some (String.ofList value))
  | value => .ok (some (String.ofList value))

def readLong (text : List Char) : Except UsageError Reading :=
  match Setting.ofLong? (text.takeWhile (· ≠ '=')) with
  | none => .error (.unexpectedArgument (String.ofList ('-' :: '-' :: text)))
  | some s =>
    let rest := text.dropWhile (· ≠ '=')
    if s.takesValue then (attached s rest).map fun value => ⟨[], some (s, value)⟩
    else if rest.isEmpty then .ok ⟨[s], none⟩
    else .error (.valueUnwanted s)

/-- Reads short names that stand together; the first that takes a value takes the rest. -/
def readShort : List Char → Except UsageError Reading
  | [] => .ok ⟨[], none⟩
  | c :: rest =>
    match Setting.ofShort? c with
    | none => .error (.unexpectedArgument (String.ofList ['-', c]))
    | some s =>
      if s.takesValue then (attached s rest).map fun value => ⟨[], some (s, value)⟩
      else if rest.head? = some '=' then .error (.valueUnwanted s)
      else (readShort rest).map fun r => { r with flags := s :: r.flags }

def readArgument (text : String) : Except UsageError Reading :=
  match text.toList with
  | '-' :: '-' :: rest => readLong rest
  | '-' :: c :: rest => readShort (c :: rest)
  | _ => .error (.unexpectedArgument text)

/-- Whether an argument can be a value: only a lone hyphen may begin with one. -/
def isValue (text : String) : Bool := text = "-" ∨ text.toList.head? ≠ some '-'

def flagsGiven (flags : List Setting) : List Given := flags.map fun s => (s, "")

/-- The settings in the order in which they are given. -/
def readAll : List String → Except UsageError (List Given)
  | [] => .ok []
  | "--" :: [] => .ok []
  | "--" :: text :: _ => .error (.unexpectedArgument text)
  | text :: rest =>
    match readArgument text with
    | .error e => .error e
    | .ok ⟨flags, none⟩ => (readAll rest).map fun more => flagsGiven flags ++ more
    | .ok ⟨flags, some (s, some value)⟩ =>
      (readAll rest).map fun more => flagsGiven flags ++ (s, value) :: more
    | .ok ⟨flags, some (s, none)⟩ =>
      match rest with
      | [] => .error (.valueMissing s)
      | value :: rest =>
        if isValue value then
          (readAll rest).map fun more => flagsGiven flags ++ (s, value) :: more
        else .error (.valueMissing s)

/-- Reads decimal digits, possibly behind a plus sign. The number must fit into a word. -/
def readNumber (s : Setting) (text : String) : Except UsageError Nat :=
  let digits : List Char :=
    match text.toList with
    | '+' :: rest => rest
    | cs => cs
  let value := digits.foldl (fun n c => 10 * n + (c.toNat - '0'.toNat)) 0
  if !digits.isEmpty && digits.all Char.isDigit && value ≤ Limit.word then .ok value
  else .error (.badNumber s text)

def set (o : Options) : Given → Except UsageError Options
  | (.dataDir, text) => .ok { o with dataDir := text }
  | (.debug, _) => .ok { o with debug := true }
  | (.capacity, text) => (readNumber .capacity text).map fun n => { o with capacity := n }
  | (.pageSize, text) => (readNumber .pageSize text).map fun n => { o with pageSize := n }
  | (.threads, text) => (readNumber .threads text).map fun n => { o with threads := n }
  | (.transactions, text) =>
    (readNumber .transactions text).map fun n => { o with transactions := n }
  | (.ops, text) => (readNumber .ops text).map fun n => { o with ops := n }

def setAll : List Given → Options → Except UsageError Options
  | [], o => .ok o
  | given :: rest, o =>
    if rest.any fun other => other.1 = given.1 then .error (.repeated given.1)
    else match set o given with
      | .error e => .error e
      | .ok o => setAll rest o

def parse (args : List String) : Except UsageError Options :=
  match readAll args with
  | .error e => .error e
  | .ok given => setAll given default

end TransactionalPages.CommandLine
