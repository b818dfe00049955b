import Core6502.Text.Numeral

/-!
# Command lines

The words of a command line are read from left to right in groups: an option that takes a value
with the word after it, another option, or the name of the image. The value is always the next
word, whatever it looks like. The first word that fits nowhere decides the error.
-/

namespace Core6502

/-- An option that takes the word after it as its value. -/
inductive Setting where
  | load
  | pc
  /-- Where execution stops; may be given more than once. -/
  | breakAt
  | steps
deriving DecidableEq

def Setting.name : Setting → String
  | load => "--load"
  | pc => "--pc"
  | breakAt => "--break"
  | steps => "--steps"

def Setting.expected : Setting → String
  | load | pc | breakAt => "an address like 0x8000 or $8000"
  | steps => "a number"

inductive UsageError where
  | missingValue (setting : Setting)
  | badValue (setting : Setting)
  | unknownOption (word : String)
  | unexpectedArgument (word : String)
  | missingImage
deriving DecidableEq

namespace UsageError

def parts : UsageError → List String
  | missingValue setting => [setting.name, " requires a value"]
  | badValue setting => [setting.name, ": expected ", setting.expected]
  | unknownOption word => ["Unknown option: ", word]
  | unexpectedArgument word => ["Unexpected argument: ", word]
  | missingImage => ["Image argument missing"]

def message (e : UsageError) : String := String.join e.parts

end UsageError

/-- What a command line asks for besides the image. -/
structure Options where
  load : Option UInt16 := none
  pc : Option UInt16 := none
  steps : Option Nat := none
  breakpoints : List UInt16 := []
  trace : Bool := false
deriving DecidableEq

inductive Keyword where
  | help
  | trace
  | takes (setting : Setting)
deriving DecidableEq

/-- The option that a word stands for. -/
def Keyword.ofWord? : String → Option Keyword
  | "--help" | "-h" => some .help
  | "--trace" => some .trace
  | "--load" => some (.takes .load)
  | "--pc" => some (.takes .pc)
  | "--break" | "-b" => some (.takes .breakAt)
  | "--steps" => some (.takes .steps)
  | _ => none

/-- Gives an option its value. A later value takes the place of an earlier one, but breakpoints
gather. -/
def Options.set? (o : Options) (setting : Setting) (value : String) : Option Options :=
  match setting with
  | .load => (Numeral.address? value).map fun address => { o with load := some address }
  | .pc => (Numeral.address? value).map fun address => { o with pc := some address }
  | .breakAt =>
    (Numeral.address? value).map fun address =>
      { o with breakpoints := o.breakpoints ++ [address] }
  | .steps => (Numeral.count? value).map fun count => { o with steps := some count }

/-- Whether a word has the form of an option. -/
def looksLikeOption (word : String) : Bool := word.toList.head? == some '-'

/-- What a command line asks the program to do. -/
inductive Request where
  | help
  | launch (image : String) (options : Options)
deriving DecidableEq

namespace Request

/-- Reads the words that follow those already read, which named the image and set the
options. -/
def read (image : Option String) (o : Options) : List String → Except UsageError Request
  | [] =>
    match image with
    | some image => .ok (.launch image o)
    | none => .error .missingImage
  | word :: words =>
    match Keyword.ofWord? word with
    | some .help => .ok .help
    | some .trace => read image { o with trace := true } words
    | some (.takes setting) =>
      match words with
      | [] => .error (.missingValue setting)
      | value :: words =>
        match o.set? setting value with
        | some o => read image o words
        | none => .error (.badValue setting)
    | none =>
      if looksLikeOption word then .error (.unknownOption word)
      else if image.isSome then .error (.unexpectedArgument word)
      else read (some word) o words

def ofWords (words : List String) : Except UsageError Request := read none {} words

end Request

end Core6502
