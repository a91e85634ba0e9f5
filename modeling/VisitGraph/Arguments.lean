import VisitGraph.Listing
import VisitGraph.Diagram
import VisitGraph.Route

/-! Command line arguments: two file names, and options that may stand anywhere among them. A long
option may be shortened as long as it stays unambiguous, and its value may follow an equals sign. A
lone `--` ends the options. Arguments are texts; one whose bytes are no text is not represented.

In all this the rules are those of argparse in the first releases of 3.11. Later ones, 3.11.10 among
them, keep a `--` that is the value of an option, and do not look at unknown letters behind `-h`. -/

namespace VisitGraph

/-- What a run is asked to do. The trace and the name of the diagram are missing where nothing is
left of what was given. -/
structure Settings where
  functions : Route
  trace? : Option Route
  separator : String
  outputFolder? : Option Route
  graphOut? : Option Route
  statisticsOut? : Option Route
  tableOut? : Option Route
  sequenceOut? : Option Route
  graphName? : Option String
  verbose : Bool
  deriving DecidableEq, Repr

namespace Settings

/-- The name that the diagram bears: none at all if it is missing. -/
def graphName (s : Settings) : String :=
  s.graphName?.getD ""

/-- The name by which the diagram is told of: empty brackets if it is missing. -/
def shownGraphName (s : Settings) : String :=
  s.graphName?.getD "[]"

end Settings

namespace Arguments

/-- An option. -/
inductive Flag where
  | help
  | separator
  | outputFolder
  | graphOut
  | statisticsOut
  | tableOut
  | sequenceOut
  | graphName
  | verbose
  deriving DecidableEq, Repr

namespace Flag

/-- The long name of an option. -/
def name : Flag → String
  | help => "--help"
  | separator => "--separator"
  | outputFolder => "--output-dir"
  | graphOut => "--graph-out"
  | statisticsOut => "--stats-out"
  | tableOut => "--table-out"
  | sequenceOut => "--sequence-out"
  | graphName => "--graph-name"
  | verbose => "--verbose"

/-- The options in the order in which they are listed. -/
def all : List Flag :=
  [help, separator, outputFolder, graphOut, statisticsOut, tableOut, sequenceOut, graphName,
    verbose]

/-- Whether a value belongs to the option. -/
def takesValue : Flag → Bool
  | help | verbose => false
  | _ => true

/-- The option with exactly this name. -/
def named? (text : List Char) : Option Flag :=
  all.find? fun f => f.name.toList = text

/-- The options whose names begin with a text. -/
def beginning (text : List Char) : List Flag :=
  all.filter fun f => text.isPrefixOf f.name.toList

end Flag

/-- How the command is called. -/
def usage : String :=
  "Build an annotated call graph from a basic-block trace and a function list.\n" ++
    "arguments: functions trace\n" ++
    "options: -h --verbose, and with a value:" ++
    String.join ((Flag.all.filter Flag.takesValue).map fun f => " " ++ f.name)

/-- Why a run does not begin. -/
inductive Stop where
  | help
  | misuse
  deriving DecidableEq, Repr

/-! ### Words -/

/-- What a single argument is. -/
inductive Word where
  | plain (text : String)
  | option (f : Flag) (value? : Option String)
  | unknown
  | divider
  deriving DecidableEq, Repr

/-- Whether the text is a minus and a number, perhaps with a line feed behind it. -/
def isNegativeNumber (text : List Char) : Bool :=
  let isDigit (c : Char) : Bool := (Text.decimalDigit? c).isSome
  let body := if text.getLast? = some '\n' then text.dropLast else text
  let rest := body.tail.dropWhile isDigit
  body.head? == some '-' &&
    if rest.isEmpty then !body.tail.isEmpty
    else rest.head? == some '.' && !rest.tail.isEmpty && rest.tail.all isDigit

/-- The text up to the first equals sign, and the text after it if there is one. -/
def splitEquals (text : List Char) : List Char × Option String :=
  let rest := text.dropWhile (· ≠ '=')
  (text.takeWhile (· ≠ '='), if rest.isEmpty then none else some (String.ofList rest.tail))

/-- The short help option with letters behind it, which must be more of the same: anything else is
taken for a value. -/
def helpCluster (letters : List Char) : Word :=
  if !letters.isEmpty && letters.all (· = 'h') then .option .help none
  else .option .help (some (String.ofList letters))

/-- An argument that begins with a minus, names no option and cannot be completed to one. -/
def otherWord (text : List Char) : Word :=
  if isNegativeNumber text || text.contains ' ' then .plain (String.ofList text) else .unknown

/-- The word of an argument other than the divider. -/
def word (argument : String) : Except Stop Word :=
  let text := argument.toList
  let (name, value?) := splitEquals text
  match text with
  | ['-', 'h'] => .ok (.option .help none)
  | '-' :: 'h' :: '=' :: letters => .ok (helpCluster letters)
  | '-' :: 'h' :: letters => .ok (helpCluster letters)
  | '-' :: '-' :: _ =>
    match Flag.named? text, Flag.named? name with
    | some f, _ => .ok (.option f none)
    | none, some f => .ok (.option f value?)
    | none, none =>
      match Flag.beginning name with
      | [] => .ok (otherWord text)
      | [f] => .ok (.option f value?)
      | _ => .error .misuse
  | '-' :: _ :: _ => .ok (otherWord text)
  | _ => .ok (.plain argument)

/-- The words of the arguments. After the divider every argument is plain. -/
def words : List String → Except Stop (List Word)
  | [] => .ok []
  | argument :: rest =>
    if argument = "--" then .ok (.divider :: rest.map .plain)
    else do return (← word argument) :: (← words rest)

/-! ### Reading the words -/

/-- What has been read so far. The names are given in order, at most two; one is missing where
nothing was left of it. -/
structure Draft where
  names : List (Option String)
  /-- Whether the last word was a name. -/
  afterName : Bool
  /-- Whether the divider still belongs to no name. -/
  dividerOpen : Bool
  /-- Whether something was left over. -/
  surplus : Bool
  settings : Settings
  deriving DecidableEq, Repr

/-- Nothing has been read. -/
def Draft.initial : Draft :=
  { names := []
    afterName := false
    dividerOpen := false
    surplus := false
    settings :=
      { functions := .ofString ""
        trace? := none
        separator := Listing.defaultSeparator
        outputFolder? := none
        graphOut? := none
        statisticsOut? := none
        tableOut? := none
        sequenceOut? := none
        graphName? := some Diagram.defaultName
        verbose := false } }

/-- Nothing is left of a text that looks like the divider. -/
def dropDivider (text : String) : Option String :=
  if text = "--" then none else some text

/-- Takes a text as the next name. One divider that belongs to a name is dropped; where there was
none, a text that looks like one is dropped in its stead. -/
def Draft.addName (d : Draft) (text : String) : Draft :=
  if d.names.length < 2 then
    { d with
      names := d.names ++ [if d.dividerOpen then some text else dropDivider text]
      afterName := true
      dividerOpen := false }
  else { d with surplus := true }

/-- Takes the divider, which belongs to the name before it or else to the one after it. -/
def Draft.addDivider (d : Draft) : Draft :=
  { d with
    dividerOpen := !d.afterName
    surplus := d.surplus || (d.names.length == 2 && !d.afterName) }

/-- Sets the value of an option, or unsets it where nothing is left of the value. -/
def setValue (s : Settings) (value? : Option String) : Flag → Settings
  | .separator => { s with separator := value?.getD "" }
  | .outputFolder => { s with outputFolder? := value?.map .ofString }
  | .graphOut => { s with graphOut? := value?.map .ofString }
  | .statisticsOut => { s with statisticsOut? := value?.map .ofString }
  | .tableOut => { s with tableOut? := value?.map .ofString }
  | .sequenceOut => { s with sequenceOut? := value?.map .ofString }
  | .graphName => { s with graphName? := value? }
  | .help | .verbose => s

/-- The draft after an option with its value. -/
def Draft.setValue (d : Draft) (f : Flag) (value : String) : Draft :=
  { d with afterName := false, settings := Arguments.setValue d.settings (dropDivider value) f }

/-- Reads words. The first word that does not fit, or a call for help, ends the reading; words left
over are only noted. -/
def readWords (d : Draft) : List Word → Except Stop Draft
  | [] => .ok d
  | .plain text :: rest => readWords (d.addName text) rest
  | .unknown :: rest => readWords { d with afterName := false, surplus := true } rest
  | .divider :: rest => readWords d.addDivider rest
  | .option .help none :: _ => .error .help
  | .option .help (some _) :: _ => .error .misuse
  | .option .verbose none :: rest =>
    readWords { d with afterName := false, settings := { d.settings with verbose := true } } rest
  | .option .verbose (some _) :: _ => .error .misuse
  | .option f (some value) :: rest => readWords (d.setValue f value) rest
  | .option f none :: .plain value :: rest => readWords (d.setValue f value) rest
  | .option _ none :: _ => .error .misuse

/-- The settings, if both names were given and nothing was left over. -/
def Draft.finish (d : Draft) : Except Stop Settings :=
  match d.surplus, d.names with
  | false, [some functions, trace?] =>
    .ok { d.settings with
      functions := .ofString functions
      trace? := trace?.map .ofString }
  | _, _ => .error .misuse

/-- Reads the arguments. -/
def read (arguments : List String) : Except Stop Settings := do
  (← readWords .initial (← words arguments)).finish

end VisitGraph.Arguments
