import Famicom.Options.Basic

/-!
# The command line

A command line is a list of words. A word of two dashes and a name is an option, whose value is
either attached with an equals sign or the next word; a word of one dash and a letter is an option
too, with its value attached at once or the next word; any other word is the file name. After two
dashes alone every word is a file name. A word that looks like an option is never a value, so
negative numbers have to be attached.

A value is kept as text and looked at only when the next option or file name comes, or the line
ends. So of two faults the earlier is reported, except that an argument that is not known is
reported before the value that was waiting.
-/

namespace Famicom

/-- What a command line can set, or ask for. -/
inductive OptionKey where
  | rom
  | pal
  | headless
  | help
  | scale
  | speed
  | frames
  | sampleRate
  deriving DecidableEq, Repr

namespace OptionKey

/-- The option with a long name. -/
def ofName? (name : String) : Option OptionKey :=
  match name with
  | "pal" => some pal
  | "headless" => some headless
  | "help" => some help
  | "scale" => some scale
  | "speed" => some speed
  | "frames" => some frames
  | "sample-rate" => some sampleRate
  | _ => none

/-- The option with a letter. -/
def ofLetter? : Char → Option OptionKey
  | 'h' => some help
  | 's' => some scale
  | 'f' => some frames
  | _ => none

/-- The option is a switch, without a value. -/
def isSwitch : OptionKey → Bool
  | pal | headless | help => true
  | _ => false

end OptionKey

/-- A word of the command line, by its form. -/
inductive CommandWord where
  /-- A name, with what follows the first equals sign. -/
  | long (name : String) (value : Option String)
  /-- A letter, with what follows it. -/
  | short (letter : Char) (rest : List Char)
  | plain (text : String)
  deriving DecidableEq, Repr

/-- The form of a word. -/
def CommandWord.ofText (text : String) : CommandWord :=
  match text.toList with
  | '-' :: '-' :: cs =>
    let name := cs.takeWhile (· != '=')
    let value := match cs.dropWhile (· != '=') with
      | _ :: rest => some (String.ofList rest)
      | [] => none
    long (String.ofList name) value
  | '-' :: letter :: rest => short letter rest
  | _ => plain text

namespace Options

/-- Counts of frames are below this. -/
def frameLimit : Nat := 0x10000000000000000

/-- Sample rates are below this. -/
def rateLimit : Nat := 0x100000000

/-- Reads the value of an option, or the file name. -/
def assign (o : Options) (key : OptionKey) (text : String) : Except OptionError Options :=
  let cs := text.toList
  match key with
  | .rom => if cs.isEmpty then .error .missingValue else .ok { o with rom := some text }
  | .scale =>
    match Number.BinaryFormat.binary32.parse? text with
    | some bits => .ok { o with scale := Float32.ofBits (UInt32.ofNat bits) }
    | none => .error .badValue
  | .speed =>
    match Number.BinaryFormat.binary64.parse? text with
    | some bits => .ok { o with speed := Float.ofBits (UInt64.ofNat bits) }
    | none => .error .badValue
  | .frames =>
    match Number.unsigned? cs with
    | some n => if n < frameLimit then .ok { o with frames := n } else .error .badValue
    | none => .error .badValue
  | .sampleRate =>
    match Number.integer? cs with
    | some n =>
      if 0 ≤ n ∧ n < rateLimit then .ok { o with sampleRate := n.toNat } else .error .badValue
    | none => .error .badValue
  | .pal => .ok { o with pal := true }
  | .headless => .ok { o with headless := true }
  | .help => .error .helpRequested

end Options

/-- A command line that has been read in part. -/
structure CommandReading where
  options : Options := {}
  /-- What has been set. -/
  given : List OptionKey := []
  /-- An option or file name whose value has not been looked at, and that value if it is there. -/
  pending : Option (OptionKey × Option String) := none

namespace CommandReading

/-- Sets an option. -/
def set (r : CommandReading) (key : OptionKey) (text : String) :
    Except OptionError CommandReading :=
  if key ∈ r.given then .error .repeated
  else (r.options.assign key text).map fun options ↦ { r with options, given := key :: r.given }

/-- Looks at the value that is waiting. -/
def settle (r : CommandReading) : Except OptionError CommandReading :=
  match r.pending with
  | none => .ok r
  | some (_, none) => .error .missingValue
  | some (key, some text) => { r with pending := none }.set key text

/-- An option with the value attached to it, if any. -/
def option (r : CommandReading) (key : OptionKey) (value : Option String) :
    Except OptionError CommandReading :=
  if key.isSwitch then
    match value with
    | some _ => .error .unexpectedValue
    | none => do (← r.settle).set key ""
  else do
    let r ← r.settle
    match value with
    | some text => r.set key text
    | none => .ok { r with pending := some (key, none) }

/-- The value attached to a letter: what follows it, without an equals sign in front. -/
def attachedTo (rest : List Char) : Option String :=
  match rest with
  | [] => none
  | '=' :: value => some (String.ofList value)
  | value => some (String.ofList value)

/-- A file name, of which there can be one. -/
def fileName (r : CommandReading) (text : String) : Except OptionError CommandReading :=
  if OptionKey.rom ∈ r.given ∨ (r.pending.map Prod.fst) = some .rom then .error .unknownArgument
  else do
    let r ← r.settle
    .ok { r with pending := some (.rom, some text) }

/-- A word before two dashes alone. -/
def word (r : CommandReading) (text : String) : Except OptionError CommandReading :=
  match CommandWord.ofText text with
  | .long name value =>
    match OptionKey.ofName? name with
    | some key => r.option key value
    | none => .error .unknownArgument
  | .short letter rest =>
    match OptionKey.ofLetter? letter with
    | some key => if key.isSwitch then r.option key none else r.option key (attachedTo rest)
    | none => .error .unknownArgument
  | .plain text =>
    match r.pending with
    | some (key, none) => .ok { r with pending := some (key, some text) }
    | _ => r.fileName text

/-- The words of a command line; `literal` after two dashes alone. -/
def words (literal : Bool) : List String → CommandReading → Except OptionError CommandReading
  | [], r => r.settle
  | text :: rest, r =>
    if literal then do words true rest (← r.fileName text)
    else if text = "--" then words true rest r
    else do words false rest (← r.word text)

end CommandReading

/-- Reads a command line. -/
def Options.parse (words : List String) : Except OptionError Options :=
  (CommandReading.words false words {}).map (·.options)

end Famicom
