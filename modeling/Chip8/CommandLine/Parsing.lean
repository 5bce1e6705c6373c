import Chip8.CommandLine.Options
import Chip8.Text.Integer

/-!
# Reading the command line

Every word is first told apart as an operand, an option or the separator `--`, after which all words
are operands. Then the words are consumed in order. A long option may be cut short as long as it
remains the only one with that beginning; letters may follow a dash together.
-/

namespace Chip8.CommandLine

inductive Word where
  | operand (text : String)
  | separator
  /-- An option with the value attached to it, if any; `clustered` if it is a dash and letters. -/
  | option (text : String) (flag : Flag) (clustered : Bool) (attached : Option String)
  | unknown (text : String)
  deriving DecidableEq, Repr

namespace Word

def text : Word → String
  | .operand text => text
  | .separator => "--"
  | .option text _ _ _ => text
  | .unknown text => text

def isOption : Word → Bool
  | .option _ _ _ _ => true
  | .unknown _ => true
  | _ => false

end Word

/-- The text before and after the first equals sign. -/
def splitValue (cs : List Char) : List Char × Option (List Char) :=
  match cs.dropWhile (· != '=') with
  | [] => (cs, none)
  | _ :: value => (cs.takeWhile (· != '='), some value)

def dropFinalNewline (cs : List Char) : List Char :=
  if cs.getLast? = some '\n' then cs.dropLast else cs

/-- Whether the characters after a dash make it a negative number, which is an operand. -/
def isNumber (cs : List Char) : Bool :=
  let body := dropFinalNewline cs
  let whole := body.takeWhile Text.isDigit
  match body.dropWhile Text.isDigit with
  | [] => !whole.isEmpty
  | c :: decimals => c == '.' && !decimals.isEmpty && decimals.all Text.isDigit

/-- The options that a word starting with two dashes may be short for. -/
def longCandidates (cs : List Char) : List (String × Word) :=
  let (name, value) := splitValue cs
  (Flag.named.filter fun entry => name.isPrefixOf entry.1.toList).map fun entry =>
    (entry.1, .option (String.ofList cs) entry.2 false (value.map String.ofList))

/-- The options that a word starting with one dash and the letter `c` may stand for. -/
def shortCandidates (c : Char) (rest : List Char) : List (String × Word) :=
  let text := String.ofList ('-' :: c :: rest)
  Flag.named.filterMap fun (name, flag) =>
    if name = String.ofList ['-', c] then
      some (name, .option text flag true (some (String.ofList rest)))
    else if ('-' :: c :: rest).isPrefixOf name.toList then some (name, .option text flag false none)
    else none

def exactOption? (cs : List Char) : Option Word :=
  let clustered := cs[1]? != some '-'
  match Flag.ofName? (String.ofList cs) with
  | some flag => some (.option (String.ofList cs) flag clustered none)
  | none =>
      match splitValue cs with
      | (_, none) => none
      | (name, some value) =>
          (Flag.ofName? (String.ofList name)).map fun flag =>
            .option (String.ofList cs) flag clustered (some (String.ofList value))

def classify (text : String) : Except UsageError Word :=
  match text.toList with
  | '-' :: c :: rest =>
      match exactOption? ('-' :: c :: rest) with
      | some word => .ok word
      | none =>
          let candidates :=
            if c = '-' then longCandidates ('-' :: c :: rest) else shortCandidates c rest
          match candidates with
          | [candidate] => .ok candidate.2
          | _ :: _ :: _ => .error (.ambiguous text (candidates.map (·.1)))
          | [] =>
              if isNumber (c :: rest) || text.contains ' ' then .ok (.operand text)
              else .ok (.unknown text)
  | _ => .ok (.operand text)

def scan : List String → Except UsageError (List Word)
  | [] => .ok []
  | text :: rest =>
      if text = "--" then .ok (.separator :: rest.map .operand)
      else do
        let word ← classify text
        let words ← scan rest
        return word :: words

/-! ## Consuming the words -/

structure State where
  rom : Option String := none
  /-- The words that nothing consumes. -/
  extras : List String := []
  options : Options := { rom := "" }

def State.addExtras (s : State) (words : List String) : State :=
  { s with extras := s.extras ++ words }

def integerValue (flag : Flag) (text : String) : Except UsageError (Setting Int) :=
  if text = "--" then .ok .dropped
  else
    match Text.Integer.read? text.toList with
    | some i => .ok (.value i)
    | none => .error (.invalidInteger flag text)

def assign (options : Options) (flag : Flag) (text : String) : Except UsageError Options := do
  match flag with
  | .scale => return { options with scale := ← integerValue flag text }
  | .clock => return { options with clock := ← integerValue flag text }
  | .timerRate => return { options with timerRate := ← integerValue flag text }
  | .seed => return { options with seed := some (← integerValue flag text) }
  | .layout => return { options with layout := some (if text = "--" then .dropped else .value text) }
  | .help | .paused | .verbose => return options

def raise (options : Options) : Flag → Except Halt Options
  | .help => .error .help
  | .paused => .ok { options with paused := true }
  | .verbose => .ok { options with verbose := true }
  | .scale | .clock | .timerRate | .layout | .seed => .ok options

/-- The options of a cluster that starts with `flag`, all of them without a value. -/
def cluster (flag : Flag) : List Char → Except UsageError (List Flag)
  | [] => .ok [flag]
  | c :: rest =>
      match Flag.ofLetter? c with
      | some next => (cluster next rest).map (flag :: ·)
      | none => .error (.unexpectedValue flag (String.ofList (c :: rest)))

def raised (flag : Flag) (clustered : Bool) (attached : Option String) :
    Except UsageError (List Flag) :=
  match attached with
  | none => .ok [flag]
  | some text =>
      if clustered && text != "" then cluster flag text.toList
      else .error (.unexpectedValue flag text)

/-- The words after the last option: the first operand is the program if none was given before, and
a separator next to it counts with it. -/
def consumeOperands (s : State) (words : List Word) : State :=
  match s.rom, words with
  | none, .operand rom :: .separator :: rest => { s with rom }.addExtras (rest.map Word.text)
  | none, .operand rom :: rest => { s with rom }.addExtras (rest.map Word.text)
  | none, .separator :: .operand rom :: rest => { s with rom }.addExtras (rest.map Word.text)
  | _, words => s.addExtras (words.map Word.text)

/-- Consumes the words in order; `pending` is an option that still needs its value. -/
def consume (s : State) (pending : Option Flag) : List Word → Except Halt State
  | [] =>
      match pending with
      | some flag => .error (.usage (.missingValue flag))
      | none => .ok s
  | word :: rest =>
      match pending, word with
      | some flag, .operand text => do
          let options ← (assign s.options flag text).mapError .usage
          consume { s with options } none rest
      | some flag, _ => .error (.usage (.missingValue flag))
      | none, .option _ flag clustered attached => do
          if flag.takesValue then
            match attached with
            | none => consume s (some flag) rest
            | some text =>
                let options ← (assign s.options flag text).mapError .usage
                consume { s with options } none rest
          else
            let flags ← (raised flag clustered attached).mapError .usage
            let options ← flags.foldlM raise s.options
            consume { s with options } none rest
      | none, .unknown text => consume (s.addExtras [text]) none rest
      | none, .separator => .ok (consumeOperands s (word :: rest))
      | none, .operand text =>
          if rest.any Word.isOption then
            match s.rom with
            | none => consume { s with rom := text } none rest
            | some _ => consume (s.addExtras [text]) none rest
          else .ok (consumeOperands s (word :: rest))

def parse (arguments : List String) : Except Halt Options := do
  let words ← (scan arguments).mapError .usage
  let s ← consume {} none words
  match s.rom with
  | none => throw (.usage .missingProgram)
  | some rom =>
      if s.extras.isEmpty then return { s.options with rom }
      else throw (.usage (.unrecognized s.extras))

end Chip8.CommandLine
