import Chip8.Session.Basic
import Chip8.Text.Quoted

/-!
# Options of the command line

The options, what they are called and what they set, and the texts of the help and of usage errors.
-/

namespace Chip8.CommandLine

inductive Flag where
  | help
  | scale
  | clock
  | timerRate
  | layout
  | seed
  | paused
  | verbose
  deriving DecidableEq, Repr

namespace Flag

def all : List Flag :=
  [.help, .scale, .clock, .timerRate, .layout, .seed, .paused, .verbose]

def names : Flag → List String
  | .help => ["-h", "--help"]
  | .scale => ["--scale"]
  | .clock => ["--clock"]
  | .timerRate => ["--timer-rate"]
  | .layout => ["--layout"]
  | .seed => ["--seed"]
  | .paused => ["--paused"]
  | .verbose => ["-v", "--verbose"]

def label (f : Flag) : String :=
  "/".intercalate f.names

def takesValue : Flag → Bool
  | .scale | .clock | .timerRate | .layout | .seed => true
  | .help | .paused | .verbose => false

def named : List (String × Flag) :=
  all.flatMap fun flag => flag.names.map fun name => (name, flag)

def ofName? (name : String) : Option Flag :=
  (named.find? fun entry => entry.1 = name).map (·.2)

/-- The option whose name is a dash and the letter `c`. -/
def ofLetter? (c : Char) : Option Flag :=
  ofName? (String.ofList ['-', c])

end Flag

/-- What an option was set to. A value that is just two dashes is dropped, and the option is left
without one. -/
inductive Setting (α : Type) where
  | value (a : α)
  | dropped
  deriving DecidableEq, Repr

inductive NeededSetting where
  | seed
  | clock
  | timerRate
  | scale
  deriving DecidableEq, Repr

def NeededSetting.missingMessage : NeededSetting → String
  | .seed => "The only supported seed types are: None,\nint, float, str, bytes, and bytearray."
  | .clock | .timerRate => "can only concatenate list (not \"int\") to list"
  | .scale => "int() argument must be a string, a bytes-like object or a real number, not 'list'"

def Setting.need {α : Type} (needed : NeededSetting) : Setting α → Except NeededSetting α
  | .value a => .ok a
  | .dropped => .error needed

structure Options where
  rom : String
  scale : Setting Int := .value 10
  clock : Setting Int := .value defaultClockRate
  timerRate : Setting Int := .value defaultTimerRate
  layout : Option (Setting String) := none
  seed : Option (Setting Int) := none
  paused : Bool := false
  verbose : Bool := false
  deriving DecidableEq, Repr

inductive UsageError where
  | missingProgram
  | unrecognized (words : List String)
  | missingValue (flag : Flag)
  | invalidInteger (flag : Flag) (text : String)
  | ambiguous (text : String) (names : List String)
  | unexpectedValue (flag : Flag) (text : String)
  deriving DecidableEq, Repr

def UsageError.message : UsageError → String
  | .missingProgram => "the following arguments are required: rom"
  | .unrecognized words => "unrecognized arguments: " ++ " ".intercalate words
  | .missingValue flag => s!"argument {flag.label}: expected one argument"
  | .invalidInteger flag text => s!"argument {flag.label}: invalid int value: " ++ Text.quoted text
  | .ambiguous text names => s!"ambiguous option: {text} could match " ++ ", ".intercalate names
  | .unexpectedValue flag text =>
      s!"argument {flag.label}: ignored explicit argument " ++ Text.quoted text

inductive Halt where
  | help
  | usage (error : UsageError)
  deriving DecidableEq, Repr

def usageLines : List String :=
  ["usage: chip8vm [-h] [--scale SCALE] [--clock CLOCK] [--timer-rate TIMER_RATE]",
   "               [--layout LAYOUT] [--seed SEED] [--paused] [-v]",
   "               rom"]

def helpLines : List String :=
  usageLines ++
  ["",
   "CHIP-8 emulator",
   "",
   "positional arguments:",
   "  rom                   Path to CHIP-8 ROM",
   "",
   "options:",
   "  -h, --help            show this help message and exit",
   "  --scale SCALE         Pixel scale factor (default 10)",
   "  --clock CLOCK         CPU clock in Hz, 200-1000 (default 700)",
   "  --timer-rate TIMER_RATE",
   "                        Timer rate in Hz, 20-80 (default 60)",
   "  --layout LAYOUT       Keyboard layout file (default: ROM path + '.kb')",
   "  --seed SEED           Seed for the random number instruction",
   "  --paused              Start paused (Space resumes)",
   "  -v, --verbose         Enable debug logging"]

def joinLines (lines : List String) : String :=
  String.join (lines.map fun line => line ++ "\n")

namespace Halt

def code : Halt → Nat
  | .help => 0
  | .usage _ => 2

def output : Halt → String
  | .help => joinLines helpLines
  | .usage _ => ""

def errorOutput : Halt → String
  | .help => ""
  | .usage error => joinLines (usageLines ++ ["chip8vm: error: " ++ error.message])

end Halt

end Chip8.CommandLine
