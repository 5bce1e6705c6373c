import Chip8.KeyMap.Basic
import Chip8.Text.Integer
import Chip8.Text.Quoted

/-!
# Keyboard layouts

A layout is a list of lines. A line with two integers gives a key of the machine its host key, a blank
line says nothing, and a line that contains the sentinel makes the map raw and ends the layout.
-/

namespace Chip8.KeyMap.Layout

def sentinel : List Char :=
  "TREATASASCII".toList

def containsRun (run : List Char) : List Char → Bool
  | [] => run.isEmpty
  | c :: rest => run.isPrefixOf (c :: rest) || containsRun run rest

inductive Line where
  | sentinel
  | blank
  | entry (key : Nibble) (host : Int)
  deriving DecidableEq, Repr

inductive Problem where
  | fieldCount
  | notIntegers
  | keyOutOfRange (key : Int)
  deriving DecidableEq, Repr

structure Error where
  /-- The number of the line, counted from 1. -/
  number : Nat
  text : String
  problem : Problem
  deriving DecidableEq, Repr

def Error.message (e : Error) : String :=
  s!"line {e.number}: " ++
    match e.problem with
    | .fieldCount => "expected two fields, got " ++ Text.quoted e.text
    | .notIntegers => "not a pair of integers: " ++ Text.quoted e.text
    | .keyOutOfRange key => s!"CHIP-8 key {key} out of range 0-15"

def readPair (key host : List Char) : Except Problem Line :=
  match Text.Integer.read? key, Text.Integer.read? host with
  | some key, some host =>
      if h : 0 ≤ key ∧ key < 16 then .ok (.entry ⟨key.toNat, by omega⟩ host)
      else .error (.keyOutOfRange key)
  | _, _ => .error .notIntegers

def readLine (text : String) : Except Problem Line :=
  if containsRun sentinel text.toList then .ok .sentinel
  else
    match Text.fields text.toList with
    | [] => .ok .blank
    | [key, host] => readPair key host
    | _ => .error .fieldCount

/-- Reads the lines from number `number` on, with the entries of the lines before in `table`. -/
def parseFrom (number : Nat) (table : Vector Int 16) : List String → Except Error KeyMap
  | [] => .ok { table }
  | text :: rest =>
      match readLine text with
      | .error problem => .error { number, text, problem }
      | .ok .sentinel => .ok { table, raw := true }
      | .ok .blank => parseFrom (number + 1) table rest
      | .ok (.entry key host) => parseFrom (number + 1) (table.set key host) rest

def parse (lines : List String) : Except Error KeyMap :=
  parseFrom 1 defaultTable lines

end Chip8.KeyMap.Layout
