/-!
# Arguments

A command line is words: flags, options with a value, and free words. An option takes its value
from the same word after `=`, or from the next word, which then must not begin with a hyphen. After
`--` every word is free.
-/

namespace Backtest.CommandLine

/-- What an option looks like. -/
inductive OptionShape where
  | flag
  | single
  /-- May be given more than once. -/
  | repeated
  deriving Repr, DecidableEq

/-- The options that a command knows. -/
abbrev OptionTable := List (String × OptionShape)

/-- Options as given, in order, and the free words. -/
structure Arguments where
  options : List (String × String)
  free : List String
  deriving Repr

namespace Arguments

def empty : Arguments := ⟨[], []⟩

def contains (a : Arguments) (name : String) : Bool :=
  a.options.any fun o => o.1 == name

def value? (a : Arguments) (name : String) : Option String :=
  (a.options.find? fun o => o.1 == name).map (·.2)

def values (a : Arguments) (name : String) : List String :=
  (a.options.filter fun o => o.1 == name).map (·.2)

/-- Adds an option, unless it is there already and must not be repeated. -/
def add? (a : Arguments) (name value : String) (shape : OptionShape) : Option Arguments :=
  if shape ≠ .repeated ∧ a.contains name then none
  else some { a with options := a.options ++ [(name, value)] }

/-- A word that can be a value of its own. -/
def isPlain (word : String) : Bool := word = "-" || !word.startsWith "-"

/-- The name of a long option without its hyphens, and the value after `=`. -/
def long? (word : String) : Option (String × Option String) :=
  if word.startsWith "--" then
    let body := word.toList.drop 2
    let name := String.ofList (body.takeWhile (· ≠ '='))
    match body.dropWhile (· ≠ '=') with
    | [] => some (name, none)
    | _ :: value => some (name, some (String.ofList value))
  else none

/-- Reads words up to the first free one, which is left over. -/
def options? (table : OptionTable) : List String → Arguments → Option (Arguments × List String)
  | [], a => some (a, [])
  | word :: rest, a =>
    if isPlain word ∨ word = "--" then some (a, word :: rest)
    else
      match long? word with
      | none => none
      | some (name, value) =>
        match table.lookup name, value, rest with
        | some .flag, none, rest => (a.add? name "" .flag).bind (options? table rest)
        | some shape, some value, rest =>
          if shape = .flag then none else (a.add? name value shape).bind (options? table rest)
        | some shape, none, value :: rest =>
          if isPlain value then (a.add? name value shape).bind (options? table rest) else none
        | _, _, _ => none

/-- Reads all words, free ones among them. -/
def all? (table : OptionTable) : (fuel : Nat) → List String → Arguments → Option Arguments
  | 0, _, _ => none
  | fuel + 1, words, a =>
    match options? table words a with
    | none => none
    | some (a, []) => some a
    | some (a, word :: rest) =>
      if word = "--" then some { a with free := a.free ++ rest }
      else all? table fuel rest { a with free := a.free ++ [word] }

/-- Reads the words of a command. -/
def ofWords? (table : OptionTable) (words : List String) : Option Arguments :=
  all? table (words.length + 1) words empty

end Arguments

end Backtest.CommandLine
