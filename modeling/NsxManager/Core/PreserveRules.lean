import NsxManager.Core.Text
import NsxManager.Lib.Lists

/-! What a user asked to keep across an installation: the patterns of `preserve.txt`. -/

namespace NsxManager.Core

def lower (c : UInt8) : UInt8 := if byte 'A' ≤ c && c ≤ byte 'Z' then c + 32 else c

def isBlank (c : UInt8) : Bool := c == byte ' ' || c == byte '\t'

def trim (text : Bytes) : Bytes :=
  (text.dropWhile isBlank).rdropWhile (fun c => isBlank c || c == byte '\r')

/-- The accumulator is `lastWasSlash`. -/
def normaliseFrom : Bool → Bytes → Bytes
  | _, [] => []
  | lastWasSlash, c :: rest =>
    if c == byte '/' then
      if lastWasSlash then normaliseFrom true rest else c :: normaliseFrom true rest
    else c :: normaliseFrom false rest

def normalise (pattern : Bytes) : Bytes := normaliseFrom true pattern

def components (path : Bytes) : List Bytes := (List.splitOn (byte '/') path).filter (fun piece => !piece.isEmpty)

structure GlobState where
  p : ℕ
  s : ℕ
  star : Option ℕ
  starText : ℕ

/-- The `while` loop of `matchComponent`; every round moves the backtrack point or one of the two
cursors forward. -/
def globLoop (pattern text : Bytes) : ℕ → GlobState → Option ℕ
  | 0, _ => none
  | rounds + 1, g =>
    if text.length ≤ g.s then some g.p
    else if g.p < pattern.length &&
        (pattern.getD g.p 0 == byte '?' || lower (pattern.getD g.p 0) == lower (text.getD g.s 0)) then
      globLoop pattern text rounds { g with p := g.p + 1, s := g.s + 1 }
    else if g.p < pattern.length && pattern.getD g.p 0 == byte '*' then
      globLoop pattern text rounds { g with star := some g.p, p := g.p + 1, starText := g.s }
    else
      match g.star with
      | some star =>
        globLoop pattern text rounds { g with p := star + 1, starText := g.starText + 1, s := g.starText + 1 }
      | none => none

def matchComponent (pattern text : Bytes) : Bool :=
  match globLoop pattern text ((text.length + 1) * (pattern.length + 2) + 1) ⟨0, 0, none, 0⟩ with
  | some p => (pattern.drop p).all (fun c => c == byte '*')
  | none => false

def nextReachable (path : List Bytes) (reachable : List Bool) (component : Bytes) : List Bool :=
  if component = ascii "**" then (reachable.scanl (fun carry r => carry || r) false).tail
  else false :: List.zipWith (fun r piece => r && matchComponent component piece) reachable path

def matchAll (pattern path : List Bytes) : Bool :=
  ((pattern.foldl (nextReachable path) (true :: path.map (fun _ => false))).getLast?).getD false

def globMatch (pattern path : Bytes) : Bool := matchAll (components pattern) (components path)

structure PreserveRule where
  pattern : Bytes
  negated : Bool
  directory : Bool
  line : ℕ
  deriving DecidableEq

structure PreserveRules where
  rules : List PreserveRule := []
  warnings : List Bytes := []
  deriving DecidableEq

namespace PreserveRules

def warn (out : PreserveRules) (lineNumber : ℕ) (problem : Bytes) : PreserveRules :=
  { out with warnings := out.warnings ++ [ascii "line " ++ decimal lineNumber ++ ascii ": " ++ problem] }

def addPattern (out : PreserveRules) (lineNumber : ℕ) (negated : Bool) (line : Bytes) : PreserveRules :=
  let directory := line.getLast? == some (byte '/')
  let pattern := normalise (if directory then line.dropLast else line)
  if pattern.isEmpty then out.warn lineNumber (ascii "empty pattern - ignored")
  else if contains pattern (ascii "..") then
    out.warn lineNumber (ascii "'..' is not allowed in a preserve pattern - ignored")
  else { out with rules := out.rules ++ [⟨pattern, negated, directory, lineNumber⟩] }

def addLine (out : PreserveRules) (lineNumber : ℕ) (line : Bytes) : PreserveRules :=
  match trim line with
  | [] => out
  | c :: rest =>
    if c == byte '#' then out
    else if c == byte '!' then
      if (trim rest).isEmpty then out.warn lineNumber (ascii "'!' with no pattern - ignored")
      else out.addPattern lineNumber true (trim rest)
    else out.addPattern lineNumber false (c :: rest)

/-- A text that ends in a newline has no further line after it. -/
def lines (text : Bytes) : List Bytes :=
  if text.getLast? = some (byte '\n') then (List.splitOn (byte '\n') text).dropLast
  else List.splitOn (byte '\n') text

def parse (text : Bytes) : PreserveRules :=
  (lines text).zipIdx.foldl (fun out line => out.addLine (line.2 + 1) line.1) {}

def defaults : PreserveRules :=
  parse (ascii "# Defaults applied when no preserve.txt exists.\nbootloader/hekate_ipl.ini\nbootloader/ini/\n" ++
    ascii "emuMMC/emummc.ini\n")

/-- With or without its slash, a directory covers everything below it. -/
def hits (rule : PreserveRule) (path : Bytes) : Bool :=
  globMatch rule.pattern path || globMatch (rule.pattern ++ ascii "/**") path

def preserves (rules : PreserveRules) (path : Bytes) : Bool :=
  rules.rules.foldl (fun preserved rule => if hits rule (normalise path) then !rule.negated else preserved)
    false

end PreserveRules

end NsxManager.Core
