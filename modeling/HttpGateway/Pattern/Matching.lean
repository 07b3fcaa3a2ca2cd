import HttpGateway.Pattern.Regex
import HttpGateway.Pattern.Visit

/-!
# Matching a path

A path matches a pattern when, after an optional leading `/`, it starts with an instance of the
pattern's core that ends at a border: a `/`, which is consumed, or the end of the path. Of several
ways to match, the first counts when choices are compared from left to right: the leading `/` is
consumed rather than not, an optional is present rather than absent, and a capture or wildcard takes
a longer text rather than a shorter one.

The matcher fills a table from the end of the pattern to its start, with one entry for each place of
the path: the way to match what is left of the pattern from there, if there is one. Its work is
bounded by the size of the pattern times the length of the path.
-/

namespace HttpGateway

namespace Pattern

open Text

/-- How the rest of a pattern matches at a place of the path. -/
structure Finish where
  /-- The texts of the captures that took part, in order. -/
  captured : List (String × List Char)
  /-- The path after the border. -/
  suffix : List Char
deriving DecidableEq

/-- For each place of a path, from its start to its end, a way to match from there. -/
abbrev Table (α : Type) := List (Option α)

namespace Table

variable {α : Type}

def first : Table α → Option α
  | [] => none
  | entry :: _ => entry

def rest (table : Table α) : Table α := List.tail table

/-- At each place the first table's way, else the second's. -/
def orElse (table other : Table α) : Table α := List.zipWith Option.or table other

end Table

/-- The border: a `/` or the end of the path. -/
def borderTable : List Char → Table Finish
  | [] => [some ⟨[], []⟩]
  | c :: cs => (if c = '/' then some ⟨[], cs⟩ else none) :: borderTable cs

/-- A literal text at the start of a path, up to case, then the entry of the table where it ends. -/
def afterLiteral : List Char → List Char → Table Finish → Option Finish
  | [], _, after => after.first
  | l :: ls, c :: cs, _ :: after => if sameLetter l c then afterLiteral ls cs after else none
  | _ :: _, _, _ => none

def literalTable (text : List Char) : List Char → Table Finish → Table Finish
  | [], after => [afterLiteral text [] after]
  | c :: cs, after => afterLiteral text (c :: cs) after :: literalTable text cs after.rest

def separatorTable : List Char → Table Finish → Table Finish
  | [], _ => [none]
  | c :: cs, after =>
    (if c = '/' then after.rest.first else none) :: separatorTable cs after.rest

/-- One or more characters of a segment, as many as possible, then what the table says; with the
text taken. -/
def segmentTable : List Char → Table Finish → Table (List Char × Finish)
  | [], _ => [none]
  | c :: cs, after =>
    let later := segmentTable cs after.rest
    let here :=
      if c = '/' then none
      else match later.first with
        | some (taken, finish) => some (c :: taken, finish)
        | none => after.rest.first.map fun finish => ([c], finish)
    here :: later

/-- Note the text of a capture before the others. -/
def Finish.note (name : String) (taken : List Char) (finish : Finish) : Finish :=
  { finish with captured := (name, taken) :: finish.captured }

mutual

/-- The pattern, then what the table says. -/
def table (path : List Char) : Pattern → Table Finish → Table Finish
  | .literal text, after => literalTable text.toList path after
  | .separator, after => separatorTable path after
  | .capture name, after =>
    (segmentTable path after).map (·.map fun (taken, finish) => finish.note name taken)
  | .wildcard, after => (segmentTable path after).map (·.map fun (_, finish) => finish)
  | .optional child, after => (table path child after).orElse after
  | .sequence children, after => tableAll path children after

def tableAll (path : List Char) : List Pattern → Table Finish → Table Finish
  | [], after => after
  | pattern :: patterns, after => table path pattern (tableAll path patterns after)

end

/-- The way the items match a path, its leading `/` consumed if possible. -/
def find (items : List Pattern) (path : List Char) : Option Finish :=
  let table := tableAll path items (borderTable path)
  match path with
  | '/' :: _ => table.rest.first.or table.first
  | _ => table.first

end Pattern

structure MatchedPath where
  /-- The text of each capture of the pattern, empty for one that took no part. -/
  captured : List (String × String)
  /-- The path after the border. -/
  suffix : String
deriving DecidableEq

structure Matcher where
  core : List Pattern
  /-- The names of the captures, in order. -/
  names : List String

namespace Matcher

open Pattern

/-- The matcher of a pattern, unless two captures share a name or a limit is exceeded. -/
def compile (pattern : Pattern) : Except MatcherFault Matcher :=
  let core := pattern.core
  let names := pattern.captureNames
  if ¬names.Nodup then .error .repeatedName
  else if nesting core > nestingLimit then .error .nestingTooDeep
  else if footprint core > sizeLimit then .error .tooLarge
  else .ok ⟨core, names⟩

def regex (matcher : Matcher) : String := regexText matcher.core

def match? (matcher : Matcher) (path : String) : Option MatchedPath :=
  (find matcher.core path.toList).map fun finish =>
    { captured := matcher.names.map fun name =>
        (name, String.ofList ((finish.captured.lookup name).getD []))
      suffix := String.ofList finish.suffix }

end Matcher

end HttpGateway
