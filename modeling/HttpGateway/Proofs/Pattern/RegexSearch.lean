import HttpGateway.Proofs.Pattern.Splits
import HttpGateway.Proofs.Text.LetterCase

/-!
# Searching a path for the regular expression

The regular expressions that are written for patterns are made of a few kinds of items (`Regex`). An
item matches at a place of a text in several ways, which `Regex.runs` lists as a search with
backtracking tries them: an optional item is taken rather than not, a segment is as long as
possible, and of two alternatives the first comes first. A search finds the first way at the first
place that has one (`Regex.search`).

The ways of a pattern are its instances (`runsAll_ofPattern`), and those of the whole expression, at
the start of a path, are the splits of the path (`runsAll_ofCore`). Elsewhere it does not match. So
the table of a matcher answers what a search for the expression finds, and that is the expression
which is written (`Matcher.match?_eq_search`).
-/

namespace HttpGateway

open Text

/-! ## Expressions -/

/-- An item of a regular expression. Letters match in any case. -/
inductive Regex where
  /-- `\A`, the start of the text. -/
  | start
  /-- `\z`, the end of the text. -/
  | stop
  | char (c : Char)
  /-- `[^/]+`, as long as possible. -/
  | segment
  /-- `c?`, taken if possible. -/
  | optionalChar (c : Char)
  /-- `(?:…)?`, taken if possible. -/
  | optional (items : List Regex)
  /-- `(?P<name>…)` -/
  | capture (name : String) (items : List Regex)
  /-- `(?:…|…)`, the first if possible. -/
  | either (first second : List Regex)

namespace Regex

mutual

/-- An item as it is written. -/
def text : Regex → List Char
  | .start => ['\\', 'A']
  | .stop => ['\\', 'z']
  | .char c => Pattern.regexChar c
  | .segment => Pattern.regexSegment
  | .optionalChar c => Pattern.regexChar c ++ ['?']
  | .optional items => ['(', '?', ':'] ++ textAll items ++ [')', '?']
  | .capture name items =>
    ['(', '?', 'P', '<'] ++ name.toList ++ '>' :: textAll items ++ [')']
  | .either first second =>
    ['(', '?', ':'] ++ textAll first ++ '|' :: textAll second ++ [')']

/-- Items one after the other as they are written. -/
def textAll : List Regex → List Char
  | [] => []
  | item :: items => text item ++ textAll items

end

theorem textAll_append (items more : List Regex) :
    textAll (items ++ more) = textAll items ++ textAll more := by
  induction items with
  | nil => rfl
  | cons item items ih => rw [List.cons_append, textAll, textAll, ih, List.append_assoc]

theorem textAll_map_char (cs : List Char) :
    textAll (cs.map char) = cs.flatMap Pattern.regexChar := by
  induction cs with
  | nil => rfl
  | cons c cs ih => rw [List.map_cons, textAll, ih, List.flatMap_cons, text]

/-! ## Searching -/

/-- A way in which items match at a place: the text that they take, the texts of the captures in it,
and what is left of the text. -/
structure Run where
  taken : List Char
  captured : List (String × List Char)
  rest : List Char

namespace Run

/-- The way that takes nothing. -/
def nothing (cs : List Char) : Run := ⟨[], [], cs⟩

/-- One way after another. -/
def append (run later : Run) : Run :=
  ⟨run.taken ++ later.taken, run.captured ++ later.captured, later.rest⟩

theorem nothing_append (cs : List Char) : (nothing cs).append = id := rfl

theorem append_nothing (run : Run) : run.append (nothing run.rest) = run := by
  simp [append, nothing]

theorem append_comp (run later : Run) : run.append ∘ later.append = (run.append later).append := by
  funext last
  simp [append]

end Run

/-- A character, in any case. -/
def charRuns (c : Char) : List Char → List Run
  | [] => []
  | d :: cs => if sameLetter c d then [⟨[d], [], cs⟩] else []

/-- One or more characters other than `/`, the most first. -/
def segmentRuns : List Char → List Run
  | [] => []
  | c :: cs =>
    if sameLetter '/' c then []
    else (segmentRuns cs).map (Run.append ⟨[c], [], cs⟩) ++ [⟨[c], [], cs⟩]

mutual

/-- The ways in which an item matches where `before` comes before the place and a text after it, in
the order in which they are tried. -/
def runs : Regex → List Char → List Char → List Run
  | .start, before, cs => if before = [] then [.nothing cs] else []
  | .stop, _, cs => if cs = [] then [.nothing cs] else []
  | .char c, _, cs => charRuns c cs
  | .segment, _, cs => segmentRuns cs
  | .optionalChar c, _, cs => charRuns c cs ++ [.nothing cs]
  | .optional items, before, cs => runsAll items before cs ++ [.nothing cs]
  | .capture name items, before, cs =>
    (runsAll items before cs).map fun run =>
      { run with captured := (name, run.taken) :: run.captured }
  | .either first second, before, cs => runsAll first before cs ++ runsAll second before cs

/-- The ways in which items match one after the other. -/
def runsAll : List Regex → List Char → List Char → List Run
  | [], _, cs => [.nothing cs]
  | item :: items, before, cs =>
    (runs item before cs).flatMap fun run =>
      (runsAll items (before ++ run.taken) run.rest).map run.append

end

/-- The first way at the first place, from where `before` comes before it, that has one. -/
def searchFrom (items : List Regex) : List Char → List Char → Option Run
  | before, [] => (runsAll items before []).head?
  | before, c :: cs =>
    (runsAll items before (c :: cs)).head?.or (searchFrom items (before ++ [c]) cs)

/-- What a search of a text finds. -/
def search (items : List Regex) (text : List Char) : Option Run := searchFrom items [] text

variable {before cs : List Char}

theorem runsAll_singleton (item : Regex) : runsAll [item] before cs = runs item before cs := by
  simp [runsAll, Run.append_nothing]

theorem runsAll_append (items more : List Regex) (before cs : List Char) :
    runsAll (items ++ more) before cs =
      (runsAll items before cs).flatMap fun run =>
        (runsAll more (before ++ run.taken) run.rest).map run.append := by
  induction items generalizing before cs with
  | nil =>
    rw [List.nil_append, runsAll, List.flatMap_singleton, Run.nothing_append, List.map_id,
      Run.nothing, List.append_nil]
  | cons item items ih =>
    rw [List.cons_append, runsAll, runsAll, List.flatMap_assoc]
    congr 1
    funext run
    rw [ih, List.map_flatMap, List.flatMap_map]
    congr 1
    funext later
    rw [List.map_map, Run.append_comp, List.append_assoc]
    rfl

/-! ## The expression of a pattern -/

mutual

/-- The items of a pattern, without its borders. -/
def ofPattern : Pattern → List Regex
  | .literal text => text.toList.map char
  | .separator => [char '/']
  | .capture name => [capture name [segment]]
  | .wildcard => [segment]
  | .optional child => [optional (ofPattern child)]
  | .sequence children => ofPatternAll children

/-- The items of patterns one after the other, without borders. -/
def ofPatternAll : List Pattern → List Regex
  | [] => []
  | pattern :: patterns => ofPattern pattern ++ ofPatternAll patterns

end

/-- The whole expression of a pattern with the given core. -/
def ofCore (core : List Pattern) : List Regex :=
  start :: optionalChar '/' :: ofPatternAll core ++ [either [char '/'] [stop]]

mutual

theorem textAll_ofPattern : ∀ p : Pattern, textAll (ofPattern p) = Pattern.regexBody p
  | .literal text => textAll_map_char text.toList
  | .separator => rfl
  | .capture name => by
    rw [ofPattern, textAll, textAll, text, textAll, textAll, text, List.append_nil,
      List.append_nil]
    rfl
  | .wildcard => rfl
  | .optional child => by
    rw [ofPattern, textAll, textAll, text, textAll_ofPattern child, List.append_nil]
    rfl
  | .sequence children => textAll_ofPatternAll children

theorem textAll_ofPatternAll : ∀ ps : List Pattern,
    textAll (ofPatternAll ps) = Pattern.regexBodyAll ps
  | [] => rfl
  | p :: ps => by
    rw [ofPatternAll, textAll_append, textAll_ofPattern p, textAll_ofPatternAll ps,
      Pattern.regexBodyAll]

end

/-- The whole expression is written as it is for a pattern. -/
theorem textAll_ofCore (core : List Pattern) :
    String.ofList (textAll (ofCore core)) = Pattern.regexText core := by
  have hfront : text start ++ text (optionalChar '/') = "\\A/?".toList := by decide
  have hback : textAll [either [char '/'] [stop]] = "(?:/|\\z)".toList := by decide
  have htext : textAll (ofCore core) = text start ++ text (optionalChar '/') ++
      Pattern.regexBodyAll core ++ textAll [either [char '/'] [stop]] := by
    rw [ofCore, List.cons_append, List.cons_append, textAll, textAll, textAll_append,
      textAll_ofPatternAll, ← List.append_assoc, ← List.append_assoc]
  rw [htext, hfront, hback]
  rfl

/-! ## The ways of a pattern are its instances -/

open Pattern

theorem charRuns_slash (c : Char) (cs : List Char) :
    charRuns '/' (c :: cs) = if c = '/' then [⟨['/'], [], cs⟩] else [] := by
  rw [charRuns]
  by_cases hc : c = '/'
  · rw [if_pos (sameLetter_slash_iff.2 hc), if_pos hc, hc]
  · rw [if_neg (mt sameLetter_slash_iff.1 hc), if_neg hc]

theorem runsAll_map_char (ls before cs : List Char) :
    runsAll (ls.map char) before cs =
      (literalText ls cs).toList.map fun (w, rest) => ⟨w, [], rest⟩ := by
  induction ls generalizing before cs with
  | nil => rfl
  | cons l ls ih =>
    rw [List.map_cons, runsAll, runs]
    cases cs with
    | nil => rfl
    | cons c cs =>
      rw [charRuns, literalText]
      split
      · rw [List.flatMap_singleton, ih]
        cases literalText ls cs <;> rfl
      · rfl

theorem segmentRuns_eq (cs : List Char) :
    segmentRuns cs = (segmentTexts cs).map fun (w, rest) => ⟨w, [], rest⟩ := by
  induction cs with
  | nil => rfl
  | cons c cs ih =>
    rw [segmentRuns, segmentTexts]
    by_cases hc : c = '/'
    · rw [if_pos (sameLetter_slash_iff.2 hc), if_pos hc]
      rfl
    · rw [if_neg (mt sameLetter_slash_iff.1 hc), if_neg hc, ih]
      simp [Run.append, Function.comp_def]

/-- The way that takes an instance of a pattern. -/
def Run.ofInstance (found : Instance × List Char) : Run :=
  ⟨found.1.text, found.1.captured, found.2⟩

mutual

/-- **A pattern matches as its instances stand at the start of a text**, in the same order. -/
theorem runsAll_ofPattern : ∀ (p : Pattern) (before cs : List Char),
    runsAll (ofPattern p) before cs = (instances p cs).map Run.ofInstance
  | .literal text, before, cs => by
    rw [ofPattern, runsAll_map_char, instances, List.map_map]
    rfl
  | .separator, before, cs => by
    rw [ofPattern, runsAll_singleton, runs]
    cases cs with
    | nil => rfl
    | cons c cs =>
      rw [charRuns_slash, instances]
      split <;> rfl
  | .capture name, before, cs => by
    rw [ofPattern, runsAll_singleton, runs, runsAll_singleton, runs, segmentRuns_eq, instances,
      List.map_map, List.map_map]
    rfl
  | .wildcard, before, cs => by
    rw [ofPattern, runsAll_singleton, runs, segmentRuns_eq, instances, List.map_map]
    rfl
  | .optional child, before, cs => by
    rw [ofPattern, runsAll_singleton, runs, runsAll_ofPattern child, instances, List.map_append,
      List.map_map]
    rfl
  | .sequence children, before, cs => runsAll_ofPatternAll children before cs

theorem runsAll_ofPatternAll : ∀ (ps : List Pattern) (before cs : List Char),
    runsAll (ofPatternAll ps) before cs = (instancesAll ps cs).map Run.ofInstance
  | [], before, cs => rfl
  | p :: ps, before, cs => by
    rw [ofPatternAll, runsAll_append, runsAll_ofPattern p, instancesAll, List.map_flatMap,
      List.flatMap_map]
    congr 1
    funext found
    rw [runsAll_ofPatternAll ps, List.map_map, List.map_map]
    rfl

end

/-! ## The ways of a whole expression are the splits -/

variable {core : List Pattern}

/-- The way that takes the pieces of a split. -/
def Run.ofSplit (split : Split) : Run :=
  ⟨split.lead ++ split.body.text ++ split.border, split.body.captured, split.suffix⟩

theorem runs_optionalChar_slash (before cs : List Char) :
    runs (optionalChar '/') before cs = (leads cs).map fun (lead, rest) => ⟨lead, [], rest⟩ := by
  rw [runs]
  cases cs with
  | nil => rfl
  | cons c cs =>
    rw [charRuns_slash, leads]
    split <;> rfl

theorem runs_border (before cs : List Char) :
    runs (either [char '/'] [stop]) before cs =
      (borderText cs).toList.map fun (border, suffix) => ⟨border, [], suffix⟩ := by
  rw [runs, runsAll_singleton, runsAll_singleton, runs, runs]
  cases cs with
  | nil => rfl
  | cons c cs =>
    rw [charRuns_slash, borderText]
    split <;> rfl

/-- Behind a lead, the items and their border match as the path can be split with that lead. -/
theorem runsAll_ofPatternAll_border (core : List Pattern) (lead cs : List Char) :
    (runsAll (ofPatternAll core ++ [either [char '/'] [stop]]) lead cs).map
        (Run.append ⟨lead, [], cs⟩) = (splitsAfter core lead cs).map Run.ofSplit := by
  rw [runsAll_append, runsAll_ofPatternAll, splitsAfter, List.map_flatMap, List.map_flatMap,
    List.flatMap_map]
  congr 1
  funext found
  obtain ⟨body, rest⟩ := found
  rw [runsAll_singleton, runs_border, List.map_map, List.map_map, List.map_map]
  congr 1
  funext found
  simp [Run.ofInstance, Run.ofSplit, Run.append]

/-- The whole expression matches at the start of a path as the path can be split, in the same
order. -/
theorem runsAll_ofCore (core : List Pattern) (path : List Char) :
    runsAll (ofCore core) [] path = (splits core path).map Run.ofSplit := by
  rw [ofCore, List.cons_append, List.cons_append, runsAll, runs, if_pos rfl,
    List.flatMap_singleton, Run.nothing_append, List.map_id, runsAll, runs_optionalChar_slash,
    splits, List.flatMap_map, List.map_flatMap]
  congr 1
  funext found
  exact runsAll_ofPatternAll_border core found.1 found.2

/-- Behind the start of a path the whole expression does not match. -/
theorem runsAll_ofCore_of_ne_nil (h : before ≠ []) (cs : List Char) :
    runsAll (ofCore core) before cs = [] := by
  rw [ofCore, List.cons_append, runsAll, runs, if_neg h, List.flatMap_nil]

theorem searchFrom_ofCore_of_ne_nil (h : before ≠ []) (cs : List Char) :
    searchFrom (ofCore core) before cs = none := by
  induction cs generalizing before with
  | nil => rw [searchFrom, runsAll_ofCore_of_ne_nil h, List.head?_nil]
  | cons c cs ih =>
    rw [searchFrom, runsAll_ofCore_of_ne_nil h, List.head?_nil, Option.none_or]
    exact ih (List.concat_ne_nil c before)

/-- A search finds the first split. -/
theorem search_ofCore (core : List Pattern) (path : List Char) :
    search (ofCore core) path = (splits core path).head?.map Run.ofSplit := by
  rw [← List.head?_map, ← runsAll_ofCore]
  cases path with
  | nil => rfl
  | cons c cs =>
    rw [search, searchFrom, searchFrom_ofCore_of_ne_nil (List.concat_ne_nil c []), Option.or_none]

end Regex

namespace Matcher

open Pattern

/-- The regular expression that the matcher stands for. -/
def expression (matcher : Matcher) : List Regex := Regex.ofCore matcher.core

/-- What a search for the expression yields for a path: the texts of the captures, empty for one
that took no part, and what is left of the path. -/
def yieldOf (matcher : Matcher) (run : Regex.Run) : MatchedPath :=
  { captured := matcher.names.map fun name =>
      (name, String.ofList ((run.captured.lookup name).getD []))
    suffix := String.ofList run.rest }

/-- **A path is searched for the expression that is written.** -/
theorem match?_eq_search (matcher : Matcher) :
    matcher.regex = String.ofList (Regex.textAll matcher.expression) ∧
      ∀ path : String, matcher.match? path =
        (Regex.search matcher.expression path.toList).map matcher.yieldOf := by
  refine ⟨(Regex.textAll_ofCore matcher.core).symm, fun path => ?_⟩
  rw [match?, find_eq_head?, expression, Regex.search_ofCore, Option.map_map, Option.map_map]
  rfl

example : (⟨[.optional (.capture "x"), .literal "."], ["x"]⟩ : Matcher).expression =
    [.start, .optionalChar '/', .optional [.capture "x" [.segment]], .char '.',
      .either [.char '/'] [.stop]] := rfl

end Matcher

end HttpGateway
