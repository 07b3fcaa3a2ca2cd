import HttpGateway.Proofs.Metrics
import HttpGateway.Proofs.Pattern.Splits

/-!
# Where captures stand

The sizes of the choices that lead to an instance tell which optionals are present and how long the
segments are, so with them the pattern can be followed without its text: `follow` finds the spans of
the captures. The places of a split are these spans and the start of its suffix, and a matcher
answers with what stands at the places of the first split (`Matcher.match?_eq_head?`).
-/

namespace HttpGateway

/-- A range of characters. -/
structure Span where
  start : Nat
  length : Nat
deriving DecidableEq

/-- What stands there in a text. -/
def Span.textIn (span : Span) (text : List Char) : List Char :=
  (text.drop span.start).take span.length

theorem Span.textIn_append (before w after : List Char) :
    (Span.mk before.length w.length).textIn (before ++ w ++ after) = w := by
  rw [textIn, List.append_assoc, List.drop_left, List.take_left]

/-- Where a split has its captures and its suffix. -/
structure Places where
  /-- The spans of the captures that take part, in order. -/
  spans : List (String × Span)
  suffixStart : Nat
deriving DecidableEq

/-- The texts of the captures at the given spans. -/
def Span.textsIn (spans : List (String × Span)) (text : List Char) : List (String × List Char) :=
  spans.map fun capture => (capture.1, capture.2.textIn text)

/-- What stands at the places of a path: a capture without a span is empty. -/
def Places.found (places : Places) (names : List String) (path : String) : MatchedPath :=
  { captured := names.map fun name =>
      (name, match places.spans.lookup name with
        | some span => String.ofList (span.textIn path.toList)
        | none => "")
    suffix := String.ofList (path.toList.drop places.suffixStart) }

namespace Pattern

/-! ## Following a pattern -/

/-- How much a choice takes: a segment its length, anything else one or nothing. -/
def Choice.size : Choice → Nat
  | .lead consumed => consumed.toNat
  | .group present => present.toNat
  | .segment taken => taken.length

/-- The sizes of the choices that lead to an instance. -/
def Instance.sizes (i : Instance) : List Nat := i.choices.map Choice.size

theorem Instance.sizes_append (i j : Instance) : (i ++ j).sizes = i.sizes ++ j.sizes :=
  List.map_append

/-- What following a pattern comes to. -/
structure Trace where
  spans : List (String × Span)
  /-- The place reached. -/
  place : Nat
  /-- The sizes of the choices that are left. -/
  sizes : List Nat

mutual

/-- Follow a pattern from a place, with the sizes of the choices to come. -/
def follow : Pattern → Nat → List Nat → Trace
  | .literal text, place, sizes => ⟨[], place + text.length, sizes⟩
  | .separator, place, sizes => ⟨[], place + 1, sizes⟩
  | .capture name, place, sizes =>
    ⟨[(name, ⟨place, sizes.headD 0⟩)], place + sizes.headD 0, sizes.tail⟩
  | .wildcard, place, sizes => ⟨[], place + sizes.headD 0, sizes.tail⟩
  | .optional child, place, sizes =>
    if sizes.headD 0 = 0 then ⟨[], place, sizes.tail⟩ else follow child place sizes.tail
  | .sequence children, place, sizes => followAll children place sizes

/-- Follow patterns one after the other. -/
def followAll : List Pattern → Nat → List Nat → Trace
  | [], place, sizes => ⟨[], place, sizes⟩
  | pattern :: patterns, place, sizes =>
    let first := follow pattern place sizes
    let others := followAll patterns first.place first.sizes
    ⟨first.spans ++ others.spans, others.place, others.sizes⟩

end

theorem SameText.length_eq {v w : List Char} (h : SameText v w) : v.length = w.length := by
  simpa using congrArg List.length h

mutual

/-- Following a pattern from the start of an instance leads to its end, over what it captures. -/
theorem HasInstance.exists_follow : ∀ {p : Pattern} {i : Instance}, HasInstance p i →
    ∀ (before after : List Char) (sizes : List Nat), ∃ spans,
      follow p before.length (i.sizes ++ sizes) = ⟨spans, (before ++ i.text).length, sizes⟩ ∧
        Span.textsIn spans (before ++ i.text ++ after) = i.captured
  | _, _, .literal hw, before, after, sizes => by
    refine ⟨[], ?_, rfl⟩
    rw [List.length_append, ← hw.length_eq, String.length_toList]
    rfl
  | _, _, .separator, before, after, sizes => by
    refine ⟨[], ?_, rfl⟩
    rw [List.length_append]
    rfl
  | _, _, @HasInstance.capture name w _, before, after, sizes => by
    refine ⟨[(name, ⟨before.length, w.length⟩)], ?_, ?_⟩
    · rw [List.length_append]
      rfl
    · exact congrArg (fun text => [(name, text)]) (Span.textIn_append before w after)
  | _, _, .wildcard _, before, after, sizes => by
    refine ⟨[], ?_, rfl⟩
    rw [List.length_append]
    rfl
  | _, _, .present hi, before, after, sizes => hi.exists_follow before after sizes
  | _, _, .absent, before, after, sizes => ⟨[], by rw [List.append_nil]; rfl, rfl⟩
  | _, _, .sequence hi, before, after, sizes => hi.exists_follow before after sizes

theorem HasInstanceAll.exists_follow : ∀ {ps : List Pattern} {i : Instance}, HasInstanceAll ps i →
    ∀ (before after : List Char) (sizes : List Nat), ∃ spans,
      followAll ps before.length (i.sizes ++ sizes) = ⟨spans, (before ++ i.text).length, sizes⟩ ∧
        Span.textsIn spans (before ++ i.text ++ after) = i.captured
  | _, _, .nil, before, after, sizes => ⟨[], by rw [List.append_nil]; rfl, rfl⟩
  | _, _, @HasInstanceAll.cons _ _ i j hi hj, before, after, sizes => by
    -- The first instance ends where the second one starts, and leaves it its sizes.
    obtain ⟨first, hfirst, hitexts⟩ := hi.exists_follow before (j.text ++ after) (j.sizes ++ sizes)
    obtain ⟨others, hothers, hjtexts⟩ := hj.exists_follow (before ++ i.text) after sizes
    refine ⟨first ++ others, ?_, ?_⟩
    · rw [followAll, Instance.sizes_append, List.append_assoc, hfirst, hothers,
        Instance.text_append, List.append_assoc]
    · rw [Instance.captured_append, ← hitexts, ← hjtexts, Instance.text_append]
      simp only [Span.textsIn, List.map_append, List.append_assoc]

end

/-! ## The places of a split -/

variable {core : List Pattern} {path : List Char} {split : Split}

/-- The places of a split, from the sizes of its pieces. -/
def Split.places (core : List Pattern) (split : Split) : Places :=
  let trace := followAll core split.lead.length split.body.sizes
  ⟨trace.spans, trace.place + split.border.length⟩

/-- What a split captures and leaves stands at its places. -/
theorem IsSplit.places (h : IsSplit core path split) :
    Span.textsIn (split.places core).spans path = split.body.captured ∧
      path.drop (split.places core).suffixStart = split.suffix := by
  obtain ⟨spans, hfollow, htexts⟩ :=
    h.body.exists_follow split.lead (split.border ++ split.suffix) []
  rw [List.append_nil] at hfollow
  rw [Split.places, hfollow]
  constructor
  · rw [← htexts, h.path_eq, ← List.append_assoc]
  · dsimp only
    rw [← List.length_append, h.path_eq, List.drop_left]

end Pattern

open Pattern

/-- **A matcher answers with what stands at the places of the first split.** -/
theorem Matcher.match?_eq_head? (matcher : Matcher) (path : String) :
    matcher.match? path = (splits matcher.core path.toList).head?.map fun split =>
      (split.places matcher.core).found matcher.names path := by
  rw [match?, find_eq_head?, Option.map_map]
  refine Option.map_congr fun split hsplit => ?_
  obtain ⟨htexts, hsuffix⟩ := (mem_splits_iff.1 (List.mem_of_head? hsplit)).places
  rw [Function.comp_apply, Split.finish, Places.found, hsuffix, MatchedPath.mk.injEq]
  refine ⟨List.map_congr_left fun name _ => ?_, rfl⟩
  rw [← htexts, Span.textsIn, lookup_map_snd fun span : Span => span.textIn path.toList]
  cases (split.places matcher.core).spans.lookup name <;> rfl

/-- A path matches with its captures and its suffix at the given places: these are the places of its
first split, and the answer is what stands there. -/
structure Matcher.MatchesAt (matcher : Matcher) (path : String) (places : Places) : Prop where
  split : ∃ split, IsFirstSplit matcher.core path.toList split ∧ split.places matcher.core = places
  answer : matcher.match? path = some (places.found matcher.names path)

theorem Matcher.matchesAt_of_head? {matcher : Matcher} {path : String} {split : Split}
    (h : (splits matcher.core path.toList).head? = some split) :
    matcher.MatchesAt path (split.places matcher.core) := by
  refine ⟨⟨split, isFirstSplit_of_head? h, rfl⟩, ?_⟩
  rw [match?_eq_head?, h]
  rfl

end HttpGateway
