import HttpGateway.Proofs.Pattern.Canonical
import HttpGateway.Proofs.Pattern.Matches

/-!
# Reading a pattern off its regular expression

The regular expression of a pattern is written token by token (`regexBody_eq_flatMap`), as its own
notation is. What is written for a token tells which one it is and where it ends
(`Token.ofRegex?_append`), so the tokens can be read off again, whatever the literals hold, and with
them the items of a pattern that was read (`eq_of_tokensAll_eq`). So two written patterns have the
same regular expression exactly if their cores have the same nodes (`regex_eq_iff_nodes_eq`).
-/

namespace HttpGateway

open Text

/-! ## Tokens in a regular expression -/

namespace Token

open Pattern

/-- What is written for a token in the regular expression of a pattern. No pattern has a `:` without
a name. -/
def regex : Token → List Char
  | .char c => regexChar c
  | .separator => ['/']
  | .wildcard => regexSegment
  | .capture name => '(' :: '?' :: 'P' :: '<' :: (name.toList ++ '>' :: (regexSegment ++ [')']))
  | .bareColon => []
  | .opening => ['(', '?', ':']
  | .closing => [')', '?']

/-- A token that a pattern which was read can have. -/
def IsNode : Token → Prop
  | .char c => c ≠ '/'
  | .capture name => IsName name.toList
  | .bareColon => False
  | _ => True

/-- The token that a regular expression starts with, and what comes after it. Of what opens a group
only that of a capture goes on with a name. -/
def ofRegex? : List Char → Option (Token × List Char)
  | [] => none
  | c :: rest =>
    if c = '\\' then rest.head?.map fun d => (.char d, rest.tail)
    else if c = '/' then some (.separator, rest)
    else if c = '[' then some (.wildcard, rest.drop 4)
    else if c = ')' then some (.closing, rest.drop 1)
    else if c = '(' then
      if rest.take 2 = ['?', ':'] then some (.opening, rest.drop 2)
      else
        let named := rest.drop 3
        some (.capture (String.ofList (named.takeWhile (· ≠ '>'))),
          (named.dropWhile (· ≠ '>')).drop 7)
    else some (.char c, rest)

variable {t : Token} {ts us : List Token}

/-- A name ends where it is closed. -/
theorem ofRegex?_capture {name : List Char} (h : '>' ∉ name) (rest : List Char) :
    ofRegex? ('(' :: '?' :: 'P' :: '<' :: (name ++ '>' :: (regexSegment ++ ')' :: rest))) =
      some (.capture (String.ofList name), rest) := by
  have hname : ∀ c ∈ name, decide (c ≠ '>') = true := fun c hc =>
    decide_eq_true fun heq => h (heq ▸ hc)
  have hread : ∀ named, ofRegex? ('(' :: '?' :: 'P' :: '<' :: named) =
      some (.capture (String.ofList (named.takeWhile (· ≠ '>'))),
        (named.dropWhile (· ≠ '>')).drop 7) := fun _ => rfl
  have hsegment : regexSegment = ['[', '^', '/', ']', '+'] := by decide
  rw [hread, List.takeWhile_append_of_pos hname, List.dropWhile_append_of_pos hname, hsegment]
  simp

/-- A character that opens nothing else stands for itself. -/
theorem ofRegex?_char {c : Char} (h : c ∉ ['\\', '/', '[', ')', '(']) (rest : List Char) :
    ofRegex? (c :: rest) = some (.char c, rest) := by
  simp only [List.mem_cons, List.not_mem_nil, or_false, not_or] at h
  obtain ⟨hbackslash, hslash, hclass, hclosing, hopening⟩ := h
  rw [ofRegex?, if_neg hbackslash, if_neg hslash, if_neg hclass, if_neg hclosing, if_neg hopening]

/-- **What is written for a token tells which one it is**, and where it ends. -/
theorem ofRegex?_append (h : t.IsNode) (rest : List Char) :
    ofRegex? (t.regex ++ rest) = some (t, rest) := by
  cases t with
  | char c =>
    change ofRegex? (regexChar c ++ rest) = _
    rw [regexChar]
    split
    · rfl
    · next hmeta =>
      refine ofRegex?_char (fun hmem => ?_) rest
      simp only [List.mem_cons, List.not_mem_nil, or_false] at hmem
      obtain rfl | rfl | rfl | rfl | rfl := hmem
      · exact hmeta rfl
      · exact h rfl
      · exact hmeta rfl
      · exact hmeta rfl
      · exact hmeta rfl
  | separator => rfl
  | wildcard => rfl
  | capture name =>
    have hname : '>' ∉ name.toList := fun hmem =>
      absurd (continuesName_of_isName h '>' hmem) (by decide)
    have hregex : (capture name).regex ++ rest =
        '(' :: '?' :: 'P' :: '<' :: (name.toList ++ '>' :: (regexSegment ++ ')' :: rest)) := by
      change '(' :: '?' :: 'P' :: '<' :: (name.toList ++ '>' :: (regexSegment ++ [')'])) ++ rest = _
      simp
    rw [hregex, ofRegex?_capture hname, String.ofList_toList]
  | bareColon => exact absurd h id
  | opening => rfl
  | closing => rfl

theorem regex_ne_nil (h : t.IsNode) : t.regex ≠ [] := by
  intro hnil
  have hread := ofRegex?_append h []
  rw [hnil] at hread
  cases hread

/-- **The tokens can be read off** what is written for them. -/
theorem eq_of_flatMap_regex_eq (hts : ∀ t ∈ ts, t.IsNode) (hus : ∀ u ∈ us, u.IsNode)
    (h : ts.flatMap regex = us.flatMap regex) : ts = us := by
  induction ts generalizing us with
  | nil =>
    cases us with
    | nil => rfl
    | cons u us =>
      rw [List.flatMap_nil, List.flatMap_cons] at h
      have hnil := (List.append_eq_nil_iff.1 h.symm).1
      exact absurd hnil (regex_ne_nil (hus u List.mem_cons_self))
  | cons t ts ih =>
    rw [List.forall_mem_cons] at hts
    cases us with
    | nil =>
      rw [List.flatMap_nil, List.flatMap_cons] at h
      exact absurd (List.append_eq_nil_iff.1 h).1 (regex_ne_nil hts.1)
    | cons u us =>
      rw [List.forall_mem_cons] at hus
      have hread := congrArg ofRegex? h
      rw [List.flatMap_cons, List.flatMap_cons, ofRegex?_append hts.1, ofRegex?_append hus.1]
        at hread
      obtain ⟨hsame, hrest⟩ := Prod.mk.inj (Option.some.inj hread)
      rw [hsame, ih hts.2 hus.2 hrest]

end Token

namespace Pattern

variable {p : Pattern} {ps qs : List Pattern}

/-! ## The tokens of a regular expression -/

mutual

/-- The regular expression of a pattern is written with the tokens of the pattern. -/
theorem regexBody_eq_flatMap : ∀ p : Pattern, regexBody p = (tokens p).flatMap Token.regex
  | .literal text => by
    rw [tokens, List.flatMap_map]
    rfl
  | .separator => rfl
  | .capture name => by
    rw [tokens, List.flatMap_singleton]
    change "(?P<".toList ++ name.toList ++ '>' :: regexSegment ++ [')'] =
      '(' :: '?' :: 'P' :: '<' :: (name.toList ++ '>' :: (regexSegment ++ [')']))
    simp
  | .wildcard => by
    rw [tokens, List.flatMap_singleton]
    rfl
  | .optional child => by
    rw [tokens, List.flatMap_cons, List.flatMap_append, ← regexBody_eq_flatMap child]
    rfl
  | .sequence children => regexBodyAll_eq_flatMap children

theorem regexBodyAll_eq_flatMap : ∀ ps : List Pattern,
    regexBodyAll ps = (tokensAll ps).flatMap Token.regex
  | [] => rfl
  | p :: ps => by
    rw [regexBodyAll, tokensAll, List.flatMap_append, regexBody_eq_flatMap p,
      regexBodyAll_eq_flatMap ps]

end

mutual

theorem isNode_of_mem_tokens : ∀ {p : Pattern}, p.Everywhere CanonicalNode →
    ∀ t ∈ tokens p, t.IsNode
  | .literal text, h => by
    obtain ⟨-, hslash⟩ := h
    rw [tokens, List.forall_mem_map]
    exact fun c hc heq => hslash (heq ▸ hc)
  | .separator, _ => List.forall_mem_singleton.2 trivial
  | .capture _, h => List.forall_mem_singleton.2 h
  | .wildcard, _ => List.forall_mem_singleton.2 trivial
  | .optional child, h => by
    rw [tokens, List.forall_mem_cons, List.forall_mem_append]
    exact ⟨trivial, isNode_of_mem_tokens h.2, List.forall_mem_singleton.2 trivial⟩
  | .sequence children, h => isNode_of_mem_tokensAll h.2

theorem isNode_of_mem_tokensAll : ∀ {ps : List Pattern}, EverywhereAll CanonicalNode ps →
    ∀ t ∈ tokensAll ps, t.IsNode
  | [], _ => by simp [tokensAll]
  | p :: ps, h => by
    rw [tokensAll, List.forall_mem_append]
    exact ⟨isNode_of_mem_tokens h.1, isNode_of_mem_tokensAll h.2⟩

end

/-! ## The items with given tokens -/

/-- Well-shaped items are put together again from their tokens. -/
theorem assemble_tokensAll_eq (h : ShapedItems ps) :
    assemble [] [] ((tokensAll ps).map (PlacedToken.mk 0)) = .ok (ofItems ps) := by
  have htokens : ((tokensAll ps).map (PlacedToken.mk 0)).map PlacedToken.token = tokensAll ps := by
    rw [List.map_map]
    exact List.map_id _
  have hread := @assemble_tokensAll ps [] [] _ h (by simp) htokens []
  rw [List.append_nil] at hread
  rw [hread, List.append_nil, assemble, List.reverse_reverse, concat_eq_ofItems h.flat]

theorem tokensAll_eq_nil_iff (h : ShapedItems ps) : tokensAll ps = [] ↔ ps = [] := by
  cases ps with
  | nil => simp [tokensAll]
  | cons p ps =>
    obtain ⟨hp, hflat, -, -⟩ := shapedItems_cons_iff.1 h
    simp [tokensAll, tokens_ne_nil hp hflat]

/-- Well-shaped items have their tokens for themselves. -/
theorem eq_of_tokensAll_eq (hps : ShapedItems ps) (hqs : ShapedItems qs)
    (h : tokensAll ps = tokensAll qs) : ps = qs := by
  have hread := assemble_tokensAll_eq hps
  rw [h, assemble_tokensAll_eq hqs] at hread
  have hitems : ofItems ps = ofItems qs := (Except.ok.inj hread).symm
  have hnil : ps = [] ↔ qs = [] := by
    rw [← tokensAll_eq_nil_iff hps, ← tokensAll_eq_nil_iff hqs, h]
  by_cases hempty : ps = []
  · rw [hempty, hnil.1 hempty]
  · rw [← items_ofItems hps.flat hempty, hitems, items_ofItems hqs.flat (mt hnil.2 hempty)]

/-- The nodes of a core: an empty literal is as good as none. -/
def nodes (core : List Pattern) : List Pattern := core.filter (· ≠ empty)

/-- The core of a pattern that was read: its nodes are well shaped, have tokens that can be read off
a regular expression, and are written there as the core is. -/
theorem nodes_core (h : IsCanonical p) :
    ShapedItems (nodes p.core) ∧ (∀ t ∈ tokensAll (nodes p.core), t.IsNode) ∧
      tokensAll (nodes p.core) = tokensAll p.core := by
  rcases h with rfl | hcanonical
  · have hnodes : nodes empty.core = [] := by decide
    rw [hnodes]
    exact ⟨.nil, by simp [tokensAll], rfl⟩
  · have hitems := shapedItems_items (hcanonical.mono fun _ => CanonicalNode.shaped)
    obtain ⟨front, back, hcore, -, -⟩ := exists_items_eq_core p
    have hshaped : ShapedItems p.core := hitems.isInfix ⟨front, back, by simp [hcore]⟩
    have hnodes : nodes p.core = p.core := by
      rw [nodes, List.filter_eq_self]
      intro item hitem
      refine decide_eq_true fun heq => ?_
      subst heq
      exact (hshaped.shaped _ hitem).node rfl
    rw [hnodes]
    refine ⟨hshaped, fun t ht => isNode_of_mem_tokens hcanonical t ?_, rfl⟩
    rw [← tokensAll_items, hcore, tokensAll_append, tokensAll_append]
    exact List.mem_append_right _ (List.mem_append_left _ ht)

theorem regexText_eq_iff : regexText ps = regexText qs ↔ regexBodyAll ps = regexBodyAll qs := by
  unfold regexText
  rw [String.ofList_inj, List.append_cancel_right_eq, List.append_cancel_left_eq]

end Pattern

open Pattern

variable {text other : String} {p q : Pattern} {matcher matcher' : Matcher}

/-- **The regular expression tells the pattern.** Two written patterns have the same regular
expression exactly if their cores have the same nodes, whatever the literals hold. -/
theorem regex_eq_iff_nodes_eq (hp : Pattern.parse text = .ok p) (hq : Pattern.parse other = .ok q)
    (hmatcher : Route.matcherOf text = .ok matcher)
    (hmatcher' : Route.matcherOf other = .ok matcher') :
    matcher.regex = matcher'.regex ↔ nodes p.core = nodes q.core := by
  obtain ⟨-, rfl⟩ := Route.matcherOf_eq_ok hp hmatcher
  obtain ⟨-, rfl⟩ := Route.matcherOf_eq_ok hq hmatcher'
  obtain ⟨hpshaped, hpnodes, hptokens⟩ := nodes_core (canonical_of_parse hp)
  obtain ⟨hqshaped, hqnodes, hqtokens⟩ := nodes_core (canonical_of_parse hq)
  rw [Matcher.regex, Matcher.regex, regexText_eq_iff, regexBodyAll_eq_flatMap,
    regexBodyAll_eq_flatMap, ← hptokens, ← hqtokens]
  refine ⟨fun h => ?_, fun h => by rw [h]⟩
  exact eq_of_tokensAll_eq hpshaped hqshaped (Token.eq_of_flatMap_regex_eq hpnodes hqnodes h)

/-- A literal that holds the regular expression of a group is not taken for the group. -/
theorem regex_eq_iff_nodes_eq_group :
    let group : Matcher := ⟨[.optional (.literal "a")], []⟩
    let literal : Matcher := ⟨[.literal "(?:a)?"], []⟩
    Route.matcherOf "/(a)/" = .ok group ∧ Route.matcherOf "\\(?\\:a\\)?" = .ok literal ∧
      group.regex ≠ literal.regex := by
  intro group literal
  have hgroup : Route.matcherOf "/(a)/" = .ok group :=
    Route.matcherOf_eq_ok_iff.2
      ⟨.sequence [.separator, .optional (.literal "a"), .separator], rfl, rfl,
        Matcher.compile_of_limits (by decide) (by decide) (by decide +kernel)⟩
  have hliteral : Route.matcherOf "\\(?\\:a\\)?" = .ok literal :=
    Route.matcherOf_eq_ok_iff.2 ⟨.literal "(?:a)?", rfl, rfl,
      Matcher.compile_of_limits (by decide) (by decide) (by decide +kernel)⟩
  refine ⟨hgroup, hliteral, ?_⟩
  rw [Ne, regex_eq_iff_nodes_eq rfl rfl hgroup hliteral]
  decide

end HttpGateway
