import HttpGateway.Proofs.Pattern.Flat

/-!
# Building a pattern from its tokens

A well-shaped pattern is built again from its own tokens (`assemble_tokens`), whatever comes before
and after them, as long as no literal before them goes on with its first item.
-/

namespace HttpGateway.Pattern

variable {p : Pattern} {items : List Pattern} {groups : List OpenGroup}
  {placed : List PlacedToken}

/-- Characters go on with the literal before them. -/
theorem assemble_chars {cs : List Char} (text : String)
    (h : placed.map PlacedToken.token = cs.map .char) (rest : List PlacedToken) :
    assemble groups (.literal text :: items) (placed ++ rest) =
      assemble groups (.literal (text ++ String.ofList cs) :: items) rest := by
  induction cs generalizing text placed with
  | nil =>
    obtain rfl := List.map_eq_nil_iff.1 h
    simp
  | cons c cs ih =>
    obtain ⟨⟨offset, token⟩, placed, rfl, rfl, htail⟩ := List.map_eq_cons_iff.1 h
    have htext : text.push c ++ String.ofList cs = text ++ String.ofList (c :: cs) := by
      simp [String.ext_iff]
    rw [List.cons_append, assemble, addChar, ih (text.push c) htail, htext]

theorem addChar_of_unmerged (c : Char) {text : String}
    (h : ∀ item ∈ items.head?, Unmerged item (.literal text)) :
    addChar c items = .literal (String.singleton c) :: items := by
  cases items with
  | nil => rfl
  | cons item items =>
    cases item with
    | literal s => exact (h (.literal s) rfl).elim
    | _ => rfl

/-- A token that stands for one item adds it. -/
theorem assemble_item {token : Token} (htokens : placed.map PlacedToken.token = [token])
    (hadds : ∀ offset rest, assemble groups items (⟨offset, token⟩ :: rest) =
      assemble groups (p :: items) rest) (rest : List PlacedToken) :
    assemble groups items (placed ++ rest) = assemble groups (p :: items) rest := by
  obtain ⟨⟨offset, token⟩, placed, rfl, rfl, htail⟩ := List.map_eq_cons_iff.1 htokens
  obtain rfl := List.map_eq_nil_iff.1 htail
  exact hadds offset rest

mutual

/-- **A well-shaped pattern is built again from its tokens**, behind any items that its first one
does not go on with. -/
theorem assemble_tokens : ∀ {p : Pattern} {groups : List OpenGroup} {items : List Pattern}
    {placed : List PlacedToken}, p.Everywhere ShapedNode →
    (∀ item ∈ items.head?, ∀ first ∈ p.items.head?, Unmerged item first) →
    placed.map PlacedToken.token = tokens p → ∀ rest,
    assemble groups items (placed ++ rest) = assemble groups (p.items.reverse ++ items) rest
  | .literal text, groups, items, placed, hshaped, hjoin, htokens, rest => by
    have hne : text.toList ≠ [] := mt String.toList_eq_nil_iff.1 hshaped
    obtain ⟨c, cs, hcs⟩ := List.exists_cons_of_ne_nil hne
    rw [tokens, hcs] at htokens
    obtain ⟨⟨offset, token⟩, placed, rfl, rfl, htail⟩ := List.map_eq_cons_iff.1 htokens
    rw [List.cons_append, assemble, addChar_of_unmerged c fun item hitem => hjoin item hitem _ rfl,
      assemble_chars _ htail]
    have htext : String.singleton c ++ String.ofList cs = text := by simp [String.ext_iff, hcs]
    rw [htext]
    rfl
  | .separator, _, _, _, _, _, htokens, rest =>
    assemble_item htokens (fun _ _ => by rw [assemble]) rest
  | .capture _, _, _, _, _, _, htokens, rest =>
    assemble_item htokens (fun _ _ => by rw [assemble]) rest
  | .wildcard, _, _, _, _, _, htokens, rest =>
    assemble_item htokens (fun _ _ => by rw [assemble]) rest
  | .optional child, groups, items, placed, hshaped, _, htokens, rest => by
    obtain ⟨⟨offset, token⟩, placed, rfl, rfl, hinner⟩ := List.map_eq_cons_iff.1 htokens
    obtain ⟨inner, closing, rfl, hchild, hclosing⟩ := List.map_eq_append_iff.1 hinner
    obtain ⟨⟨offset', token⟩, placed, rfl, rfl, htail⟩ := List.map_eq_cons_iff.1 hclosing
    obtain rfl := List.map_eq_nil_iff.1 htail
    have hflat := isFlat_of_shaped hshaped.2
    have hne : child.items.reverse ≠ [] := mt List.reverse_eq_nil_iff.1 (items_ne_nil hflat)
    rw [List.cons_append, assemble, List.append_assoc,
      assemble_tokens hshaped.2 (by simp) hchild, List.append_nil, List.singleton_append, assemble,
      List.reverse_reverse, concat_items hflat]
    · rfl
    · exact hne
  | .sequence children, groups, items, placed, hshaped, hjoin, htokens, rest =>
    assemble_tokensAll (shapedItems_items hshaped) hjoin htokens rest

theorem assemble_tokensAll : ∀ {ps : List Pattern} {groups : List OpenGroup} {items : List Pattern}
    {placed : List PlacedToken}, ShapedItems ps →
    (∀ item ∈ items.head?, ∀ first ∈ ps.head?, Unmerged item first) →
    placed.map PlacedToken.token = tokensAll ps → ∀ rest,
    assemble groups items (placed ++ rest) = assemble groups (ps.reverse ++ items) rest
  | [], groups, items, placed, _, _, htokens, rest => by
    obtain rfl := List.map_eq_nil_iff.1 htokens
    rfl
  | p :: ps, groups, items, placed, hshaped, hjoin, htokens, rest => by
    obtain ⟨hp, hflat, hhead, hps⟩ := shapedItems_cons_iff.1 hshaped
    obtain ⟨first, others, rfl, hfirst, hothers⟩ := List.map_eq_append_iff.1 htokens
    have hitems := items_eq_singleton hflat
    rw [List.append_assoc, assemble_tokens hp (hitems ▸ hjoin) hfirst, hitems,
      List.reverse_singleton, assemble_tokensAll hps ?_ hothers, List.reverse_cons,
      List.append_assoc]
    · intro item hitem q hq
      obtain rfl := Option.some.inj hitem
      exact hhead q hq

end

end HttpGateway.Pattern
