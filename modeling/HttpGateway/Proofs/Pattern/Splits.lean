import HttpGateway.Proofs.Pattern.Tables

/-!
# Splitting a path

A pattern with a given core admits a path when the path can be split into an optional leading `/`,
an instance of the core, a border and what is left (`IsSplit`). `splits` lists the splits in the
order of preference, and the matcher finds the first of them (`find_eq_head?`).
-/

namespace HttpGateway.Pattern

variable {core : List Pattern} {path : List Char}

/-- The pieces that a path is split into. -/
structure Split where
  /-- The leading `/`, or nothing. -/
  lead : List Char
  /-- The part that the pattern stands for. -/
  body : Instance
  /-- The `/` after it, or nothing at the end of the path. -/
  border : List Char
  suffix : List Char
deriving DecidableEq

/-- The choices that lead to a split, in the order in which they are made. -/
def Split.choices (split : Split) : List Choice :=
  .lead (!split.lead.isEmpty) :: split.body.choices

/-- A split of a path by a pattern with a given core. -/
structure IsSplit (core : List Pattern) (path : List Char) (split : Split) : Prop where
  path_eq : path = split.lead ++ split.body.text ++ split.border ++ split.suffix
  lead : split.lead = [] ∨ split.lead = ['/']
  body : HasInstanceAll core split.body
  border : split.border = ['/'] ∨ split.border = [] ∧ split.suffix = []

/-- A split that comes before every other one. -/
structure IsFirstSplit (core : List Pattern) (path : List Char) (split : Split) : Prop where
  isSplit : IsSplit core path split
  first : ∀ other, IsSplit core path other → other ≠ split →
    Preferred split.choices other.choices

theorem IsFirstSplit.unique {split other : Split} (h : IsFirstSplit core path split)
    (ho : IsFirstSplit core path other) : other = split :=
  Classical.byContradiction fun hne =>
    (h.first other ho.isSplit hne).asymm (ho.first split h.isSplit (Ne.symm hne))

/-! ## The list of splits -/

/-- The leading `/` of a path and nothing, as far as the path has them, each with what is left. -/
def leads : List Char → List (List Char × List Char)
  | [] => [([], [])]
  | c :: cs => if c = '/' then [(['/'], cs), ([], c :: cs)] else [([], c :: cs)]

/-- The border at the start of a text, with what is left. -/
def borderText : List Char → Option (List Char × List Char)
  | [] => some ([], [])
  | c :: cs => if c = '/' then some (['/'], cs) else none

/-- The splits with a given lead, from what is left after it, the preferred ones first. -/
def splitsAfter (core : List Pattern) (lead cs : List Char) : List Split :=
  (instancesAll core cs).flatMap fun (body, rest) =>
    (borderText rest).toList.map fun (border, suffix) => ⟨lead, body, border, suffix⟩

/-- The splits of a path, the preferred ones first. -/
def splits (core : List Pattern) (path : List Char) : List Split :=
  (leads path).flatMap fun (lead, cs) => splitsAfter core lead cs

theorem mem_leads_iff {lead cs : List Char} :
    (lead, cs) ∈ leads path ↔ (lead = [] ∨ lead = ['/']) ∧ path = lead ++ cs := by
  cases path with
  | nil =>
    simp only [leads, List.mem_singleton, Prod.mk.injEq]
    refine ⟨fun h => ?_, fun h => ?_⟩
    · obtain ⟨rfl, rfl⟩ := h
      exact ⟨Or.inl rfl, rfl⟩
    · obtain ⟨-, h⟩ := h
      exact List.append_eq_nil_iff.1 h.symm
  | cons c path =>
    rw [leads]
    refine ⟨fun h => ?_, fun h => ?_⟩
    · split at h
      · next hc =>
        simp only [List.mem_cons, Prod.mk.injEq, List.not_mem_nil, or_false] at h
        rcases h with ⟨rfl, rfl⟩ | ⟨rfl, rfl⟩
        · exact ⟨Or.inr rfl, by rw [hc]; rfl⟩
        · exact ⟨Or.inl rfl, rfl⟩
      · simp only [List.mem_singleton, Prod.mk.injEq] at h
        obtain ⟨rfl, rfl⟩ := h
        exact ⟨Or.inl rfl, rfl⟩
    · obtain ⟨rfl | rfl, h⟩ := h
      · obtain rfl : c :: path = cs := h
        split <;> simp
      · obtain ⟨rfl, rfl⟩ := List.cons.inj h
        simp

theorem borderText_eq_some_iff {cs border suffix : List Char} :
    borderText cs = some (border, suffix) ↔
      cs = border ++ suffix ∧ (border = ['/'] ∨ border = [] ∧ suffix = []) := by
  cases cs with
  | nil =>
    simp only [borderText, Option.some.injEq, Prod.mk.injEq]
    refine ⟨fun h => ?_, fun h => ?_⟩
    · obtain ⟨rfl, rfl⟩ := h
      exact ⟨rfl, Or.inr ⟨rfl, rfl⟩⟩
    · obtain ⟨h, -⟩ := h
      obtain ⟨rfl, rfl⟩ := List.append_eq_nil_iff.1 h.symm
      exact ⟨rfl, rfl⟩
  | cons c cs =>
    rw [borderText]
    refine ⟨fun h => ?_, fun h => ?_⟩
    · split at h
      · next hc =>
        simp only [Option.some.injEq, Prod.mk.injEq] at h
        obtain ⟨rfl, rfl⟩ := h
        exact ⟨by rw [hc]; rfl, Or.inl rfl⟩
      · simp at h
    · obtain ⟨h, rfl | ⟨rfl, rfl⟩⟩ := h
      · obtain ⟨rfl, rfl⟩ := List.cons.inj h
        simp
      · simp at h

theorem mem_splitsAfter_iff {lead cs : List Char} {split : Split} :
    split ∈ splitsAfter core lead cs ↔
      split.lead = lead ∧ HasInstanceAll core split.body ∧
        cs = split.body.text ++ split.border ++ split.suffix ∧
          (split.border = ['/'] ∨ split.border = [] ∧ split.suffix = []) := by
  simp only [splitsAfter, List.mem_flatMap, List.mem_map, Option.mem_toList, Prod.exists]
  refine ⟨fun h => ?_, fun h => ?_⟩
  · obtain ⟨body, rest, hbody, border, suffix, hborder, rfl⟩ := h
    obtain ⟨hcore, hcs⟩ := (mem_instancesAll_iff core).1 hbody
    obtain ⟨hrest, hend⟩ := borderText_eq_some_iff.1 hborder
    have htext : cs = body.text ++ border ++ suffix := by rw [hcs, hrest, List.append_assoc]
    exact ⟨rfl, hcore, htext, hend⟩
  · obtain ⟨rfl, hcore, hcs, hend⟩ := h
    rw [List.append_assoc] at hcs
    have hbody := (mem_instancesAll_iff core).2 ⟨hcore, hcs⟩
    have hborder : borderText (split.border ++ split.suffix) = some (split.border, split.suffix) :=
      borderText_eq_some_iff.2 ⟨rfl, hend⟩
    exact ⟨split.body, _, hbody, split.border, split.suffix, hborder, rfl⟩

theorem mem_splits_iff {split : Split} : split ∈ splits core path ↔ IsSplit core path split := by
  simp only [splits, List.mem_flatMap, Prod.exists, mem_splitsAfter_iff]
  refine ⟨fun h => ?_, fun h => ?_⟩
  · obtain ⟨lead, cs, hlead, rfl, hcore, hcs, hend⟩ := h
    obtain ⟨hlead, hpath⟩ := mem_leads_iff.1 hlead
    have hpieces : path = split.lead ++ split.body.text ++ split.border ++ split.suffix := by
      simp only [hpath, hcs, List.append_assoc]
    exact ⟨hpieces, hlead, hcore, hend⟩
  · obtain ⟨hpath, hlead, hcore, hend⟩ := h
    simp only [List.append_assoc] at hpath
    have hmem := mem_leads_iff.2 ⟨hlead, hpath⟩
    exact ⟨split.lead, _, hmem, rfl, hcore, by rw [List.append_assoc], hend⟩

theorem pairwise_splitsAfter (core : List Pattern) (lead cs : List Char) :
    (splitsAfter core lead cs).Pairwise fun s t => Preferred s.choices t.choices := by
  rw [splitsAfter, List.pairwise_flatMap]
  refine ⟨fun ⟨body, rest⟩ _ => ?_, ?_⟩
  · dsimp only
    cases borderText rest <;> simp
  · refine (ordered_instancesAll core cs).imp fun {i j} hij => ?_
    intro s hs t ht
    obtain ⟨-, -, rfl⟩ := List.mem_map.1 hs
    obtain ⟨-, -, rfl⟩ := List.mem_map.1 ht
    exact hij.prepend [.lead (!lead.isEmpty)]

/-- The leading `/` is consumed first. -/
theorem pairwise_leads (path : List Char) :
    (leads path).Pairwise fun a b => a.1 = ['/'] ∧ b.1 = [] := by
  cases path with
  | nil => exact List.pairwise_singleton _ _
  | cons c path =>
    rw [leads]
    split <;> simp

theorem pairwise_splits (core : List Pattern) (path : List Char) :
    (splits core path).Pairwise fun s t => Preferred s.choices t.choices := by
  rw [splits, List.pairwise_flatMap]
  refine ⟨fun lead _ => pairwise_splitsAfter core _ _, (pairwise_leads path).imp ?_⟩
  rintro ⟨lead, cs⟩ ⟨other, ds⟩ ⟨rfl, rfl⟩ s hs t ht
  have hbefore : (Choice.lead (!s.lead.isEmpty)).Before (.lead (!t.lead.isEmpty)) := by
    rw [(mem_splitsAfter_iff.1 hs).1, (mem_splitsAfter_iff.1 ht).1]
    exact ⟨rfl, rfl⟩
  exact .head hbefore _ _

theorem isFirstSplit_of_head? {split : Split} (h : (splits core path).head? = some split) :
    IsFirstSplit core path split := by
  obtain ⟨others, hsplits⟩ := List.head?_eq_some_iff.1 h
  have hordered := pairwise_splits core path
  rw [hsplits, List.pairwise_cons] at hordered
  refine ⟨mem_splits_iff.1 (hsplits ▸ List.mem_cons_self), fun other hother hne => ?_⟩
  have hmem := mem_splits_iff.2 hother
  rw [hsplits] at hmem
  exact hordered.1 other ((List.mem_cons.1 hmem).resolve_left hne)

/-! ## The split that the matcher finds -/

/-- What the matcher keeps of a split. -/
def Split.finish (split : Split) : Finish := ⟨split.body.captured, split.suffix⟩

theorem head?_splitsAfter (core : List Pattern) (lead cs : List Char) :
    ((splitsAfter core lead cs).head?).map Split.finish =
      firstInstance borderAt (instancesAll core cs) := by
  rw [splitsAfter, List.head?_flatMap, List.map_findSome?, firstInstance]
  congr 1
  funext ⟨body, rest⟩
  cases rest with
  | nil => simp [borderText, borderAt, Split.finish, Finish.prepend]
  | cons c rest =>
    by_cases hc : c = '/' <;> simp [borderText, borderAt, hc, Split.finish, Finish.prepend]

theorem first_tableAll (core : List Pattern) (path : List Char) :
    tableAll path core (borderTable path) =
      .tabulate (fun cs => firstInstance borderAt (instancesAll core cs)) path := by
  rw [borderTable_eq_tabulate, tableAll_tabulate]

/-- **The matcher finds the first split.** -/
theorem find_eq_head? (core : List Pattern) (path : List Char) :
    find core path = (splits core path).head?.map Split.finish := by
  rw [splits, List.head?_flatMap, List.map_findSome?]
  unfold find
  simp only [first_tableAll, Function.comp_def, head?_splitsAfter]
  cases path with
  | nil => simp [leads]
  | cons c path =>
    by_cases hc : c = '/'
    · subst hc
      rw [leads, if_pos rfl, List.findSome?_cons, List.findSome?_singleton]
      simp only [Table.first_tabulate, Table.rest_tabulate]
      cases firstInstance borderAt (instancesAll core path) <;> rfl
    · simp [leads, hc]

theorem find_eq_none_iff : find core path = none ↔ ∀ split, ¬IsSplit core path split := by
  rw [find_eq_head?, Option.map_eq_none_iff, List.head?_eq_none_iff,
    List.eq_nil_iff_forall_not_mem]
  simp only [mem_splits_iff]

theorem exists_isFirstSplit_of_find {finish : Finish} (h : find core path = some finish) :
    ∃ split, IsFirstSplit core path split ∧ split.finish = finish := by
  rw [find_eq_head?, Option.map_eq_some_iff] at h
  obtain ⟨split, hhead, hfinish⟩ := h
  exact ⟨split, isFirstSplit_of_head? hhead, hfinish⟩

/-! ## With and without the leading `/` -/

/-- The way the items match right at the start of a text, no `/` being consumed before. -/
def findAt (core : List Pattern) (cs : List Char) : Option Finish :=
  firstInstance borderAt (instancesAll core cs)

/-- A leading `/` is consumed first, and left to the items if there is no way to match after it. -/
theorem find_cons_slash (core : List Pattern) (cs : List Char) :
    find core ('/' :: cs) = (findAt core cs).or (findAt core ('/' :: cs)) := by
  simp only [find, first_tableAll, Table.rest_tabulate, Table.first_tabulate, findAt]

theorem find_of_not_slash (core : List Pattern) (h : path.head? ≠ some '/') :
    find core path = findAt core path := by
  unfold find
  split
  · exact absurd rfl h
  · rw [first_tableAll, Table.first_tabulate, findAt]

/-- Items that match alike at every place match every path alike. -/
theorem find_congr {other : List Pattern} (h : ∀ cs, findAt core cs = findAt other cs)
    (path : List Char) : find core path = find other path := by
  by_cases hpath : path.head? = some '/'
  · obtain ⟨cs, rfl⟩ := List.head?_eq_some_iff.1 hpath
    rw [find_cons_slash, find_cons_slash, h, h]
  · rw [find_of_not_slash _ hpath, find_of_not_slash _ hpath, h]

end HttpGateway.Pattern
