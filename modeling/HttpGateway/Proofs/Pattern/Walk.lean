import HttpGateway.Pattern.Written
import HttpGateway.Proofs.Pattern.Rules

/-!
# What a walk meets

The visits of a walk are bracketed (`bracketed_visits`), they write the pattern
(`spell_eq_flatMap_visits`), and their captures are its names. A visitor is a list of callbacks,
one for each kind of visit, which may fail and whose state outlives a failure. `Fed` says which
visits are made when callbacks are fed with a list: all up to and including the first one that
fails. A walk feeds its callbacks with the visits of the pattern, makes just these, and has their
outcome (`walk_feeds_visits`).
-/

namespace HttpGateway

/-! ## The visits as they are written -/

namespace Visit

/-- How a visit is written. -/
def spell : Visit → List Char
  | .literal text => text.toList.flatMap Pattern.spellChar
  | .separator => ['/']
  | .capture name => ':' :: name.toList
  | .wildcard => ['*']
  | .enter => ['(']
  | .leave => [')']

/-- Each border of an optional has its counterpart. -/
inductive Bracketed : List Visit → Prop
  | nil : Bracketed []
  | leaf {v : Visit} {vs : List Visit} : v.isLeaf = true → Bracketed vs → Bracketed (v :: vs)
  | group {inner rest : List Visit} :
    Bracketed inner → Bracketed rest → Bracketed (.enter :: (inner ++ .leave :: rest))

theorem Bracketed.append {vs ws : List Visit} (h : Bracketed vs) (hw : Bracketed ws) :
    Bracketed (vs ++ ws) := by
  induction h with
  | nil => exact hw
  | leaf hv _ ih => exact .leaf hv ih
  | group hinner _ _ ih =>
    rw [List.cons_append, List.append_assoc, List.cons_append]
    exact .group hinner ih

end Visit

namespace Pattern

open Visit

mutual

theorem bracketed_visits : ∀ p : Pattern, Bracketed (visits p)
  | .literal _ => .leaf rfl .nil
  | .separator => .leaf rfl .nil
  | .capture _ => .leaf rfl .nil
  | .wildcard => .leaf rfl .nil
  | .optional child => .group (bracketed_visits child) .nil
  | .sequence children => bracketed_visitsAll children

theorem bracketed_visitsAll : ∀ ps : List Pattern, Bracketed (visitsAll ps)
  | [] => .nil
  | p :: ps => (bracketed_visits p).append (bracketed_visitsAll ps)

end

mutual

/-- A pattern is written visit by visit. -/
theorem spell_eq_flatMap_visits : ∀ p : Pattern, spell p = (visits p).flatMap Visit.spell
  | .literal _ => (List.flatMap_singleton _ _).symm
  | .separator => rfl
  | .capture _ => (List.flatMap_singleton _ _).symm
  | .wildcard => rfl
  | .optional child => by
    rw [spell, visits, List.flatMap_cons, List.flatMap_append, List.flatMap_singleton,
      spell_eq_flatMap_visits child]
    rfl
  | .sequence children => spellAll_eq_flatMap_visitsAll children

theorem spellAll_eq_flatMap_visitsAll : ∀ ps : List Pattern,
    spellAll ps = (visitsAll ps).flatMap Visit.spell
  | [] => rfl
  | p :: ps => by
    rw [spellAll, visitsAll, List.flatMap_append, spell_eq_flatMap_visits p,
      spellAll_eq_flatMap_visitsAll ps]

end

end Pattern

/-! ## Callbacks -/

/-- The callbacks of a visitor. They may fail, and the state outlives a failure. -/
abbrev Callbacks (ε σ : Type) := Visit → ExceptT ε (StateM σ) Unit

/-- How an action ends: with a result, and with the state that it leaves. -/
abbrev Ending (ε σ : Type) := Except ε Unit × σ

/-- How an action ends that starts in a state. -/
def Ending.of {ε σ : Type} (action : ExceptT ε (StateM σ) Unit) (s : σ) : Ending ε σ :=
  action.run.run s

namespace Callbacks

variable {ε σ : Type} {visit : Callbacks ε σ} {vs made : List Visit} {s : σ} {ending : Ending ε σ}

/-- The same callbacks, with a log of the visits that are made. -/
def logged (visit : Callbacks ε σ) : Callbacks ε (σ × List Visit) := fun v =>
  ExceptT.mk fun (s, log) =>
    let (result, t) := Ending.of (visit v) s
    (result, (t, log ++ [v]))

/-- The callbacks fed with a list of visits: those that are made, and how it ends. -/
inductive Fed (visit : Callbacks ε σ) : List Visit → σ → List Visit → Ending ε σ → Prop
  | done {s : σ} : Fed visit [] s [] (.ok (), s)
  | next {v : Visit} {vs made : List Visit} {s t : σ} {ending : Ending ε σ} :
    Ending.of (visit v) s = (.ok (), t) → Fed visit vs t made ending →
      Fed visit (v :: vs) s (v :: made) ending
  | fails {v : Visit} {vs : List Visit} {s t : σ} {error : ε} :
    Ending.of (visit v) s = (.error error, t) → Fed visit (v :: vs) s [v] (.error error, t)

/-- No callback fails in any state. -/
def NeverFails (visit : Callbacks ε σ) : Prop :=
  ∀ v s, ∃ t, Ending.of (visit v) s = (.ok (), t)

theorem exists_fed (visit : Callbacks ε σ) (vs : List Visit) (s : σ) :
    ∃ made ending, Fed visit vs s made ending := by
  induction vs generalizing s with
  | nil => exact ⟨_, _, .done⟩
  | cons v vs ih =>
    rcases hv : Ending.of (visit v) s with ⟨_ | ⟨⟩, t⟩
    · exact ⟨_, _, .fails hv⟩
    · obtain ⟨made, ending, h⟩ := ih t
      exact ⟨_, _, .next hv h⟩

/-- If no callback fails, all visits are made. -/
theorem Fed.made_eq (h : Fed visit vs s made ending) (hnever : visit.NeverFails) : made = vs := by
  induction h with
  | done => rfl
  | next _ _ ih => rw [ih]
  | @fails v _ s _ _ hv =>
    obtain ⟨t, ht⟩ := hnever v s
    rw [ht] at hv
    cases hv

/-- How an action ends that runs a callback first. -/
theorem ending_bind (visit : Callbacks ε σ) (v : Visit) (rest : ExceptT ε (StateM σ) Unit) (s : σ) :
    Ending.of (visit v >>= fun _ => rest) s =
      match Ending.of (visit v) s with
      | (.ok (), t) => Ending.of rest t
      | (.error error, t) => (.error error, t) := by
  show ((visit v).run >>= ExceptT.bindCont fun _ => rest).run s = _
  rw [StateT.run_bind]
  show ExceptT.bindCont (fun _ => rest) (Ending.of (visit v) s).1 (Ending.of (visit v) s).2 = _
  rcases Ending.of (visit v) s with ⟨_ | ⟨⟩, t⟩ <;> rfl

/-- Callbacks that run in order end as they do when they are fed. -/
theorem Fed.ending_forM (h : Fed visit vs s made ending) :
    Ending.of (forM vs visit) s = ending := by
  induction h with
  | done => rfl
  | next hv _ ih =>
    rw [List.forM_cons, ending_bind, hv]
    exact ih
  | fails hv => rw [List.forM_cons, ending_bind, hv]

/-- The log holds the visits that are made. -/
theorem Fed.logged (h : Fed visit vs s made ending) (log : List Visit) :
    Fed visit.logged vs (s, log) made (ending.1, (ending.2, log ++ made)) := by
  have hlogged : ∀ v s log, Ending.of (visit.logged v) (s, log) =
      ((Ending.of (visit v) s).1, ((Ending.of (visit v) s).2, log ++ [v])) := fun _ _ _ => rfl
  induction h generalizing log with
  | done =>
    rw [List.append_nil]
    exact .done
  | @next v _ _ s t _ hv _ ih =>
    have hfirst : Ending.of (visit.logged v) (s, log) = (.ok (), (t, log ++ [v])) := by
      rw [hlogged, hv]
    rw [List.append_cons]
    exact .next hfirst (ih (log ++ [v]))
  | fails hv => exact .fails (by rw [hlogged, hv])

end Callbacks

namespace Pattern

variable {ε σ : Type} {visit : Callbacks ε σ} {p : Pattern} {made : List Visit} {s : σ}
  {ending : Ending ε σ}

/-- A walk feeds its callbacks with the visits of the pattern. -/
theorem ending_walk (h : visit.Fed (visits p) s made ending) :
    Ending.of (walk visit p) s = ending := by
  rw [walk_eq_forM, h.ending_forM]

/-- **A walk meets what is written, in order, and stops where it is told.** The visits are
bracketed, they write the pattern, and their captures are its names. A walk runs its action at each
of them, in any monad. A visitor's callbacks are made for them up to and including the first one
that fails, and for all of them if none fails, and the walk ends as the last one does. -/
theorem walk_feeds_visits (p : Pattern) :
    Visit.Bracketed (visits p) ∧ String.ofList ((visits p).flatMap Visit.spell) = p.text ∧
    (visits p).filterMap Visit.captured? = p.captureNames ∧
    (∀ {m : Type → Type} [Monad m] [LawfulMonad m] (visit : Visit → m Unit),
      walk visit p = forM (visits p) visit) ∧
    ∀ {ε σ : Type} (visit : Callbacks ε σ) (s : σ), ∃ made ending,
      visit.Fed (visits p) s made ending ∧ Ending.of (walk visit p) s = ending ∧
      (∀ log, Ending.of (walk visit.logged p) (s, log) = (ending.1, (ending.2, log ++ made))) ∧
      (visit.NeverFails → made = visits p) := by
  refine ⟨bracketed_visits p, ?_, (captureNames_eq_filterMap p).symm,
    fun visit => walk_eq_forM visit p, fun visit s => ?_⟩
  · rw [← spell_eq_flatMap_visits, text]
  · obtain ⟨made, ending, hfed⟩ := visit.exists_fed (visits p) s
    exact ⟨made, ending, hfed, ending_walk hfed, fun log => ending_walk (hfed.logged log),
      hfed.made_eq⟩

end Pattern

end HttpGateway
