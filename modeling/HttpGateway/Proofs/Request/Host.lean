import HttpGateway.Request.Host
import Mathlib.Data.List.Basic

/-!
# The host of an authority

A text has one of four forms (`HostForm`): a host in brackets with anything after it, a bracket that
is not closed, a name with a port, or a text that is a host as a whole. `hostPart` takes the host of
the form (`HostForm.hostPart_eq`), every text has a form (`exists_hostForm`), and a host has itself
as host (`HostForm.hasItself`). So splitting a port off undoes joining it, and does nothing a second
time (`hostPart_undoes_port`).
-/

namespace HttpGateway

/-- What a text is made of, with the host that it starts with. -/
inductive HostForm : List Char → List Char → Prop
  | bracketed {name rest : List Char} :
    ']' ∉ name → HostForm ('[' :: (name ++ ']' :: rest)) ('[' :: (name ++ [']']))
  | unclosed {cs : List Char} : ']' ∉ cs → HostForm ('[' :: cs) ('[' :: cs)
  | withPort {name port : List Char} :
    name.head? ≠ some '[' → ':' ∉ name → ':' ∉ port → HostForm (name ++ ':' :: port) name
  /-- A name alone, or an address with several colons. -/
  | whole {cs : List Char} : cs.head? ≠ some '[' → cs.count ':' ≠ 1 → HostForm cs cs

variable {cs host : List Char}

/-! ## Looking for a character -/

theorem throughFirst?_append {c : Char} {before : List Char} (h : c ∉ before) (after : List Char) :
    throughFirst? c (before ++ c :: after) = some (before ++ [c]) := by
  induction before with
  | nil => rw [List.nil_append, throughFirst?, if_pos rfl, List.nil_append]
  | cons d before ih =>
    obtain ⟨hd, hbefore⟩ := not_or.1 (List.mem_cons.not.1 h)
    rw [List.cons_append, throughFirst?, if_neg (Ne.symm hd), ih hbefore]
    rfl

theorem throughFirst?_eq_none {c : Char} (h : c ∉ cs) : throughFirst? c cs = none := by
  induction cs with
  | nil => rfl
  | cons d cs ih =>
    obtain ⟨hd, hcs⟩ := not_or.1 (List.mem_cons.not.1 h)
    rw [throughFirst?, if_neg (Ne.symm hd), ih hcs]
    rfl

/-! ## The forms -/

theorem hostPart_of_bracket (cs : List Char) :
    hostPart (String.ofList ('[' :: cs)) =
      match throughFirst? ']' cs with
      | some name => String.ofList ('[' :: name)
      | none => String.ofList ('[' :: cs) := by
  rw [hostPart, String.toList_ofList]
  rfl

theorem hostPart_of_not_bracket (h : cs.head? ≠ some '[') :
    hostPart (String.ofList cs) =
      if cs.count ':' = 1 then String.ofList (cs.takeWhile (· != ':')) else String.ofList cs := by
  rw [hostPart, String.toList_ofList]
  split
  · exact absurd rfl h
  · rfl

/-- The host of a text is that of its form. -/
theorem HostForm.hostPart_eq (h : HostForm cs host) :
    hostPart (String.ofList cs) = String.ofList host := by
  cases h with
  | bracketed hname => rw [hostPart_of_bracket, throughFirst?_append hname]
  | unclosed hcs => rw [hostPart_of_bracket, throughFirst?_eq_none hcs]
  | @withPort name port hhead hname hport =>
    have hopen : (host ++ ':' :: port).head? ≠ some '[' := by
      cases host with
      | nil => simp
      | cons c name => exact hhead
    have hcount : (host ++ ':' :: port).count ':' = 1 := by
      rw [List.count_append, List.count_cons_self, List.count_eq_zero_of_not_mem hname,
        List.count_eq_zero_of_not_mem hport]
    have htake : (host ++ ':' :: port).takeWhile (· != ':') = host := by
      have hall : ∀ c ∈ host, (c != ':') = true := fun c hc =>
        bne_iff_ne.2 fun heq => hname (heq ▸ hc)
      rw [List.takeWhile_append_of_pos hall, List.takeWhile_cons_of_neg (by decide),
        List.append_nil]
    rw [hostPart_of_not_bracket hopen, if_pos hcount, htake]
  | whole hhead hcount => rw [hostPart_of_not_bracket hhead, if_neg hcount]

/-- Every text has a form. -/
theorem exists_hostForm (cs : List Char) : ∃ host, HostForm cs host := by
  by_cases hhead : cs.head? = some '['
  · obtain ⟨cs, rfl⟩ := List.head?_eq_some_iff.1 hhead
    by_cases hmem : ']' ∈ cs
    · obtain ⟨name, rest, rfl, hname⟩ := List.eq_append_cons_of_mem hmem
      exact ⟨_, .bracketed hname⟩
    · exact ⟨_, .unclosed hmem⟩
  · by_cases hcount : cs.count ':' = 1
    · have hmem : ':' ∈ cs := List.count_pos_iff.1 (by omega)
      obtain ⟨name, port, rfl, hname⟩ := List.eq_append_cons_of_mem hmem
      rw [List.count_append, List.count_cons_self, List.count_eq_zero_of_not_mem hname] at hcount
      have hport : ':' ∉ port := List.count_eq_zero.1 (by omega)
      refine ⟨_, .withPort (fun h => hhead ?_) hname hport⟩
      obtain ⟨name, rfl⟩ := List.head?_eq_some_iff.1 h
      rfl
    · exact ⟨_, .whole hhead hcount⟩

theorem hostForm_hostPart (text : String) : HostForm text.toList (hostPart text).toList := by
  obtain ⟨host, h⟩ := exists_hostForm text.toList
  have heq := h.hostPart_eq
  rw [String.ofList_toList] at heq
  rwa [heq, String.toList_ofList]

/-- A host is the start of its text. -/
theorem HostForm.isPrefix (h : HostForm cs host) : host <+: cs := by
  cases h with
  | @bracketed name rest _ => exact ⟨rest, by simp⟩
  | withPort _ _ _ => exact List.prefix_append _ _
  | unclosed _ => exact List.prefix_refl _
  | whole _ _ => exact List.prefix_refl _

/-- A host has itself as host. -/
theorem HostForm.hasItself (h : HostForm cs host) : HostForm host host := by
  cases h with
  | bracketed hname => exact .bracketed hname
  | unclosed hcs => exact .unclosed hcs
  | withPort hhead hname _ =>
    exact .whole hhead (by rw [List.count_eq_zero_of_not_mem hname]; exact Nat.zero_ne_one)
  | whole hhead hcount => exact .whole hhead hcount

/-- The host of a text of which the form is known. -/
theorem hostPart_eq_of_hostForm {text name : String} (h : HostForm text.toList name.toList) :
    hostPart text = name := by
  have heq := h.hostPart_eq
  rwa [String.ofList_toList, String.ofList_toList] at heq

/-- **Splitting a port off undoes joining it.** The host is the start of the text and has itself as
host. A name without a colon is the host of itself and of itself with a port, a name in brackets is
a host whatever comes after it, and a text with two colons or with a bracket that is not closed is
a host as a whole. -/
theorem hostPart_undoes_port :
    (∀ text : String, (hostPart text).toList <+: text.toList ∧
      hostPart (hostPart text) = hostPart text) ∧
    (∀ name : String, ':' ∉ name.toList → name.toList.head? ≠ some '[' →
      hostPart name = name ∧
        ∀ port : String, ':' ∉ port.toList → hostPart (name ++ ":" ++ port) = name) ∧
    (∀ name rest : String, ']' ∉ name.toList →
      hostPart ("[" ++ name ++ "]" ++ rest) = "[" ++ name ++ "]") ∧
    (∀ text : String, text.toList.head? ≠ some '[' → 2 ≤ text.toList.count ':' →
      hostPart text = text) ∧
    ∀ text : String, text.toList.head? = some '[' → ']' ∉ text.toList → hostPart text = text := by
  refine ⟨fun text => ?_, fun name hname hhead => ⟨?_, fun port hport => ?_⟩,
    fun name rest hname => ?_, fun text hhead hcount => ?_, fun text hhead hmem => ?_⟩
  · have hform := hostForm_hostPart text
    exact ⟨hform.isPrefix, hostPart_eq_of_hostForm hform.hasItself⟩
  · refine hostPart_eq_of_hostForm (.whole hhead ?_)
    rw [List.count_eq_zero_of_not_mem hname]
    exact Nat.zero_ne_one
  · apply hostPart_eq_of_hostForm
    have htext : (name ++ ":" ++ port).toList = name.toList ++ ':' :: port.toList := by simp
    rw [htext]
    exact .withPort hhead hname hport
  · apply hostPart_eq_of_hostForm
    have htext : ("[" ++ name ++ "]" ++ rest).toList =
        '[' :: (name.toList ++ ']' :: rest.toList) := by simp
    have hhost : ("[" ++ name ++ "]").toList = '[' :: (name.toList ++ [']']) := by simp
    rw [htext, hhost]
    exact .bracketed hname
  · exact hostPart_eq_of_hostForm (.whole hhead (by omega))
  · apply hostPart_eq_of_hostForm
    obtain ⟨cs, hcs⟩ := List.head?_eq_some_iff.1 hhead
    rw [hcs] at hmem ⊢
    exact .unclosed fun h => hmem (List.mem_cons_of_mem _ h)

end HttpGateway
