import ComponentDoc.Binding.Symbols
import Mathlib

namespace ComponentDoc.Symbols

open Script

/-- The name is that of a variable whose value is another name. -/
def IsAlias (symbols : Symbols) (name next : String) : Prop :=
  ∃ init span id, symbols.get? name = some (.var (some init) span) ∧ init.unwrap = .ident id ∧ id.name = next

/-- From a name to the one that so many hops lead to. -/
inductive LeadsTo (symbols : Symbols) : Nat → String → String → Prop
  | here (name : String) : LeadsTo symbols 0 name name
  | hop {hops : Nat} {name next last : String} (first : symbols.IsAlias name next)
      (rest : LeadsTo symbols hops next last) : LeadsTo symbols (hops + 1) name last

/-- What a name stands for that leads no further. -/
inductive StandsFor (symbols : Symbols) (name : String) : Except ExtractError Resolved → Prop
  | unbound (h : symbols.get? name = none) : StandsFor symbols name (.error (.unresolvedReference name))
  | imported (h : symbols.get? name = some .imported) : StandsFor symbols name (.ok .unknown)
  | unset {span : Text.Span} (h : symbols.get? name = some (.var none span)) :
      StandsFor symbols name (.ok .unknown)
  | function {func : Func} {ident : Text.Span} {start : Nat}
      (h : symbols.get? name = some (.function func ident start)) :
      StandsFor symbols name (.ok (.function name func ident start))
  | value {init : Expr} {span : Text.Span} (h : symbols.get? name = some (.var (some init) span))
      (hvalue : ∀ id, init.unwrap ≠ .ident id) : StandsFor symbols name (.ok (.expr init.unwrap))

variable {symbols : Symbols}

theorem IsAlias.unique {name next next' : String} (h : symbols.IsAlias name next)
    (h' : symbols.IsAlias name next') : next = next' := by
  obtain ⟨init, span, id, hget, hvalue, rfl⟩ := h
  obtain ⟨init', span', id', hget', hvalue', rfl⟩ := h'
  have hinit : init = init' := by
    have hsame := hget.symm.trans hget'
    simp only [Option.some.injEq, Symbol.var.injEq] at hsame
    exact hsame.1
  rw [hinit, hvalue'] at hvalue
  simp only [Expr.ident.injEq] at hvalue
  rw [hvalue]

theorem StandsFor.not_isAlias {name : String} {result : Except ExtractError Resolved}
    (h : symbols.StandsFor name result) (next : String) : ¬ symbols.IsAlias name next := by
  rintro ⟨init, span, id, hget, hvalue, _⟩
  cases h with
  | unbound h => simp [h] at hget
  | imported h => simp [h] at hget
  | unset h => simp [h] at hget
  | function h => simp [h] at hget
  | value h hno =>
    have hinit := h.symm.trans hget
    simp only [Option.some.injEq, Symbol.var.injEq] at hinit
    rw [hinit.1] at hno
    exact hno id hvalue

/-- A look-up either leads on or settles the search. -/
theorem isAlias_or_standsFor (symbols : Symbols) (name : String) :
    (∃ next, symbols.IsAlias name next) ∨ ∃ result, symbols.StandsFor name result := by
  cases hget : symbols.get? name with
  | none => exact .inr ⟨_, .unbound hget⟩
  | some symbol =>
    cases symbol with
    | imported => exact .inr ⟨_, .imported hget⟩
    | function func ident start => exact .inr ⟨_, .function hget⟩
    | var value span =>
      cases value with
      | none => exact .inr ⟨_, .unset hget⟩
      | some init =>
        by_cases hid : ∃ id, init.unwrap = .ident id
        · obtain ⟨id, hvalue⟩ := hid
          exact .inl ⟨id.name, init, span, id, hget, hvalue, rfl⟩
        · exact .inr ⟨_, .value hget fun id hvalue => hid ⟨id, hvalue⟩⟩

theorem follow_of_isAlias {name next : String} (h : symbols.IsAlias name next) (n : Nat) :
    symbols.follow (n + 1) name = symbols.follow n next := by
  obtain ⟨init, span, id, hget, hvalue, rfl⟩ := h
  simp only [follow, hget, hvalue]

theorem follow_of_standsFor {name : String} {result : Except ExtractError Resolved}
    (h : symbols.StandsFor name result) (n : Nat) : symbols.follow (n + 1) name = result := by
  cases h with
  | unbound h => simp only [follow, h]
  | imported h => simp only [follow, h]
  | unset h => simp only [follow, h]
  | function h => simp only [follow, h]
  | value h hno =>
    simp only [follow, h]

/-- A chain of names stops at one place at the most, since every hop leads to one name. -/
theorem LeadsTo.unique {hops hops' : Nat} {name last last' : String}
    {result result' : Except ExtractError Resolved} (h : symbols.LeadsTo hops name last)
    (hlast : symbols.StandsFor last result) (h' : symbols.LeadsTo hops' name last')
    (hlast' : symbols.StandsFor last' result') : hops = hops' ∧ last = last' := by
  induction h generalizing hops' with
  | here name =>
    cases h' with
    | here => exact ⟨rfl, rfl⟩
    | hop first _ => exact absurd first (hlast.not_isAlias _)
  | hop first _ ih =>
    cases h' with
    | here => exact absurd first (hlast'.not_isAlias _)
    | hop first' rest' =>
      obtain rfl := first.unique first'
      obtain ⟨rfl, rfl⟩ := ih hlast rest'
      exact ⟨rfl, rfl⟩

theorem follow_of_leadsTo {hops n : Nat} {name last : String} {result : Except ExtractError Resolved}
    (h : symbols.LeadsTo hops name last) (hlast : symbols.StandsFor last result) (hn : hops < n) :
    symbols.follow n name = result := by
  induction h generalizing n with
  | here name =>
    obtain ⟨m, rfl⟩ := Nat.exists_eq_add_of_lt hn
    exact follow_of_standsFor hlast _
  | hop first _ ih =>
    obtain ⟨m, rfl⟩ := Nat.exists_eq_succ_of_ne_zero (Nat.ne_zero_of_lt hn)
    rw [follow_of_isAlias first]
    exact ih hlast (Nat.lt_of_succ_lt_succ hn)

/-- Where no name within reach leads nowhere else, nothing is known. -/
theorem follow_eq_unknown {n : Nat} {name : String}
    (h : ∀ hops last result, hops < n → symbols.LeadsTo hops name last → ¬ symbols.StandsFor last result) :
    symbols.follow n name = .ok .unknown := by
  induction n generalizing name with
  | zero => rfl
  | succ n ih =>
    rcases symbols.isAlias_or_standsFor name with ⟨next, hnext⟩ | ⟨result, hstands⟩
    · rw [follow_of_isAlias hnext]
      apply ih
      intro hops last result hlt hleads
      exact h (hops + 1) last result (Nat.succ_lt_succ hlt) (.hop hnext hleads)
    · exact absurd hstands (h 0 name result (Nat.succ_pos n) (.here name))

theorem LeadsTo.trans {hops hops' : Nat} {name mid last : String} (h : symbols.LeadsTo hops name mid)
    (h' : symbols.LeadsTo hops' mid last) : symbols.LeadsTo (hops + hops') name last := by
  induction h with
  | here name => rwa [Nat.zero_add]
  | hop first _ ih =>
    rw [Nat.add_right_comm]
    exact .hop first (ih h')

/-- A chain that comes back to where it started stops nowhere: one more round would stop there too, and later. -/
theorem LeadsTo.not_standsFor_of_cycle {round hops : Nat} {name last : String}
    {result : Except ExtractError Resolved} (hround : symbols.LeadsTo (round + 1) name name)
    (h : symbols.LeadsTo hops name last) : ¬ symbols.StandsFor last result := by
  intro hlast
  have hsame := (hround.trans h).unique hlast h hlast
  omega

theorem resolveName_of_cycle {round : Nat} {name : String} (h : symbols.LeadsTo (round + 1) name name) :
    symbols.resolveName name = .ok .unknown :=
  follow_eq_unknown fun _ _ _ _ hleads => h.not_standsFor_of_cycle hleads

/-- A name stands for what the first name stands for that leads no further, if it is fewer than eight hops away.
If each of the names fewer than eight hops away leads on, nothing is known. -/
theorem resolveName_eq_iff_leadsTo (symbols : Symbols) (name : String) (result : Except ExtractError Resolved) :
    symbols.resolveName name = result ↔
      (∃ hops last, hops < 8 ∧ symbols.LeadsTo hops name last ∧ symbols.StandsFor last result) ∨
      ((∀ hops last, hops < 8 → symbols.LeadsTo hops name last → ∃ next, symbols.IsAlias last next) ∧
        result = .ok .unknown) := by
  constructor
  · rintro rfl
    by_cases hstop : ∃ hops last result, hops < 8 ∧ symbols.LeadsTo hops name last ∧ symbols.StandsFor last result
    · obtain ⟨hops, last, result, hlt, hleads, hlast⟩ := hstop
      have hresult : symbols.resolveName name = result := follow_of_leadsTo hleads hlast hlt
      rw [hresult]
      exact .inl ⟨hops, last, hlt, hleads, hlast⟩
    · refine .inr ⟨?_, follow_eq_unknown fun hops last result hlt hleads hlast =>
        hstop ⟨hops, last, result, hlt, hleads, hlast⟩⟩
      intro hops last hlt hleads
      rcases symbols.isAlias_or_standsFor last with hnext | ⟨result, hlast⟩
      · exact hnext
      · exact absurd ⟨hops, last, result, hlt, hleads, hlast⟩ hstop
  · rintro (⟨hops, last, hlt, hleads, hlast⟩ | ⟨hon, rfl⟩)
    · exact follow_of_leadsTo hleads hlast hlt
    · apply follow_eq_unknown
      intro hops last result hlt hleads hlast
      obtain ⟨next, hnext⟩ := hon hops last hlt hleads
      exact hlast.not_isAlias next hnext

end ComponentDoc.Symbols
