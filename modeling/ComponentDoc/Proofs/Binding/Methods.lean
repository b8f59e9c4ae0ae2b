import ComponentDoc.Proofs.Binding.Linked

/-!
What a definition object lists as methods. A member with a function of its own occurs once, under its name;
one that refers to a function of the top level adds a use of that function. The uses of a function are those
of one definition object, in the order of its members.
-/
namespace ComponentDoc

open Script

namespace Definition

/-- A member with a name whose value is a function; `source` is the function of the top level that it refers
to by name, if it does. -/
def IsMethod (d : Definition) (m : Member) (name : String) (source : Option String) : Prop :=
  m.name? = some name ∧ ∃ func reference, d.memberValue m = .ok (.function func reference) ∧
    reference.map FunctionName.name = source

/-- Where the key of a member stands in the file. -/
def keyPlace (d : Definition) (m : Member) : Nat :=
  (d.script.range m.keySpan).start

/-- Of the members that refer to a function, `m` is the one whose key stands first; `name` is its name. -/
def IsFirstReference (d : Definition) (members : List Member) (f : String) (m : Member) (name : String) :
    Prop :=
  d.IsMethod m name (some f) ∧ ∃ before after, members = before ++ m :: after ∧
    (∀ m' ∈ before, ∀ name', d.IsMethod m' name' (some f) → d.keyPlace m < d.keyPlace m') ∧
    ∀ m' ∈ after, ∀ name', d.IsMethod m' name' (some f) → d.keyPlace m ≤ d.keyPlace m'

theorem IsFirstReference.mem {d : Definition} {members : List Member} {f name : String} {m : Member}
    (h : d.IsFirstReference members f m name) : m ∈ members := by
  obtain ⟨_, before, after, rfl, _⟩ := h
  simp

/-- The use of a function that a member makes by referring to it. -/
def use (d : Definition) (f : String) (m : Member) (name : String) : Occurrence :=
  { d.occurrence m name .method with role := .usage, id := .declared d.scope f }

/-- The name that a member gives to a function of the top level. -/
def nameFor? (d : Definition) (f : String) (m : Member) : Option String :=
  match m.name?, d.memberValue m with
  | some name, .ok (.function _ (some ref)) => if ref.name = f then some name else none
  | _, _ => none

def use? (d : Definition) (f : String) (m : Member) : Option Occurrence :=
  (d.nameFor? f m).map (d.use f m)

theorem IsMethod.unique {d : Definition} {m : Member} {name name' : String} {source source' : Option String}
    (h : d.IsMethod m name source) (h' : d.IsMethod m name' source') : name = name' ∧ source = source' := by
  obtain ⟨hn, func, reference, hv, rfl⟩ := h
  obtain ⟨hn', func', reference', hv', rfl⟩ := h'
  rw [hn] at hn'
  rw [hv] at hv'
  cases hn'
  cases hv'
  exact ⟨rfl, rfl⟩

theorem nameFor?_eq_some_iff {d : Definition} {f : String} {m : Member} {name : String} :
    d.nameFor? f m = some name ↔ d.IsMethod m name (some f) := by
  unfold nameFor? IsMethod
  constructor
  · intro h
    split at h
    · rename_i n func ref hn hv
      split_ifs at h with hf
      obtain rfl : n = name := Option.some.inj h
      exact ⟨hn, func, some ref, hv, congrArg some hf⟩
    · cases h
  · rintro ⟨hn, func, reference, hv, hf⟩
    cases reference with
    | none => cases hf
    | some ref =>
      have hname : ref.name = f := Option.some.inj hf
      simp [hn, hv, hname]

theorem use?_eq_some_iff {d : Definition} {f : String} {m : Member} {o : Occurrence} :
    d.use? f m = some o ↔ ∃ name, d.IsMethod m name (some f) ∧ d.use f m name = o := by
  unfold use?
  rw [Option.map_eq_some_iff]
  simp only [nameFor?_eq_some_iff]

theorem use?_of_isMethod {d : Definition} {f name : String} {m : Member} (h : d.IsMethod m name (some f)) :
    d.use? f m = some (d.use f m name) :=
  use?_eq_some_iff.mpr ⟨name, h, rfl⟩

theorem use?_eq_none_iff {d : Definition} {f : String} {m : Member} :
    d.use? f m = none ↔ ∀ name, ¬ d.IsMethod m name (some f) := by
  rw [Option.eq_none_iff_forall_ne_some]
  constructor
  · intro h name hm
    exact h _ (use?_of_isMethod hm)
  · intro h o ho
    obtain ⟨name, hm, _⟩ := use?_eq_some_iff.mp ho
    exact h name hm

/-- A member lists nothing, its own function, or the function that it refers to and the use of it. -/
theorem methodOccurrences_cases {d : Definition} {m : Member} {os : List Occurrence}
    (h : d.methodOccurrences m = .ok os) :
    (os = [] ∧ ∀ name source, ¬ d.IsMethod m name source) ∨
    (∃ name o, d.IsMethod m name none ∧ os = [o] ∧
      o.id = .member name ∧ o.name = name ∧ o.role = .declaration) ∨
    ∃ name f o, d.IsMethod m name (some f) ∧ os = [o, d.use f m name] ∧
      o.id = .declared d.scope f ∧ o.name = f ∧ o.role = .declaration := by
  unfold methodOccurrences at h
  cases hn : m.name? with
  | none =>
    left
    refine ⟨by simpa [hn] using h.symm, ?_⟩
    rintro name source ⟨hname, _⟩
    rw [hn] at hname
    cases hname
  | some name =>
    simp only [hn] at h
    obtain ⟨value, hv, rfl⟩ := map_eq_ok_iff.mp h
    have hother (hno : ∀ func reference, value ≠ .function func reference) :
        ∀ name source, ¬ d.IsMethod m name source := by
      rintro name' source ⟨_, func, reference, hvalue, _⟩
      rw [hv] at hvalue
      exact hno func reference (Except.ok.inj hvalue)
    cases value with
    | function func reference =>
      right
      cases reference with
      | none => exact .inl ⟨name, _, ⟨hn, func, none, hv, rfl⟩, rfl, rfl, rfl, rfl⟩
      | some ref =>
        exact .inr ⟨name, ref.name, _, ⟨hn, func, some ref, hv, rfl⟩, rfl, rfl, rfl, rfl⟩
    | object members => exact .inl ⟨rfl, hother (by simp)⟩
    | other => exact .inl ⟨rfl, hother (by simp)⟩

/-- What a method is known by: its name, or the function that it refers to. -/
def methodId (d : Definition) (name : String) : Option String → Identity
  | none => .member name
  | some f => .declared d.scope f

theorem exists_isMethod_of_listed {d : Definition} {m : Member} {listed : List Occurrence}
    (h : d.methodOccurrences m = .ok listed) {o : Occurrence} (ho : o ∈ listed) :
    ∃ name source, d.IsMethod m name source ∧ o.id = d.methodId name source ∧
      (o.role = .declaration → o.name = source.getD name) ∧ (o.role = .usage → source ≠ none) := by
  rcases methodOccurrences_cases h with ⟨rfl, _⟩ | ⟨name, o', hm, rfl, hid, hname, hr⟩ |
    ⟨name, f, o', hm, rfl, hid, hname, hr⟩
  · cases ho
  · obtain rfl := List.mem_singleton.mp ho
    refine ⟨name, none, hm, hid, fun _ => hname, fun hu => ?_⟩
    cases hr.symm.trans hu
  · rcases List.mem_pair.mp ho with rfl | rfl
    · exact ⟨name, some f, hm, hid, fun _ => hname, fun _ => Option.some_ne_none f⟩
    · refine ⟨name, some f, hm, rfl, fun hd => ?_, fun _ => Option.some_ne_none f⟩
      cases hd

theorem exists_listed_of_isMethod {d : Definition} {m : Member} {listed : List Occurrence}
    (h : d.methodOccurrences m = .ok listed) {name : String} {source : Option String}
    (hm : d.IsMethod m name source) : ∃ o ∈ listed, o.id = d.methodId name source := by
  rcases methodOccurrences_cases h with ⟨_, hno⟩ | ⟨name', o, hm', rfl, hid, _⟩ |
    ⟨name', f, o, hm', rfl, hid, _⟩
  · exact absurd hm (hno name source)
  · obtain ⟨rfl, rfl⟩ := hm.unique hm'
    exact ⟨o, List.mem_singleton_self o, hid⟩
  · obtain ⟨rfl, rfl⟩ := hm.unique hm'
    exact ⟨o, List.mem_cons_self, hid⟩

end Definition

/-- The uses of an identity among occurrences. -/
def usesOf (id : Identity) (os : List Occurrence) : List Occurrence :=
  os.filter fun o => o.id == id && o.role == .usage

theorem mem_usesOf {id : Identity} {os : List Occurrence} {o : Occurrence} :
    o ∈ usesOf id os ↔ o ∈ os ∧ o.id = id ∧ o.role = .usage := by
  simp [usesOf]

theorem usesOf_append (id : Identity) (os os' : List Occurrence) :
    usesOf id (os ++ os') = usesOf id os ++ usesOf id os' :=
  List.filter_append os os'

namespace Definition

theorem usesOf_methodOccurrences {d : Definition} {m : Member} {os : List Occurrence}
    (h : d.methodOccurrences m = .ok os) (f : String) :
    usesOf (.declared d.scope f) os = (d.use? f m).toList := by
  rcases methodOccurrences_cases h with ⟨rfl, hno⟩ | ⟨name, o, hm, rfl, _, _, hr⟩ |
    ⟨name, g, o, hm, rfl, _, _, hr⟩
  · have hnone : d.use? f m = none := use?_eq_none_iff.mpr fun name => hno name (some f)
    rw [hnone]
    rfl
  · have hnone : d.use? f m = none := by
      refine use?_eq_none_iff.mpr fun name' hm' => ?_
      cases (hm.unique hm').2
    rw [hnone]
    simp [usesOf, hr]
  · by_cases hg : g = f
    · subst hg
      rw [use?_of_isMethod hm]
      simp [usesOf, hr, use]
    · have hnone : d.use? f m = none := by
        refine use?_eq_none_iff.mpr fun name' hm' => ?_
        exact hg (Option.some.inj (hm.unique hm').2)
      rw [hnone]
      simp [usesOf, hr, use, hg]

theorem usesOf_methods {d : Definition} {os : List Occurrence} (h : d.methods = .ok os)
    {members : List Member} (hm : d.sectionMembers "methods" = .ok members) (f : String) :
    usesOf (.declared d.scope f) os = members.filterMap (d.use? f) := by
  obtain ⟨members', oss, hm', rfl, hall⟩ := methods_eq_flatten h
  obtain rfl : members' = members := Except.ok.inj (hm'.symm.trans hm)
  clear h hm hm'
  induction hall with
  | nil => rfl
  | @cons m os members oss ho _ ih =>
    rw [List.flatten_cons, usesOf_append, usesOf_methodOccurrences ho f, ih, List.filterMap_cons]
    cases d.use? f m <;> rfl

/-- A definition object uses functions of its own script only. -/
theorem usesOf_methods_of_ne {d : Definition} {os : List Occurrence} (h : d.methods = .ok os) {scope : Nat}
    (hs : d.scope ≠ scope) (f : String) : usesOf (.declared scope f) os = [] := by
  obtain ⟨members, oss, _, rfl, hall⟩ := methods_eq_flatten h
  rw [List.eq_nil_iff_forall_not_mem]
  intro o ho
  obtain ⟨hm, hid, hr⟩ := mem_usesOf.mp ho
  obtain ⟨os, hos, hmem⟩ := List.mem_flatten.mp hm
  obtain ⟨m, _, hocc⟩ := mem_of_forall₂ hall hos
  rcases methodOccurrences_cases hocc with ⟨rfl, _⟩ | ⟨_, o', _, rfl, hid', _⟩ |
    ⟨name, g, o', _, rfl, hid', _⟩
  · cases hmem
  · obtain rfl := List.mem_singleton.mp hmem
    rw [hid'] at hid
    cases hid
  · rcases List.mem_pair.mp hmem with rfl | rfl
    · rw [hid'] at hid
      exact hs (Identity.declared.inj hid).1
    · exact hs (Identity.declared.inj hid).1

end Definition

theorem ScriptBlock.scope_of_definition? {script : ScriptBlock} {scope : Nat} {d : Definition}
    (h : script.definition? scope = .ok (some d)) : d.scope = scope := by
  unfold definition? at h
  cases he : script.defaultExport? with
  | none => simp [he] at h
  | some found =>
    obtain ⟨value, start⟩ := found
    simp only [he] at h
    obtain ⟨resolved, _, h⟩ := bind_eq_ok_iff.mp h
    split at h
    · obtain rfl := Option.some.inj (Except.ok.inj h)
      rfl
    · cases h

namespace Component

theorem scope_lt_of_numbered {scripts : List ScriptBlock} {n : Nat} {found : List (Option Definition)}
    (h : List.Forall₂ (fun (p : Nat × ScriptBlock) r => p.2.definition? p.1 = .ok r)
      (numbered n scripts) found) :
    (∀ d ∈ found.filterMap id, n ≤ d.scope) ∧
      (found.filterMap id).Pairwise fun d d' => d.scope < d'.scope := by
  induction scripts generalizing n found with
  | nil =>
    cases h
    simp
  | cons script scripts ih =>
    cases h with
    | @cons _ r _ rest hr hrest =>
      obtain ⟨hle, hpair⟩ := ih hrest
      cases r with
      | none =>
        refine ⟨fun d hd => ?_, hpair⟩
        have hd' := hle d hd
        omega
      | some d =>
        have hd : d.scope = n := ScriptBlock.scope_of_definition? hr
        have hcons : (some d :: rest).filterMap id = d :: rest.filterMap id := rfl
        rw [hcons, List.forall_mem_cons, List.pairwise_cons]
        refine ⟨⟨hd.ge, ?_⟩, ?_, hpair⟩
        · intro d' hd'
          have hle' := hle d' hd'
          omega
        · intro d' hd'
          have hle' := hle d' hd'
          omega

/-- Each script has a number of its own, and so has its definition object. -/
theorem scope_lt_of_definitions {c : Component} {ds : List Definition} (h : c.definitions = .ok ds) :
    ds.Pairwise fun d d' => d.scope < d'.scope := by
  obtain ⟨found, hf, h⟩ := bind_eq_ok_iff.mp h
  obtain rfl : found.filterMap id = ds := Except.ok.inj h
  exact (scope_lt_of_numbered (mapM_eq_ok_iff.mp hf)).2

/-- The uses of a function of a script are those that the definition object of this script makes. -/
theorem usesOf_defined {c : Component} {os : List Occurrence} (h : c.defined Definition.methods = .ok os)
    {ds : List Definition} (hds : c.definitions = .ok ds) {d : Definition} (hd : d ∈ ds)
    {members : List Member} (hm : d.sectionMembers "methods" = .ok members) (f : String) :
    usesOf (.declared d.scope f) os = members.filterMap (d.use? f) := by
  obtain ⟨ds', oss, hds', rfl, hall⟩ := defined_eq_ok h
  obtain rfl : ds' = ds := Except.ok.inj (hds'.symm.trans hds)
  have hlt := scope_lt_of_definitions hds
  clear h hds hds'
  induction hall with
  | nil => cases hd
  | @cons first os ds oss ho hrest ih =>
    obtain ⟨hfirst, hlt⟩ := List.pairwise_cons.mp hlt
    rw [List.flatten_cons, usesOf_append]
    rcases List.mem_cons.mp hd with rfl | hin
    · -- All definition objects after it have other numbers.
      have hnone : usesOf (.declared d.scope f) oss.flatten = [] := by
        rw [List.eq_nil_iff_forall_not_mem]
        intro o hu
        obtain ⟨hm, huse⟩ := mem_usesOf.mp hu
        obtain ⟨os', hos', ho'⟩ := List.mem_flatten.mp hm
        obtain ⟨d', hd', hmethods⟩ := mem_of_forall₂ hrest hos'
        have hu' : o ∈ usesOf (.declared d.scope f) os' := mem_usesOf.mpr ⟨ho', huse⟩
        rw [Definition.usesOf_methods_of_ne hmethods (hfirst d' hd').ne' f] at hu'
        cases hu'
      rw [hnone, List.append_nil]
      exact Definition.usesOf_methods ho hm f
    · rw [Definition.usesOf_methods_of_ne ho (hfirst d hin).ne f, List.nil_append]
      exact ih hin hlt

section

variable {c : Component} {os : List Occurrence} (h : c.defined Definition.methods = .ok os)
  {ds : List Definition} (hds : c.definitions = .ok ds)
include h hds

/-- Every occurrence is that of a method, and is known by what this method is known by. -/
theorem exists_isMethod_of_mem {o : Occurrence} (ho : o ∈ os) :
    ∃ d ∈ ds, ∃ members, d.sectionMembers "methods" = .ok members ∧
      ∃ m ∈ members, ∃ name source, d.IsMethod m name source ∧ o.id = d.methodId name source ∧
        (o.role = .declaration → o.name = source.getD name) ∧ (o.role = .usage → source ≠ none) := by
  obtain ⟨ds', oss, hds', rfl, hall⟩ := defined_eq_ok h
  obtain rfl : ds' = ds := Except.ok.inj (hds'.symm.trans hds)
  obtain ⟨os, hos, ho⟩ := List.mem_flatten.mp ho
  obtain ⟨d, hd, hmethods⟩ := mem_of_forall₂ hall hos
  obtain ⟨members, lists, hm, rfl, hlists⟩ := Definition.methods_eq_flatten hmethods
  obtain ⟨listed, hin, ho⟩ := List.mem_flatten.mp ho
  obtain ⟨m, hmem, hl⟩ := mem_of_forall₂ hlists hin
  exact ⟨d, hd, members, hm, m, hmem, Definition.exists_isMethod_of_listed hl ho⟩

/-- Every method of a definition object occurs. -/
theorem exists_mem_of_isMethod {d : Definition} (hd : d ∈ ds) {members : List Member}
    (hm : d.sectionMembers "methods" = .ok members) {m : Member} (hin : m ∈ members) {name : String}
    {source : Option String} (hmethod : d.IsMethod m name source) :
    ∃ o ∈ os, o.id = d.methodId name source := by
  obtain ⟨ds', oss, hds', rfl, hall⟩ := defined_eq_ok h
  obtain rfl : ds' = ds := Except.ok.inj (hds'.symm.trans hds)
  obtain ⟨os, hos, hmethods⟩ := mem_of_forall₂_left hall hd
  obtain ⟨members', lists, hm', rfl, hlists⟩ := Definition.methods_eq_flatten hmethods
  obtain rfl : members' = members := Except.ok.inj (hm'.symm.trans hm)
  obtain ⟨listed, hlist, hl⟩ := mem_of_forall₂_left hlists hin
  obtain ⟨o, ho, hid⟩ := Definition.exists_listed_of_isMethod hl hmethod
  have hmem : o ∈ lists.flatten := List.mem_flatten.mpr ⟨listed, hlist, ho⟩
  exact ⟨o, List.mem_flatten.mpr ⟨lists.flatten, hos, hmem⟩, hid⟩

end

end Component

end ComponentDoc
