import ComponentDoc.Proofs.Component.Scan
import ComponentDoc.Proofs.Text.Place

/-!
The parts of a file that are found from left to right. They are told by three properties: each of them can be
read where it starts, no two overlap, and wherever one can be read one of them stands. Lists of parts are so
compared by what can be read at each place, without going through the text.
-/
namespace ComponentDoc

open Text

theorem Text.Span.has_iff {s : Span} {n : Nat} : s.has n ↔ s.start ≤ n ∧ n < s.stop := by
  simp [Span.has, Nat.blt_eq]

/-- A part that opens in a span and ends in it. -/
theorem Text.Span.has_of_within {s part : Span} (hstart : s.has part.start) (hstop : part.stop ≤ s.stop)
    {n : Nat} (hn : part.has n) : s.has n := by
  rw [Span.has_iff] at *
  omega

namespace Component

variable {α : Type}

/-- Parts in their order in the file, none of which overlaps another. -/
structure Apart (span : α → Span) (parts : List α) : Prop where
  nonempty : ∀ a ∈ parts, (span a).start < (span a).stop
  pairwise : parts.Pairwise fun a b => (span a).stop ≤ (span b).start

/-- The parts are the leftmost ones of those with a property. -/
structure Leftmost (span : α → Span) (P : α → Prop) (parts : List α) : Prop extends Apart span parts where
  sound : ∀ a ∈ parts, P a
  complete : ∀ a, P a → ∃ b ∈ parts, (span b).has (span a).start

variable {span : α → Span} {P : α → Prop} {parts parts' : List α}

namespace Apart

theorem filter (h : Apart span parts) (keep : α → Bool) : Apart span (parts.filter keep) where
  nonempty a ha := h.nonempty a (List.mem_of_mem_filter ha)
  pairwise := h.pairwise.filter keep

/-- A part starts in no other. -/
theorem eq_of_has (h : Apart span parts) {a b : α} (ha : a ∈ parts) (hb : b ∈ parts)
    (hab : (span a).has (span b).start) : a = b := by
  by_contra hne
  have hapart : parts.Pairwise fun a b => (span a).stop ≤ (span b).start ∨ (span b).stop ≤ (span a).start :=
    h.pairwise.imp .inl
  have : Std.Symm fun a b : α => (span a).stop ≤ (span b).start ∨ (span b).stop ≤ (span a).start :=
    ⟨fun _ _ hor => hor.symm⟩
  have hor := hapart.forall ha hb hne
  have hpos := h.nonempty b hb
  rw [Span.has_iff] at hab
  omega

theorem nodup (h : Apart span parts) : parts.Nodup := by
  refine h.pairwise.imp_of_mem fun {a b} ha _ hab heq => ?_
  have hpos := h.nonempty a ha
  rw [← heq] at hab
  omega

theorem eq_of_mem_iff (h : Apart span parts) (h' : Apart span parts')
    (hmem : ∀ a, a ∈ parts ↔ a ∈ parts') : parts = parts' := by
  refine List.Perm.eq_of_pairwise ?_ h.pairwise h'.pairwise
    ((List.perm_ext_iff_of_nodup h.nodup h'.nodup).mpr hmem)
  intro a b ha hb hab hba
  have hpos := h.nonempty a ha
  have hpos' := h'.nonempty b hb
  omega

end Apart

namespace Leftmost

theorem congr {Q : α → Prop} (h : Leftmost span P parts) (hPQ : ∀ a, Q a ↔ P a) :
    Leftmost span Q parts where
  toApart := h.toApart
  sound a ha := (hPQ a).mpr (h.sound a ha)
  complete a ha := h.complete a ((hPQ a).mp ha)

/-- Parts are the leftmost ones up to a place, if they have the property and one of them stands wherever one
has it. -/
theorem mem_iff_of_start_le (h : Leftmost span P parts) (h' : Apart span parts')
    (hinj : ∀ a b, P a → P b → (span a).start = (span b).start → a = b) {place : Nat}
    (hsound : ∀ a ∈ parts', (span a).start ≤ place → P a)
    (hcomplete : ∀ a, P a → (span a).start ≤ place → ∃ b ∈ parts', (span b).has (span a).start)
    {a : α} (ha : (span a).start ≤ place) : a ∈ parts ↔ a ∈ parts' := by
  induction hn : (span a).start using Nat.strong_induction_on generalizing a with
  | _ n ih =>
    -- A part that reaches over the start of another would be in both lists.
    constructor
    · intro hm
      obtain ⟨b, hb, hab⟩ := hcomplete a (h.sound a hm) ha
      have hle := (Span.has_iff.mp hab).1
      rcases Nat.lt_or_eq_of_le hle with hlt | heq
      · have hb' : b ∈ parts := (ih _ (hn ▸ hlt) (by omega) rfl).mpr hb
        rwa [← h.eq_of_has hb' hm hab]
      · rwa [← hinj b a (hsound b hb (by omega)) (h.sound a hm) heq]
    · intro hm
      obtain ⟨b, hb, hab⟩ := h.complete a (hsound a hm ha)
      have hle := (Span.has_iff.mp hab).1
      rcases Nat.lt_or_eq_of_le hle with hlt | heq
      · have hb' : b ∈ parts' := (ih _ (hn ▸ hlt) (by omega) rfl).mp hb
        rwa [← h'.eq_of_has hb' hm hab]
      · rwa [← hinj b a (h.sound b hb) (hsound a hm ha) heq]

end Leftmost

/-- A sort of part: how one is read at the front of a text that starts at an offset, and which bytes it
takes. It is read up to its own end, whatever comes after. -/
structure PartKind (α : Type) where
  at? : List Char → Nat → Option α
  span : α → Span
  delimited : ∀ {cs : List Char} {offset : Nat} {a : α}, at? cs offset = some a →
    ∃ body rest, cs = body ++ rest ∧ body ≠ [] ∧ span a = ⟨offset, offset + byteLength body⟩ ∧
      ∀ rest', at? (body ++ rest') offset = some a

namespace PartKind

variable (kind : PartKind α)

def scan (taken : Nat) (cs : List Char) (offset : Nat) : List α :=
  scanFrom (fun _ => false) (fun cs offset => (kind.at? cs offset).map fun a => (a, (kind.span a).stop))
    taken cs offset

/-- The parts of a text, from left to right. -/
def found (text : List Char) : List α :=
  kind.scan 0 text 0

/-- The part can be read in the text, whether or not another reaches over its start. -/
def StandsIn (a : α) (text : List Char) : Prop :=
  ∃ rest, StandsAt text (kind.span a).start rest ∧ kind.at? rest (kind.span a).start = some a

variable {kind}

theorem at?_nil (kind : PartKind α) (offset : Nat) : kind.at? [] offset = none := by
  by_contra hne
  obtain ⟨a, ha⟩ := Option.ne_none_iff_exists'.mp hne
  obtain ⟨body, rest, hnil, hbody, _⟩ := kind.delimited ha
  exact hbody (List.append_eq_nil_iff.mp hnil.symm).1

theorem start_of_at? {cs : List Char} {offset : Nat} {a : α} (h : kind.at? cs offset = some a) :
    (kind.span a).start = offset := by
  obtain ⟨body, rest, _, _, hspan, _⟩ := kind.delimited h
  rw [hspan]

theorem start_lt_stop_of_at? {cs : List Char} {offset : Nat} {a : α} (h : kind.at? cs offset = some a) :
    (kind.span a).start < (kind.span a).stop := by
  obtain ⟨body, rest, _, hbody, hspan, _⟩ := kind.delimited h
  have hpos := byteLength_pos hbody
  rw [hspan]
  change offset < offset + byteLength body
  omega

theorem standsIn_of_at? {text rest : List Char} {place : Nat} {a : α} (hrest : StandsAt text place rest)
    (ha : kind.at? rest place = some a) : kind.StandsIn a text := by
  obtain rfl := start_of_at? ha
  exact ⟨rest, hrest, ha⟩

theorem StandsIn.eq {text : List Char} {a b : α} (ha : kind.StandsIn a text) (hb : kind.StandsIn b text)
    (hab : (kind.span a).start = (kind.span b).start) : a = b := by
  obtain ⟨rest, hrest, ha⟩ := ha
  obtain ⟨rest', hrest', hb⟩ := hb
  rw [← hab] at hrest' hb
  rw [hrest.eq hrest', hb] at ha
  exact (Option.some.inj ha).symm

/-- A part that can be read in a text which starts at an offset. -/
def StandsFrom (kind : PartKind α) (a : α) (offset : Nat) (cs : List Char) : Prop :=
  ∃ n rest, StandsAt cs n rest ∧ (kind.span a).start = offset + n ∧ kind.at? rest (kind.span a).start = some a

theorem standsFrom_zero_iff {a : α} {text : List Char} :
    kind.StandsFrom a 0 text ↔ kind.StandsIn a text := by
  constructor
  · rintro ⟨n, rest, hrest, hstart, ha⟩
    rw [Nat.zero_add] at hstart
    exact ⟨rest, hstart ▸ hrest, ha⟩
  · rintro ⟨rest, hrest, ha⟩
    exact ⟨_, rest, hrest, (Nat.zero_add _).symm, ha⟩

theorem standsFrom_cons_iff {a : α} {offset : Nat} {c : Char} {cs : List Char} :
    kind.StandsFrom a offset (c :: cs) ↔
      kind.at? (c :: cs) offset = some a ∨ kind.StandsFrom a (offset + c.utf8Size) cs := by
  constructor
  · rintro ⟨n, rest, hn, hstart, ha⟩
    rcases standsAt_cons_iff.mp hn with ⟨rfl, rfl⟩ | ⟨m, rfl, hrest⟩
    · rw [hstart] at ha
      exact .inl ha
    · exact .inr ⟨m, rest, hrest, by rw [hstart, Nat.add_assoc], ha⟩
  · rintro (ha | ⟨m, rest, hrest, hstart, ha⟩)
    · exact ⟨0, c :: cs, standsAt_zero _, start_of_at? ha, by rwa [start_of_at? ha]⟩
    · exact ⟨_, rest, standsAt_cons_iff.mpr (.inr ⟨m, rfl, hrest⟩), by rw [hstart, Nat.add_assoc], ha⟩

theorem leftmost_scan (taken : Nat) (cs : List Char) (offset : Nat) :
    Leftmost kind.span (fun a => taken ≤ (kind.span a).start ∧ kind.StandsFrom a offset cs)
      (kind.scan taken cs offset) := by
  induction cs generalizing taken offset with
  | nil =>
    refine ⟨⟨by simp [scan, scanFrom], by simp [scan, scanFrom]⟩, by simp [scan, scanFrom], ?_⟩
    rintro a ⟨_, n, rest, ⟨before, hnil, _⟩, _, ha⟩
    rw [(List.append_eq_nil_iff.mp hnil.symm).2, kind.at?_nil] at ha
    cases ha
  | cons c cs ih =>
    -- Nothing is read at the front if it is taken already or if nothing can be read there.
    have hskip (hno : ∀ a, kind.at? (c :: cs) offset = some a → ¬ taken ≤ (kind.span a).start) :
        Leftmost kind.span (fun a => taken ≤ (kind.span a).start ∧ kind.StandsFrom a offset (c :: cs))
          (kind.scan taken cs (offset + c.utf8Size)) := by
      refine (ih taken (offset + c.utf8Size)).congr fun a => and_congr_right fun htaken => ?_
      rw [standsFrom_cons_iff, or_iff_right fun ha => hno a ha htaken]
    unfold scan at *
    rw [scanFrom, Bool.or_false]
    by_cases htaken : offset < taken
    · rw [if_pos (Nat.blt_eq.mpr htaken)]
      apply hskip
      intro a ha
      rw [start_of_at? ha]
      omega
    · rw [if_neg (by rwa [Nat.blt_eq])]
      cases hat : kind.at? (c :: cs) offset with
      | none =>
        apply hskip
        intro a ha
        rw [hat] at ha
        cases ha
      | some b =>
        have hb := ih (kind.span b).stop (offset + c.utf8Size)
        have hstart := start_of_at? hat
        have hstop := start_lt_stop_of_at? hat
        refine ⟨⟨?_, ?_⟩, ?_, ?_⟩
        · intro a ha
          rcases List.mem_cons.mp ha with rfl | hm
          · exact hstop
          · exact hb.nonempty a hm
        · exact List.pairwise_cons.mpr ⟨fun a ha => (hb.sound a ha).1, hb.pairwise⟩
        · intro a ha
          rcases List.mem_cons.mp ha with rfl | hm
          · exact ⟨by omega, standsFrom_cons_iff.mpr (.inl hat)⟩
          · obtain ⟨hle, hstands⟩ := hb.sound a hm
            exact ⟨by omega, standsFrom_cons_iff.mpr (.inr hstands)⟩
        · rintro a ⟨_, hstands⟩
          rcases standsFrom_cons_iff.mp hstands with ha | hstands
          · obtain rfl : b = a := Option.some.inj (hat.symm.trans ha)
            exact ⟨b, List.mem_cons_self, Span.has_iff.mpr ⟨le_rfl, hstop⟩⟩
          · by_cases hlt : (kind.span a).start < (kind.span b).stop
            · obtain ⟨n, _, _, hplace, _⟩ := hstands
              exact ⟨b, List.mem_cons_self, Span.has_iff.mpr ⟨by omega, hlt⟩⟩
            · obtain ⟨d, hd, hhas⟩ := hb.complete a ⟨by omega, hstands⟩
              exact ⟨d, List.mem_cons_of_mem _ hd, hhas⟩

/-- What is found in a text are the leftmost parts that can be read in it. -/
theorem leftmost_found (kind : PartKind α) (text : List Char) :
    Leftmost kind.span (fun a => kind.StandsIn a text) (kind.found text) :=
  (leftmost_scan 0 text 0).congr fun a => by simp [standsFrom_zero_iff]

end PartKind

end Component

end ComponentDoc
