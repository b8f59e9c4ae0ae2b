import ComponentDoc.Glob.Expand
import ComponentDoc.Proofs.Path.Join
import ComponentDoc.Proofs.Sequence

namespace ComponentDoc

open Text ComponentDoc.Path

namespace Glob

def IsPattern (text : List Char) : Prop :=
  ∃ pattern, Pattern.parse text = .ok pattern

/-- No character of the text means anything in a pattern but itself. -/
def IsPlain (text : List Char) : Prop :=
  ∀ c ∈ text, c ≠ '*' ∧ c ≠ '?' ∧ c ≠ '['

instance (text : List Char) : Decidable (IsPlain text) :=
  List.decidableBAll _ text

section

variable {position position' : Nat} {previous previous' : Option Char} {c : Char} {rest : List Char}

theorem token_of_plain (hc : c ≠ '*' ∧ c ≠ '?' ∧ c ≠ '[') : token position previous c rest = .ok (.char c, 0) := by
  unfold token
  split
  · exact absurd rfl hc.2.1
  · exact absurd rfl hc.1
  · exact absurd rfl hc.2.2
  · rfl

theorem charSet?_ne_char {text : List Char} {d : Char} {taken : Nat} : charSet? text ≠ some (.char d, taken) := by
  intro h
  unfold charSet? at h
  split at h
  · obtain ⟨_, -, h⟩ := Option.map_eq_some_iff.mp h
    cases h
  · cases h
  · obtain ⟨_, -, h⟩ := Option.map_eq_some_iff.mp h
    cases h
  · cases h

/-- Only a character that stands for itself is read as such. -/
theorem eq_of_token_eq_char {d : Char} {taken : Nat} (h : token position previous c rest = .ok (.char d, taken)) :
    d = c ∧ taken = 0 := by
  unfold token at h
  split at h
  · cases h
  · split at h
    · cases h
    · unfold anyPath at h
      split_ifs at h
      split at h <;> cases h
    · cases h
  · cases hset : charSet? rest with
    | none => simp [hset] at h
    | some found =>
      simp only [hset, Except.ok.injEq] at h
      exact absurd (h ▸ hset) charSet?_ne_char
  · cases h
    exact ⟨rfl, rfl⟩

/-- A token is read at any place, and after anything that is a slash or nothing at all if it was before. -/
theorem token_eq_ok_congr (hprevious : previous.all (· == '/') = previous'.all (· == '/')) {r : Token × Nat}
    (h : token position previous c rest = .ok r) : token position' previous' c rest = .ok r := by
  unfold token at h ⊢
  split at h
  · exact h
  · split at h
    · exact h
    · unfold anyPath at h ⊢
      rw [← hprevious]
      split_ifs at h ⊢ with hslash
      split at h
      · exact h
      · exact h
      · cases h
    · cases h
  · cases hset : charSet? rest with
    | none => simp [hset] at h
    | some found => simpa [hset] using h
  · exact h

theorem tokensFrom_cons_eq_ok_iff {pattern : Pattern} : tokensFrom 0 position previous (c :: rest) = .ok pattern ↔
    ∃ first taken tokens, token position previous c rest = .ok (first, taken) ∧
      tokensFrom taken (position + 1) (some c) rest = .ok tokens ∧ pattern = first :: tokens := by
  rw [tokensFrom, bind_eq_ok_iff]
  constructor
  · rintro ⟨⟨first, taken⟩, htoken, h⟩
    obtain ⟨tokens, htokens, h⟩ := bind_eq_ok_iff.mp h
    exact ⟨first, taken, tokens, htoken, htokens, (Except.ok.inj h).symm⟩
  · rintro ⟨first, taken, tokens, htoken, htokens, rfl⟩
    exact ⟨(first, taken), htoken, bind_eq_ok_iff.mpr ⟨tokens, htokens, rfl⟩⟩

end

theorem tokensFrom_eq_ok_congr {taken position position' : Nat} {previous previous' : Option Char}
    (hprevious : previous.all (· == '/') = previous'.all (· == '/')) {text : List Char} {pattern : Pattern}
    (h : tokensFrom taken position previous text = .ok pattern) :
    tokensFrom taken position' previous' text = .ok pattern := by
  induction text generalizing taken position position' previous previous' pattern with
  | nil => exact h
  | cons c rest ih =>
    cases taken with
    | succ taken => exact ih rfl h
    | zero =>
      obtain ⟨first, taken, tokens, htoken, htokens, rfl⟩ := tokensFrom_cons_eq_ok_iff.mp h
      exact tokensFrom_cons_eq_ok_iff.mpr
        ⟨first, taken, tokens, token_eq_ok_congr hprevious htoken, ih rfl htokens, rfl⟩

/-- A text after plain characters is read as before, the last of them being what stands before it. -/
theorem tokensFrom_plain_append {front : List Char} (hfront : IsPlain front) {position : Nat}
    {previous : Option Char} {text : List Char} {pattern : Pattern} :
    tokensFrom 0 position previous (front ++ text) = .ok pattern ↔ ∃ tokens,
      tokensFrom 0 (position + front.length) (front.getLast?.or previous) text = .ok tokens ∧
      pattern = front.map Token.char ++ tokens := by
  induction front generalizing position previous pattern with
  | nil => simp
  | cons c front ih =>
    obtain ⟨hc, hfront⟩ := List.forall_mem_cons.mp hfront
    have hlast : (c :: front).getLast?.or previous = front.getLast?.or (some c) := by
      cases front with
      | nil => rfl
      | cons d front =>
        rw [List.getLast?_cons_cons]
        cases hd : (d :: front).getLast? with
        | none => simp at hd
        | some last => rfl
    have hplace : position + (c :: front).length = position + 1 + front.length := by
      rw [List.length_cons]
      omega
    rw [List.cons_append, tokensFrom_cons_eq_ok_iff, token_of_plain hc, hlast, hplace]
    constructor
    · rintro ⟨first, taken, all, htoken, hall, rfl⟩
      obtain ⟨rfl, rfl⟩ := Prod.mk.inj (Except.ok.inj htoken)
      obtain ⟨tokens, htokens, rfl⟩ := (ih hfront).mp hall
      exact ⟨tokens, htokens, rfl⟩
    · rintro ⟨tokens, htokens, rfl⟩
      exact ⟨_, _, _, rfl, (ih hfront).mpr ⟨tokens, htokens, rfl⟩, rfl⟩

theorem parse_plain {text : List Char} (h : IsPlain text) : Pattern.parse text = .ok (text.map Token.char) := by
  have hread : tokensFrom 0 0 none (text ++ []) = .ok (text.map Token.char) :=
    (tokensFrom_plain_append h).mpr ⟨[], rfl, (List.append_nil _).symm⟩
  rwa [List.append_nil] at hread

/-- A plain folder in front of a text keeps it a pattern if it was one. -/
theorem isPattern_plain_append {front text : List Char} (hfront : IsPlain front) :
    IsPattern (front ++ '/' :: text) ↔ IsPattern text := by
  have hplain : IsPlain (front ++ ['/']) :=
    List.forall_mem_append.mpr ⟨hfront, List.forall_mem_singleton.mpr (by decide)⟩
  have hsplit : front ++ '/' :: text = (front ++ ['/']) ++ text := by simp
  have hlast : (front ++ ['/']).getLast?.or none = some '/' := by simp
  -- A star after a slash is as good as one at the start of the text.
  have hstart : (none : Option Char).all (· == '/') = (some '/').all (· == '/') := rfl
  constructor
  · rintro ⟨pattern, h⟩
    rw [Pattern.parse, hsplit, tokensFrom_plain_append hplain, hlast] at h
    obtain ⟨tokens, h, -⟩ := h
    exact ⟨tokens, tokensFrom_eq_ok_congr hstart.symm h⟩
  · rintro ⟨tokens, h⟩
    refine ⟨(front ++ ['/']).map Token.char ++ tokens, ?_⟩
    rw [Pattern.parse, hsplit, tokensFrom_plain_append hplain, hlast]
    exact ⟨tokens, tokensFrom_eq_ok_congr hstart h, rfl⟩

/-- A text that is read as a pattern without wildcards is what the pattern spells. -/
theorem eq_of_literal? {text spelled : List Char} {pattern : Pattern} (h : Pattern.parse text = .ok pattern)
    (hliteral : pattern.literal? = some spelled) : spelled = text := by
  have hread {position : Nat} {previous : Option Char} (h : tokensFrom 0 position previous text = .ok pattern) :
      spelled = text := by
    clear * - h hliteral
    induction text generalizing position previous pattern spelled with
    | nil =>
      obtain rfl := Except.ok.inj h
      exact (Option.some.inj hliteral).symm
    | cons c rest ih =>
      obtain ⟨first, taken, tokens, htoken, htokens, rfl⟩ := tokensFrom_cons_eq_ok_iff.mp h
      cases first with
      | char d =>
        obtain ⟨rfl, rfl⟩ := eq_of_token_eq_char htoken
        obtain ⟨more, hmore, rfl⟩ := Option.map_eq_some_iff.mp hliteral
        rw [ih hmore htokens]
      | _ => cases hliteral
  exact hread h

/-- The texts are read as patterns one by one. -/
def ReadAs (texts : List (List Char)) (patterns : List Pattern) : Prop :=
  List.Forall₂ (fun text pattern => Pattern.parse text = .ok pattern) texts patterns

theorem exists_readAs_iff {texts : List (List Char)} :
    (∃ patterns, ReadAs texts patterns) ↔ ∀ text ∈ texts, IsPattern text := by
  simp only [ReadAs, ← mapM_eq_ok_iff]
  exact exists_mapM_eq_ok_iff

theorem ReadAs.ne_nil {texts : List (List Char)} {patterns : List Pattern} (h : ReadAs texts patterns)
    (hne : texts ≠ []) : patterns ≠ [] := by
  rintro rfl
  exact hne (List.forall₂_nil_right_iff.mp h)

/-- Patterns spell no slash if there is none in the texts. -/
theorem ReadAs.no_slash {texts : List (List Char)} {patterns : List Pattern} (h : ReadAs texts patterns)
    (htexts : ∀ text ∈ texts, '/' ∉ text) :
    ∀ p ∈ patterns, ∀ spelled, p.literal? = some spelled → '/' ∉ spelled := by
  intro p hp spelled hspelled
  obtain ⟨text, htext, hparse⟩ := mem_of_forall₂ h hp
  rw [eq_of_literal? hparse hspelled]
  exact htexts text htext

/-- Plain texts in front are read as what they spell. -/
theorem readAs_plain_append_iff {texts rest : List (List Char)} (htexts : ∀ text ∈ texts, IsPlain text)
    {patterns : List Pattern} : ReadAs (texts ++ rest) patterns ↔
      ∃ more, patterns = texts.map (List.map Token.char) ++ more ∧ ReadAs rest more := by
  induction texts generalizing patterns with
  | nil => simp
  | cons text texts ih =>
    obtain ⟨htext, htexts⟩ := List.forall_mem_cons.mp htexts
    rw [List.cons_append, ReadAs, List.forall₂_cons_left_iff, parse_plain htext]
    constructor
    · rintro ⟨pattern, all, hpattern, hall, rfl⟩
      obtain rfl := Except.ok.inj hpattern
      obtain ⟨more, rfl, hmore⟩ := (ih htexts).mp hall
      exact ⟨more, rfl, hmore⟩
    · rintro ⟨more, rfl, hmore⟩
      exact ⟨_, _, rfl, (ih htexts).mpr ⟨more, rfl, hmore⟩, rfl⟩

/-- The pieces of a text between slashes; a slash at its end opens none. -/
def pieces (text : List Char) : List (List Char) :=
  if (splitOn '/' text).getLast? == some [] then (splitOn '/' text).dropLast else splitOn '/' text

theorem pieces_ne_nil {text : List Char} (h : text ≠ []) : pieces text ≠ [] := by
  have hsplit : splitOn '/' text ≠ [[]] := by
    obtain ⟨c, cs, rfl⟩ := List.exists_cons_of_ne_nil h
    obtain ⟨piece, more, hmore⟩ := List.exists_cons_of_ne_nil (splitOn_ne_nil '/' cs)
    rw [splitOn, hmore]
    dsimp only
    split_ifs <;> simp
  unfold pieces
  split_ifs with hlast
  · intro hnil
    obtain ⟨front, hfront⟩ := List.getLast?_eq_some_iff.mp (beq_iff_eq.mp hlast)
    rw [hfront, List.dropLast_concat] at hnil
    rw [hfront, hnil] at hsplit
    exact hsplit rfl
  · exact splitOn_ne_nil _ _

theorem no_slash_of_mem_pieces {text piece : List Char} (h : piece ∈ pieces text) : '/' ∉ piece := by
  have hmem : piece ∈ splitOn '/' text := by
    unfold pieces at h
    split_ifs at h
    · exact List.mem_of_mem_dropLast h
    · exact h
  exact fun hslash => (of_mem_splitOn hmem hslash).1 rfl

theorem components_cons (text : List Char) : components ('/' :: text) = pieces text := by
  unfold components pieces
  rw [splitOn_cons_self]
  rfl

theorem components_append (front text : List Char) :
    components (front ++ '/' :: text) = (splitOn '/' front).tail ++ pieces text := by
  have hfront := splitOn_ne_nil '/' front
  have htext := splitOn_ne_nil '/' text
  have hlast : ((splitOn '/' front).tail ++ splitOn '/' text).getLast? = (splitOn '/' text).getLast? := by
    rw [List.getLast?_append, Option.or_of_isSome (by simpa using htext)]
  unfold components pieces
  simp only [splitOn_append, List.tail_append_of_ne_nil hfront, hlast]
  split_ifs
  · rw [List.dropLast_append_of_ne_nil htext]
  · rfl

theorem IsPlain.of_mem_components {text piece : List Char} (h : IsPlain text) (hpiece : piece ∈ components text) :
    IsPlain piece := by
  have hmem : piece ∈ splitOn '/' text := by
    unfold components at hpiece
    dsimp only at hpiece
    split_ifs at hpiece
    · exact List.mem_of_mem_tail (List.mem_of_mem_dropLast hpiece)
    · exact List.mem_of_mem_tail hpiece
  exact fun c hc => h c (of_mem_splitOn hmem hc).2

/-- The last piece is empty only after a separator at the end. -/
theorem eq_nil_or_getLast?_of_splitOn {d : Char} {cs : List Char} (h : (splitOn d cs).getLast? = some []) :
    cs = [] ∨ cs.getLast? = some d := by
  induction cs with
  | nil => exact .inl rfl
  | cons c cs ih =>
    obtain ⟨piece, more, hmore⟩ := List.exists_cons_of_ne_nil (splitOn_ne_nil d cs)
    rw [hmore] at ih
    rw [splitOn, hmore] at h
    dsimp only at h
    have hlater (hlast : (piece :: more).getLast? = some []) (hcs : cs ≠ []) : (c :: cs).getLast? = some d := by
      rw [List.getLast?_cons_of_ne_nil hcs]
      exact (ih hlast).resolve_left hcs
    split_ifs at h with hc
    · rw [List.getLast?_cons_cons] at h
      by_cases hcs : cs = []
      · subst hcs
        exact .inr (congrArg some (beq_iff_eq.mp hc))
      · exact .inr (hlater h hcs)
    · cases more with
      | nil => cases h
      | cons next more =>
        rw [List.getLast?_cons_cons] at h
        have hcs : cs ≠ [] := by
          rintro rfl
          cases hmore
        exact .inr (hlater (List.getLast?_cons_cons.trans h) hcs)

theorem components_of_getLast?_ne {base : List Char} (hbase : isAbsolute base) (hlast : base.getLast? ≠ some '/') :
    components base = (splitOn '/' base).tail := by
  obtain ⟨rest, rfl⟩ := exists_of_isAbsolute hbase
  have hpieces : ¬ (splitOn '/' rest).getLast? = some [] := by
    intro h
    rcases eq_nil_or_getLast?_of_splitOn h with rfl | hend
    · exact hlast rfl
    · have hmore : rest ≠ [] := by
        rintro rfl
        cases hend
      rw [List.getLast?_cons_of_ne_nil hmore] at hlast
      exact hlast hend
  rw [components_cons, pieces, if_neg (by simpa using hpieces), splitOn_cons_self]
  rfl

/-- The text of a folder before the slash that a path in it comes after. -/
theorem exists_front {base : List Char} (hbase : isAbsolute base) : ∃ front, (IsPlain base → IsPlain front) ∧
    components base = (splitOn '/' front).tail ∧
    ∀ text, isAbsolute text = false → join base text = front ++ '/' :: text := by
  have hne := ne_nil_of_isAbsolute hbase
  by_cases hlast : base.getLast? = some '/'
  · obtain ⟨front, rfl⟩ := List.getLast?_eq_some_iff.mp hlast
    refine ⟨front, fun h c hc => h c (List.mem_append_left _ hc), ?_, fun text htext => ?_⟩
    · rw [components_append]
      simp [pieces, splitOn]
    · rw [join_eq hne htext, if_pos hlast, List.append_assoc, List.singleton_append]
  · refine ⟨base, id, components_of_getLast?_ne hbase hlast, fun text htext => ?_⟩
    rw [join_eq hne htext, if_neg hlast]

theorem components_join {base text : List Char} (hbase : isAbsolute base) (htext : isAbsolute text = false) :
    components (join base text) = components base ++ pieces text := by
  obtain ⟨front, -, hfront, hjoin⟩ := exists_front hbase
  rw [hjoin text htext, components_append, hfront]

end Glob

end ComponentDoc
