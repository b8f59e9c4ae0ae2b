import ComponentDoc.Comment.Doc
import ComponentDoc.Proofs.Text.Place
import ComponentDoc.Proofs.Text.Trim

/-!
Parameter tags as they are written, and what a comment says about a parameter. A tag has a type in braces, the name
of the parameter, perhaps in brackets and with a default value, and a text. The type is taken to end at the first
closing brace and the name at the first blank: a tag says its text just when no brace is in the type and no blank in
the default value.
-/
namespace ComponentDoc.Comment

open Text

/-- The braces of a text are closed in turn, with so many open before it. -/
def bracesClose (depth : Nat) : List Char → Bool
  | [] => depth == 0
  | c :: cs =>
    if c == '\x7b' then bracesClose (depth + 1) cs
    else if c == '\x7d' then depth != 0 && bracesClose (depth - 1) cs
    else bracesClose depth cs

/-- How a parameter is named: as it is, in brackets, or in brackets with a default value. -/
inductive ParamForm where
  | bare
  | optional
  | withDefault (value : List Char) (unbracketed : '[' ∉ value ∧ ']' ∉ value)

structure ParamTag where
  type : Option (List Char)
  type_closes : ∀ t ∈ type, bracesClose 0 t
  name : List Char
  name_ne_nil : name ≠ []
  name_plain : ∀ c ∈ name, isBlank c = false ∧ c ∉ ['=', '[', ']', '\x7b', '\x7d']
  form : ParamForm
  isDashed : Bool
  text : List Char
  text_tight : Tight text
  text_undashed : text.head? ≠ some '-'

namespace ParamTag

def typeChars (tag : ParamTag) : List Char :=
  match tag.type with
  | none => []
  | some t => '\x7b' :: (t ++ ['\x7d', ' '])

def nameChars (tag : ParamTag) : List Char :=
  match tag.form with
  | .bare => tag.name
  | .optional => '[' :: (tag.name ++ [']'])
  | .withDefault value _ => '[' :: (tag.name ++ '=' :: (value ++ [']']))

def dash (tag : ParamTag) : List Char :=
  if tag.isDashed then ['-', ' '] else []

/-- The name and the text. -/
def body (tag : ParamTag) : List Char :=
  tag.nameChars ++ ' ' :: (tag.dash ++ tag.text)

def keyword (tag : ParamTag) : Keyword :=
  ⟨"param", String.ofList (tag.typeChars ++ tag.body)⟩

/-- Nothing ends the type or the name early. -/
def IsPlain (tag : ParamTag) : Prop :=
  (∀ t ∈ tag.type, '\x7d' ∉ t) ∧
    ∀ value unbracketed, tag.form = .withDefault value unbracketed → ∀ c ∈ value, isBlank c = false

end ParamTag

/-- The text of a tag is about a parameter: behind a type in braces, if there is one, comes the name, perhaps in
brackets and with a default value. -/
def IsAbout (name text : List Char) : Prop :=
  ∃ before type between opened value closed rest,
    text = before ++ type ++ between ++ (opened ++ name ++ value ++ closed) ++ rest ∧
    (∀ c ∈ before, isBlank c) ∧
    (type = [] ∨ ∃ inside, type = '\x7b' :: (inside ++ ['\x7d']) ∧ bracesClose 0 inside) ∧
    (∀ c ∈ between, isBlank c) ∧
    (∀ c ∈ opened, c = '[') ∧ (∀ c ∈ value.head?, c = '=') ∧ (∀ c ∈ closed, c = ']') ∧
    ∀ c ∈ rest.head?, isBlank c

/-- The type of a tag, if it has one, has no braces of its own. -/
def HasFlatType (text : List Char) : Prop :=
  ∀ inside rest, trim text = '\x7b' :: (inside ++ '\x7d' :: rest) → '\x7d' ∉ inside → '\x7b' ∉ inside

/-- The tag is the first one in the comment that is about its parameter, and the types before it are flat. -/
def ParamTag.IsFirstIn (tag : ParamTag) (doc : Doc) : Prop :=
  ∃ before after, doc.keywords = before ++ tag.keyword :: after ∧
    ∀ k ∈ before, k.name = "param" → HasFlatType k.description.toList ∧ ¬ IsAbout tag.name k.description.toList

theorem bracesClose_of_not_mem {cs : List Char} (hopen : '\x7b' ∉ cs) (hclose : '\x7d' ∉ cs) : bracesClose 0 cs := by
  induction cs with
  | nil => rfl
  | cons c cs ih =>
    simp only [List.mem_cons, not_or] at hopen hclose
    rw [bracesClose, if_neg (by simpa using fun h => hopen.1 h.symm), if_neg (by simpa using fun h => hclose.1 h.symm)]
    exact ih hopen.2 hclose.2

/-- What is left out of a name are brackets around it and a default value. -/
theorem exists_eq_paramName (word : List Char) : ∃ opened value closed,
    word = opened ++ Doc.paramName word ++ value ++ closed ∧ (∀ c ∈ opened, c = '[') ∧ (∀ c ∈ value.head?, c = '=') ∧
      ∀ c ∈ closed, c = ']' := by
  obtain ⟨closed, heq, hclosed⟩ := exists_eq_dropEndWhile (· == ']') (word.dropWhile (· == '['))
  let named := dropEndWhile (· == ']') (word.dropWhile (· == '['))
  refine ⟨word.takeWhile (· == '['), named.dropWhile (· != '='), closed, ?_, ?_, ?_, ?_⟩
  · have hname : Doc.paramName word ++ named.dropWhile (· != '=') = named := List.takeWhile_append_dropWhile
    rw [List.append_assoc (word.takeWhile _), hname, List.append_assoc, ← heq]
    exact List.takeWhile_append_dropWhile.symm
  · intro c hc
    simpa using List.mem_takeWhile_imp hc
  · intro c hc
    have hstop := List.head?_dropWhile_not (· != '=') named
    rw [hc] at hstop
    simpa using hstop
  · intro c hc
    simpa using hclosed c hc

/-- The first word of a text, with what it is followed by. -/
theorem exists_eq_word (cs : List Char) : ∃ word text rest, (cutAtBlank? cs).getD (cs, []) = (word, text) ∧
    cs = word ++ rest ∧ ∀ c ∈ rest.head?, isBlank c := by
  rcases word_or_exists_blank cs with hword | ⟨word, b, rest, rfl, hword, hb⟩
  · exact ⟨cs, [], [], by rw [cutAtBlank?_eq_none hword]; rfl, by simp, by simp⟩
  · exact ⟨word, rest, b :: rest, by rw [cutAtBlank?_word hword hb]; rfl, rfl, by simpa using hb⟩

theorem of_afterType?_eq_some {cs rest : List Char} (h : Doc.afterType? cs = some rest) : rest = cs ∨
    ∃ inside behind, cs = '\x7b' :: (inside ++ '\x7d' :: behind) ∧ '\x7d' ∉ inside ∧ rest = trim behind := by
  unfold Doc.afterType? at h
  split at h
  · obtain ⟨⟨inside, behind⟩, hcut, rfl⟩ := Option.map_eq_some_iff.mp h
    obtain ⟨hinside, rfl⟩ := cutAt?_eq_some_iff.mp hcut
    exact .inr ⟨inside, behind, rfl, hinside, rfl⟩
  · exact .inl (Option.some.inj h).symm

theorem isBlank_head?_append {xs ys : List Char} (hxs : ∀ c ∈ xs.head?, isBlank c) (hys : ∀ c ∈ ys, isBlank c) :
    ∀ c ∈ (xs ++ ys).head?, isBlank c := by
  cases xs with
  | nil => exact fun c hc => hys c (List.mem_of_mem_head? hc)
  | cons x xs => exact hxs

/-- Where types are flat, a tag is read as one about a parameter only if it is. -/
theorem HasFlatType.isAbout {cs name text : List Char} (hflat : HasFlatType cs)
    (hread : Doc.readParam? cs = some (name, text)) : IsAbout name cs := by
  obtain ⟨before, after, hcs, hbefore, hafter⟩ := exists_padded cs
  obtain ⟨rest, htype, hrest⟩ := Option.bind_eq_some_iff.mp hread
  obtain ⟨word, text', behind, hcut, hword, hbehind⟩ := exists_eq_word rest
  rw [hcut] at hrest
  obtain ⟨rfl, _⟩ : Doc.paramName word = name ∧ _ := Prod.mk.inj (Option.some.inj hrest)
  obtain ⟨opened, value, closed, hnamed, hopened, hvalue, hclosed⟩ := exists_eq_paramName word
  rcases of_afterType?_eq_some htype with rfl | ⟨inside, typed, htyped, hinside, rfl⟩
  · refine ⟨before, [], [], opened, value, closed, behind ++ after, ?_, hbefore, .inl rfl, List.forall_mem_nil _,
      hopened, hvalue, hclosed, isBlank_head?_append hbehind hafter⟩
    rw [← hnamed]
    calc cs = before ++ trim cs ++ after := hcs
      _ = before ++ (word ++ behind) ++ after := by rw [← hword]
      _ = _ := by simp
  · obtain ⟨between, last, hpadded, hbetween, hlast⟩ := exists_padded typed
    have hcloses : bracesClose 0 inside := bracesClose_of_not_mem (hflat inside typed htyped hinside) hinside
    refine ⟨before, '\x7b' :: (inside ++ ['\x7d']), between, opened, value, closed, behind ++ (last ++ after), ?_,
      hbefore, .inr ⟨inside, rfl, hcloses⟩, hbetween, hopened, hvalue, hclosed, isBlank_head?_append hbehind ?_⟩
    · rw [← hnamed]
      calc cs = before ++ trim cs ++ after := hcs
        _ = before ++ '\x7b' :: (inside ++ '\x7d' :: (between ++ (word ++ behind) ++ last)) ++ after := by
          rw [htyped, ← hword, ← hpadded]
        _ = _ := by simp
    · simpa [or_imp, forall_and] using ⟨hlast, hafter⟩

/-- The text of a tag without the dash before it. -/
def undashed (cs : List Char) : List Char :=
  trim ((trim cs).dropWhile (· == '-'))

/-- A text with more before it, which is neither blank nor dashes, is not read as the text alone. -/
theorem undashed_ne {text : List Char} (htext : Tight text) {c : Char} (hc : isBlank c = false) (hdash : c ≠ '-')
    (xs ys : List Char) : undashed (xs ++ c :: (ys ++ text)) ≠ text := by
  have hdrop : (trimStart xs ++ c :: (ys ++ text)).dropWhile (· == '-') =
      (trimStart xs).dropWhile (· == '-') ++ c :: (ys ++ text) :=
    dropWhile_append_cons (by simpa using hdash) _ _
  rw [undashed, trim_append_cons hc htext, hdrop, trim_append_cons hc htext]
  intro h
  have hlength := congrArg List.length h
  simp only [List.length_append, List.length_cons] at hlength
  omega

namespace ParamTag

variable (tag : ParamTag)

theorem tight_dash_append : Tight (tag.dash ++ tag.text) := by
  apply tag.text_tight.append_left
  intro c hc
  cases hdashed : tag.isDashed with
  | false => simp [dash, hdashed] at hc
  | true =>
    obtain rfl : '-' = c := by simpa [dash, hdashed] using hc
    decide

theorem undashed_dash_append : undashed (tag.dash ++ tag.text) = tag.text := by
  rw [undashed, tag.tight_dash_append.trim_eq]
  obtain ⟨c, rest, htext⟩ := List.exists_cons_of_ne_nil tag.text_tight.ne_nil
  have hc : (c == '-') = false := by
    have hhead := tag.text_undashed
    rw [htext] at hhead
    simpa using hhead
  cases hdashed : tag.isDashed with
  | false =>
    have hdrop : tag.text.dropWhile (· == '-') = tag.text := by
      rw [htext, List.dropWhile_cons_of_neg (by simp [hc])]
    simp only [dash, hdashed, Bool.false_eq_true, if_false, List.nil_append]
    rw [hdrop, tag.text_tight.trim_eq]
  | true =>
    simp only [dash, hdashed, if_true]
    exact tag.text_tight.trim_cons (by decide)

end ParamTag

theorem readParam?_eq_some {cs rest word text : List Char} (htype : Doc.afterType? (trim cs) = some rest)
    (hword : (cutAtBlank? rest).getD (rest, []) = (word, text)) :
    Doc.readParam? cs = some (Doc.paramName word, undashed text) := by
  rw [Doc.readParam?, htype]
  simp only [Option.bind_eq_bind, Option.bind_some, hword]
  rfl

/-- Brackets around a name and a default value are left out. -/
theorem paramName_eq {name : List Char} (hne : name ≠ []) (hname : ∀ c ∈ name, c ≠ '[' ∧ c ≠ ']' ∧ c ≠ '=')
    (opened value closed : List Char) (hopened : ∀ c ∈ opened, c = '[') (hvalue : ∀ c ∈ value.head?, c = '=')
    (hclosed : ∀ c ∈ closed, c = ']') :
    Doc.paramName (opened ++ (name ++ (value ++ closed))) = name := by
  have hstart : (opened ++ (name ++ (value ++ closed))).dropWhile (· == '[') = name ++ (value ++ closed) := by
    obtain ⟨c, rest, rfl⟩ := List.exists_cons_of_ne_nil hne
    rw [List.dropWhile_append_of_pos (by simpa using hopened), List.cons_append,
      List.dropWhile_cons_of_neg (by simpa using (hname c List.mem_cons_self).1)]
  have hend : ∃ value', dropEndWhile (· == ']') (name ++ value) = name ++ value' ∧ ∀ c ∈ value'.head?, c = '=' := by
    cases value with
    | nil =>
      obtain ⟨front, d, rfl⟩ := (List.eq_nil_or_concat' name).resolve_left hne
      have hd : d ≠ ']' := (hname d (by simp)).2.1
      refine ⟨[], ?_, by simp⟩
      rw [List.append_nil, dropEndWhile_append_cons (by simpa using hd)]
      simp [dropEndWhile]
    | cons e value =>
      obtain rfl : e = '=' := hvalue e rfl
      exact ⟨'=' :: dropEndWhile (· == ']') value, dropEndWhile_append_cons (by decide) name value, by simp⟩
  obtain ⟨value', hvalue', hhead⟩ := hend
  have hstop : value'.takeWhile (· != '=') = [] := by
    cases value' with
    | nil => rfl
    | cons e value' =>
      obtain rfl : e = '=' := hhead e rfl
      rfl
  have hkept : ∀ c ∈ name, (c != '=') = true := fun c hc => by simpa using (hname c hc).2.2
  rw [Doc.paramName, hstart, ← List.append_assoc, dropEndWhile_append_of_forall (by simpa using hclosed), hvalue',
    List.takeWhile_append_of_pos hkept, hstop, List.append_nil]

namespace ParamTag

variable (tag : ParamTag)

theorem paramName_nameChars : Doc.paramName tag.nameChars = tag.name := by
  have hname (c : Char) (hc : c ∈ tag.name) : c ≠ '[' ∧ c ≠ ']' ∧ c ≠ '=' := by
    have hplain := (tag.name_plain c hc).2
    simp only [List.mem_cons, not_or] at hplain
    exact ⟨hplain.2.1, hplain.2.2.1, hplain.1⟩
  have hread := paramName_eq tag.name_ne_nil hname
  cases hform : tag.form with
  | bare => simpa [nameChars, hform] using hread [] [] [] (by simp) (by simp) (by simp)
  | optional => simpa [nameChars, hform] using hread ['['] [] [']'] (by simp) (by simp) (by simp)
  | withDefault value unbracketed =>
    simpa [nameChars, hform] using hread ['['] ('=' :: value) [']'] (by simp) (by simp) (by simp)

theorem name_subset : tag.name ⊆ tag.nameChars := by
  intro c hc
  cases hform : tag.form <;> simp [nameChars, hform, hc]

theorem exists_nameChars_cons : ∃ c rest, tag.nameChars = c :: rest ∧ isBlank c = false ∧ c ≠ '\x7b' := by
  have hbracket : isBlank '[' = false := by decide
  cases hform : tag.form with
  | bare =>
    obtain ⟨c, rest, hname⟩ := List.exists_cons_of_ne_nil tag.name_ne_nil
    obtain ⟨hblank, hplain⟩ := tag.name_plain c (by simp [hname])
    simp only [List.mem_cons, not_or] at hplain
    exact ⟨c, rest, by simp [nameChars, hform, hname], hblank, hplain.2.2.2.1⟩
  | optional => exact ⟨'[', tag.name ++ [']'], by simp [nameChars, hform], hbracket, by decide⟩
  | withDefault value unbracketed =>
    exact ⟨'[', tag.name ++ '=' :: (value ++ [']']), by simp [nameChars, hform], hbracket, by decide⟩

theorem tight_body : Tight tag.body := by
  obtain ⟨c, rest, heq, hc, _⟩ := tag.exists_nameChars_cons
  have hsplit : tag.body = (tag.nameChars ++ [' ']) ++ (tag.dash ++ tag.text) := by simp [body]
  rw [hsplit]
  exact tag.tight_dash_append.append_left (by simp [heq, hc])

/-- The type is taken to end at the first closing brace. -/
theorem afterType?_typed {t before behind : List Char} (hbefore : '\x7d' ∉ before)
    (h : t ++ '\x7d' :: ' ' :: tag.body = before ++ '\x7d' :: behind) :
    Doc.afterType? (trim ('\x7b' :: (t ++ ['\x7d', ' ']) ++ tag.body)) = some (trim behind) := by
  have htrim : trim ([] ++ '\x7b' :: ((t ++ ['\x7d', ' ']) ++ tag.body)) = _ :=
    trim_append_cons (by decide) tag.tight_body [] (t ++ ['\x7d', ' '])
  have hcut : cutAt? '\x7d' (t ++ '\x7d' :: ' ' :: tag.body) = some (before, behind) :=
    cutAt?_eq_some_iff.mpr ⟨hbefore, h⟩
  rw [List.nil_append] at htrim
  rw [List.cons_append, htrim]
  simp [Doc.afterType?, trimStart, hcut]

theorem afterType?_chars (h : ∀ t ∈ tag.type, '\x7d' ∉ t) :
    Doc.afterType? (trim (tag.typeChars ++ tag.body)) = some tag.body := by
  cases htype : tag.type with
  | none =>
    obtain ⟨c, rest, heq, _, hc⟩ := tag.exists_nameChars_cons
    have hbody : tag.body = c :: (rest ++ ' ' :: (tag.dash ++ tag.text)) := by rw [body, heq, List.cons_append]
    simp only [typeChars, htype, List.nil_append]
    rw [tag.tight_body.trim_eq, hbody]
    simp [Doc.afterType?, hc]
  | some t =>
    simp only [typeChars, htype]
    rw [tag.afterType?_typed (h t htype) rfl, tag.tight_body.trim_cons (by decide)]

theorem isBlank_name : ∀ c ∈ tag.name, isBlank c = false :=
  fun c hc => (tag.name_plain c hc).1

/-- A name with a default value up to its first blank is one word. -/
theorem isBlank_withDefault {value : List Char} (hvalue : ∀ c ∈ value, isBlank c = false) :
    ∀ c ∈ '[' :: (tag.name ++ '=' :: value), isBlank c = false := by
  simp only [List.forall_mem_cons, List.forall_mem_append]
  exact ⟨by decide, tag.isBlank_name, by decide, hvalue⟩

theorem IsPlain.isBlank_nameChars {tag : ParamTag} (h : tag.IsPlain) : ∀ c ∈ tag.nameChars, isBlank c = false := by
  have hclose : ∀ c ∈ [']'], isBlank c = false := List.forall_mem_singleton.mpr (by decide)
  cases hform : tag.form with
  | bare =>
    simp only [nameChars, hform]
    exact tag.isBlank_name
  | optional =>
    simp only [nameChars, hform]
    rw [List.forall_mem_cons, List.forall_mem_append]
    exact ⟨by decide, tag.isBlank_name, hclose⟩
  | withDefault value unbracketed =>
    have hsplit : tag.nameChars = ('[' :: (tag.name ++ '=' :: value)) ++ [']'] := by simp [nameChars, hform]
    rw [hsplit, List.forall_mem_append]
    exact ⟨tag.isBlank_withDefault (h.2 value unbracketed hform), hclose⟩

theorem readParam?_of_isPlain (h : tag.IsPlain) :
    Doc.readParam? (tag.typeChars ++ tag.body) = some (tag.name, tag.text) := by
  have hcut : (cutAtBlank? tag.body).getD (tag.body, []) = (tag.nameChars, tag.dash ++ tag.text) := by
    rw [body, cutAtBlank?_word h.isBlank_nameChars (by decide), Option.getD_some]
  rw [readParam?_eq_some (tag.afterType?_chars h.1) hcut, tag.paramName_nameChars, tag.undashed_dash_append]

/-- The tag is read with more than its text: a character that is neither blank nor a dash is left before it. -/
def ReadsMore : Prop :=
  ∃ name more, Doc.readParam? (tag.typeChars ++ tag.body) = some (name, undashed more) ∧
    ∃ xs c ys, isBlank c = false ∧ c ≠ '-' ∧ more = xs ++ c :: (ys ++ tag.text)

theorem body_eq : tag.body = (tag.nameChars ++ ' ' :: tag.dash) ++ tag.text := by
  simp [body]

/-- The name ends at a blank in the default value, and the bracket behind the value goes to the text. -/
theorem readsMore_of_blank (htype : ∀ t ∈ tag.type, '\x7d' ∉ t) {value : List Char}
    {unbracketed : '[' ∉ value ∧ ']' ∉ value} (hform : tag.form = .withDefault value unbracketed)
    (hvalue : ¬ ∀ c ∈ value, isBlank c = false) : tag.ReadsMore := by
  obtain ⟨word, b, rest, rfl, hword, hb⟩ := (word_or_exists_blank value).resolve_left hvalue
  have hsplit : tag.body =
      '[' :: (tag.name ++ '=' :: word) ++ b :: (rest ++ ']' :: ((' ' :: tag.dash) ++ tag.text)) := by
    simp [body, nameChars, hform]
  have hcut : (cutAtBlank? tag.body).getD (tag.body, []) =
      ('[' :: (tag.name ++ '=' :: word), rest ++ ']' :: ((' ' :: tag.dash) ++ tag.text)) := by
    rw [hsplit, cutAtBlank?_word (tag.isBlank_withDefault hword) hb, Option.getD_some]
  exact ⟨_, _, readParam?_eq_some (tag.afterType?_chars htype) hcut, rest, ']', ' ' :: tag.dash, by decide, by decide,
    rfl⟩

/-- The type ends at a closing brace of its own, and what comes behind that is taken for the name. A name of dashes
would then pass for the dash before the text. -/
theorem readsMore_of_brace {t : List Char} (ht : tag.type = some t) (hbrace : '\x7d' ∈ t)
    (hname : ∃ c ∈ tag.name, c ≠ '-') : tag.ReadsMore := by
  obtain ⟨before, behind, rfl, hbefore⟩ := List.eq_append_cons_of_mem hbrace
  have hafter : Doc.afterType? (trim (tag.typeChars ++ tag.body)) =
      some (trimStart behind ++ '\x7d' :: ' ' :: tag.body) := by
    have htrim : trim (behind ++ '\x7d' :: (' ' :: (tag.nameChars ++ ' ' :: tag.dash) ++ tag.text)) = _ :=
      trim_append_cons (by decide) tag.text_tight behind _
    rw [List.cons_append, ← tag.body_eq] at htrim
    rw [typeChars, ht, ← htrim]
    exact tag.afterType?_typed hbefore (by simp)
  rcases word_or_exists_blank (trimStart behind) with hword | ⟨word, b, rest, heq, hword, hb⟩
  · obtain ⟨c, hc, hdash⟩ := hname
    obtain ⟨xs, ys, hsplit⟩ := List.append_of_mem (tag.name_subset hc)
    have hfirst : ∀ c ∈ trimStart behind ++ ['\x7d'], isBlank c = false := by
      intro c hc
      rcases List.mem_append.mp hc with hc | hc
      · exact hword c hc
      · obtain rfl := List.mem_singleton.mp hc
        decide
    have hcut : (cutAtBlank? (trimStart behind ++ '\x7d' :: ' ' :: tag.body)).getD
        (trimStart behind ++ '\x7d' :: ' ' :: tag.body, []) = (trimStart behind ++ ['\x7d'], tag.body) := by
      rw [List.append_cons, cutAtBlank?_word hfirst (by decide), Option.getD_some]
    have hbody : tag.body = xs ++ c :: ((ys ++ ' ' :: tag.dash) ++ tag.text) := by simp [body, hsplit]
    exact ⟨_, _, readParam?_eq_some hafter hcut, xs, c, _, (tag.name_plain c hc).1, hdash, hbody⟩
  · have hcut : (cutAtBlank? (trimStart behind ++ '\x7d' :: ' ' :: tag.body)).getD
        (trimStart behind ++ '\x7d' :: ' ' :: tag.body, []) = (word, rest ++ '\x7d' :: ' ' :: tag.body) := by
      rw [heq, List.append_assoc, List.cons_append, cutAtBlank?_word hword hb, Option.getD_some]
    have hbody : ' ' :: tag.body = (' ' :: (tag.nameChars ++ ' ' :: tag.dash)) ++ tag.text := by simp [body]
    exact ⟨_, _, readParam?_eq_some hafter hcut, rest, '\x7d', _, by decide, by decide, by rw [hbody]⟩

theorem readsMore_of_not_isPlain (h : ¬ tag.IsPlain) (hname : ∃ c ∈ tag.name, c ≠ '-') : tag.ReadsMore := by
  by_cases htype : ∀ t ∈ tag.type, '\x7d' ∉ t
  · by_contra hreads
    refine h ⟨htype, fun value unbracketed hform => ?_⟩
    by_contra hvalue
    exact hreads (tag.readsMore_of_blank htype hform hvalue)
  · obtain ⟨t, ht, hbrace⟩ : ∃ t ∈ tag.type, '\x7d' ∈ t := by simpa using htype
    exact tag.readsMore_of_brace ht hbrace hname

end ParamTag

theorem findSome?_filter_append_cons {α β : Type} {p : α → Bool} {f : α → Option β} {before after : List α} {a : α}
    {b : β} (hbefore : ∀ x ∈ before, p x → f x = none) (ha : p a) (hf : f a = some b) :
    ((before ++ a :: after).filter p).findSome? f = some b := by
  have hnone : (before.filter p).findSome? f = none := by
    rw [List.findSome?_eq_none_iff]
    intro x hx
    obtain ⟨hmem, hpx⟩ := List.mem_filter.mp hx
    exact hbefore x hmem hpx
  rw [List.filter_append, List.findSome?_append, hnone, Option.none_or, List.filter_cons_of_pos ha,
    List.findSome?_cons, hf]

/-- The first keyword that is read as one about the parameter, and has a text, is the one that counts. -/
theorem paramDescription?_eq_some {doc : Doc} {before after : List Keyword} {k : Keyword} {name text : List Char}
    (hkeywords : doc.keywords = before ++ k :: after)
    (hbefore : ∀ k ∈ before, k.name = "param" → ∀ text, Doc.readParam? k.description.toList ≠ some (name, text))
    (hk : k.name = "param") (hread : Doc.readParam? k.description.toList = some (name, text)) (htext : text ≠ []) :
    doc.paramDescription? (String.ofList name) = some (String.ofList text) := by
  rw [Doc.paramDescription?, hkeywords]
  refine findSome?_filter_append_cons ?_ (by simpa using hk) ?_
  · intro x hx hparam
    have hother := hbefore x hx (by simpa using hparam)
    cases hx' : Doc.readParam? x.description.toList with
    | none => rfl
    | some read =>
      obtain ⟨name', text'⟩ := read
      have hne : name' ≠ name := by
        rintro rfl
        exact hother text' hx'
      simp [hne]
  · simp [hread, htext]

/-- Of one keyword a comment says only what is read of it. -/
theorem eq_of_paramDescription?_singleton {description : Option String} {k : Keyword} {name text : List Char}
    {param s : String} (hread : Doc.readParam? k.description.toList = some (name, text))
    (h : Doc.paramDescription? ⟨description, [k]⟩ param = some s) : String.ofList text = s := by
  by_cases hk : k.name = "param"
  · simp only [Doc.paramDescription?, hk, beq_self_eq_true, List.filter_cons_of_pos, List.filter_nil,
      List.findSome?_singleton, hread, Option.ite_none_right_eq_some, Option.some.injEq] at h
    exact h.2
  · simp [Doc.paramDescription?, hk] at h

/-- A plain tag says its text about its parameter, whatever other tags come before or behind it; any other tag does
not, unless its name is made of dashes. -/
theorem paramTag_says_text (tag : ParamTag) :
    (tag.IsPlain → ∀ doc, tag.IsFirstIn doc →
      doc.paramDescription? (String.ofList tag.name) = some (String.ofList tag.text)) ∧
    (¬ tag.IsPlain → (∃ c ∈ tag.name, c ≠ '-') → ∀ description,
      Doc.paramDescription? ⟨description, [tag.keyword]⟩ (String.ofList tag.name) ≠ some (String.ofList tag.text)) := by
  constructor
  · rintro hplain doc ⟨before, after, hkeywords, hbefore⟩
    refine paramDescription?_eq_some hkeywords ?_ rfl ?_ tag.text_tight.ne_nil
    · intro k hk hparam text hread
      obtain ⟨hflat, habout⟩ := hbefore k hk hparam
      exact habout (hflat.isAbout hread)
    · rw [ParamTag.keyword, String.toList_ofList, tag.readParam?_of_isPlain hplain]
  · intro hplain hname description hsays
    obtain ⟨name, more, hread, xs, c, ys, hc, hdash, rfl⟩ := tag.readsMore_of_not_isPlain hplain hname
    have hne := undashed_ne tag.text_tight hc hdash xs ys
    have hkeyword : Doc.readParam? tag.keyword.description.toList = _ :=
      (congrArg Doc.readParam? String.toList_ofList).trans hread
    exact hne (String.ofList_injective (eq_of_paramDescription?_singleton hkeyword hsays))

theorem IsAbout.subset {name text : List Char} (h : IsAbout name text) : name ⊆ text := by
  obtain ⟨before, type, between, opened, value, closed, rest, rfl, _⟩ := h
  intro c hc
  simp [hc]

/-- An optional parameter with a default value. -/
def countTag : ParamTag where
  type := some "number".toList
  type_closes := by simp [bracesClose]
  name := "count".toList
  name_ne_nil := by decide
  name_plain := by simp [isBlank, Nat.ble]
  form := .withDefault "1".toList (by decide)
  isDashed := true
  text := "How often".toList
  text_tight := by decide
  text_undashed := by decide

def countDoc : Doc :=
  Doc.parse "*\n * Says it.\n * @param \x7bstring\x7d word\n * @param \x7bnumber\x7d [count=1] - How often\n ".toList

theorem paramTag_says_count : countTag.IsPlain ∧ countTag.IsFirstIn countDoc ∧
    countDoc.paramDescription? "count" = some "How often" := by
  have hplain : countTag.IsPlain := by
    refine ⟨by simp [countTag], fun value unbracketed hform => ?_⟩
    obtain rfl : "1".toList = value := (ParamForm.withDefault.inj hform)
    simp [isBlank, Nat.ble]
  have hfirst : countTag.IsFirstIn countDoc := by
    refine ⟨[⟨"param", "\x7bstring\x7d word"⟩], [], by decide +kernel, ?_⟩
    rintro k hk -
    obtain rfl := List.mem_singleton.mp hk
    constructor
    · intro inside rest htrim _ hmem
      rw [(by decide : Tight "\x7bstring\x7d word".toList).trim_eq] at htrim
      have hin : '\x7b' ∈ "string\x7d word".toList := by
        rw [show "string\x7d word".toList = inside ++ '\x7d' :: rest from (List.cons.inj htrim).2]
        exact List.mem_append_left _ hmem
      exact absurd hin (by decide)
    · intro habout
      exact absurd (habout.subset (by decide : 'u' ∈ countTag.name)) (by decide)
  exact ⟨hplain, hfirst, (paramTag_says_text countTag).1 hplain countDoc hfirst⟩

/-- A type with braces of its own. -/
def recordTag : ParamTag where
  type := some "\x7ba: string\x7d".toList
  type_closes := by simp [bracesClose]
  name := ['p']
  name_ne_nil := by decide
  name_plain := by simp [isBlank, Nat.ble]
  form := .bare
  isDashed := false
  text := ['t']
  text_tight := by decide
  text_undashed := by decide

/-- A default value with a blank. -/
def spacedTag : ParamTag :=
  { recordTag with
    type := some "string".toList
    type_closes := by simp [bracesClose]
    form := .withDefault "a b".toList (by decide)
    isDashed := true }

/-- A tag says nothing about its parameter, or part of the default value with its text. -/
theorem nested_brace_and_blank_end_early :
    recordTag.keyword = ⟨"param", "\x7b\x7ba: string\x7d\x7d p t"⟩ ∧
      Doc.paramDescription? ⟨none, [recordTag.keyword]⟩ "p" = none ∧
    spacedTag.keyword = ⟨"param", "\x7bstring\x7d [p=a b] - t"⟩ ∧
      Doc.paramDescription? ⟨none, [spacedTag.keyword]⟩ "p" = some "b] - t" := by
  refine ⟨by decide +kernel, by decide +kernel, by decide +kernel, by decide +kernel⟩

end ComponentDoc.Comment
