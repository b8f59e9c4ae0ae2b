import ComponentDoc.Document.TypeDescriptor
import ComponentDoc.Proofs.Text.Place
import ComponentDoc.Proofs.Text.Trim

/-!
Type tags as they are written, and the types that are read of them. A written tag has members in braces, with
bars between them and blanks around them. A tag is cut at the first closing brace and then at every bar, whatever
they stand in: its members are read back just when none of them has such a character, and no member that is
meant as a name has quotes at both of its ends.
-/
namespace ComponentDoc.TypeDescriptor

open Text

/-- A member of a tag: a string in quotes, or the text of a type. -/
inductive TagMember where
  | quoted (quote : Char) (content : List Char) (isQuote : quote = '"' ∨ quote = '\'') (closes : quote ∉ content)
  | unquoted (text : List Char) (tight : Tight text)

/-- The text is a quote, and something, and the same quote again. -/
def InQuotes (text : List Char) : Prop :=
  ∃ quote content, (quote = '"' ∨ quote = '\'') ∧ text = quote :: (content ++ [quote])

namespace TagMember

def text : TagMember → List Char
  | .quoted quote content _ _ => quote :: (content ++ [quote])
  | .unquoted text _ => text

/-- The type that is meant. -/
def type : TagMember → TypeDescriptor
  | .quoted _ content _ _ => .const (String.ofList content)
  | .unquoted text _ => .named (String.ofList text)

/-- Nothing in the member ends it early, and a name does not look like a string. -/
def IsPlain : TagMember → Prop
  | .quoted _ content _ _ => '|' ∉ content ∧ '\x7d' ∉ content
  | .unquoted text _ => '|' ∉ text ∧ '\x7d' ∉ text ∧ ¬ InQuotes text

end TagMember

/-- A member with the blanks around it. -/
structure PaddedMember where
  before : List Char
  member : TagMember
  after : List Char
  before_blank : ∀ c ∈ before, isBlank c
  after_blank : ∀ c ∈ after, isBlank c

def PaddedMember.text (m : PaddedMember) : List Char :=
  m.before ++ m.member.text ++ m.after

/-- One type stands for itself, several are a union. -/
def ofMembers : List TypeDescriptor → TypeDescriptor
  | [t] => t
  | ts => .union ts

/-- Members with bars between them. -/
def joined (m : PaddedMember) : List PaddedMember → List Char
  | [] => m.text
  | n :: rest => m.text ++ '|' :: joined n rest

structure TypeTag where
  first : PaddedMember
  rest : List PaddedMember

namespace TypeTag

def members (tag : TypeTag) : List TagMember :=
  (tag.first :: tag.rest).map PaddedMember.member

/-- The tag in its braces, with any text behind it. -/
def payload (tag : TypeTag) (prose : List Char) : List Char :=
  '\x7b' :: (joined tag.first tag.rest ++ '\x7d' :: prose)

/-- The type that is meant. -/
def type (tag : TypeTag) : TypeDescriptor :=
  ofMembers (tag.members.map TagMember.type)

end TypeTag

theorem unquote?_eq_some_iff {quote : Char} {cs inside : List Char} :
    unquote? quote cs = some inside ↔ cs = quote :: (inside ++ [quote]) := by
  cases cs with
  | nil => simp [unquote?]
  | cons c cs =>
    rcases List.eq_nil_or_concat' cs with rfl | ⟨front, d, rfl⟩
    · simp [unquote?]
    · simp only [unquote?, List.reverse_append, List.reverse_cons, List.reverse_nil, List.nil_append,
        List.singleton_append, List.reverse_reverse, List.cons.injEq]
      by_cases hc : c = quote
      · by_cases hd : d = quote
        · simp [hc, hd]
        · simp [hc, hd]
      · simp [hc]

theorem ofTagMember_quoted {quote : Char} (hquote : quote = '"' ∨ quote = '\'') (content : List Char) :
    ofTagMember (quote :: (content ++ [quote])) = .const (String.ofList content) := by
  have hself : unquote? quote (quote :: (content ++ [quote])) = some content := unquote?_eq_some_iff.mpr rfl
  rcases hquote with rfl | rfl
  · rw [ofTagMember, hself, Option.some_or]
  · have hother : unquote? '"' ('\'' :: (content ++ ['\''])) = none := rfl
    rw [ofTagMember, hself, hother, Option.none_or]

theorem ofTagMember_of_not_inQuotes {cs : List Char} (h : ¬ InQuotes cs) :
    ofTagMember cs = .named (String.ofList cs) := by
  have hnone {quote : Char} (hquote : quote = '"' ∨ quote = '\'') : unquote? quote cs = none := by
    by_contra hsome
    obtain ⟨content, hcontent⟩ := Option.ne_none_iff_exists'.mp hsome
    exact h ⟨quote, content, hquote, unquote?_eq_some_iff.mp hcontent⟩
  rw [ofTagMember, hnone (.inl rfl), hnone (.inr rfl), Option.none_or]

/-- A member is read as one of the two. -/
theorem ofTagMember_cases (cs : List Char) :
    (∃ quote content, cs = quote :: (content ++ [quote]) ∧ ofTagMember cs = .const (String.ofList content)) ∨
      ¬ InQuotes cs ∧ ofTagMember cs = .named (String.ofList cs) := by
  by_cases h : InQuotes cs
  · obtain ⟨quote, content, hquote, rfl⟩ := h
    exact .inl ⟨quote, content, rfl, ofTagMember_quoted hquote content⟩
  · exact .inr ⟨h, ofTagMember_of_not_inQuotes h⟩

theorem TagMember.tight_text (m : TagMember) : Tight m.text := by
  cases m with
  | quoted quote content isQuote closes =>
    have hquote : isBlank quote = false := by rcases isQuote with rfl | rfl <;> decide
    refine ⟨List.cons_ne_nil _ _, ?_, ?_⟩
    · intro c hc
      obtain rfl : quote = c := Option.some.inj hc
      exact hquote
    · intro c hc
      rw [text, ← List.cons_append, List.getLast?_concat] at hc
      obtain rfl : quote = c := Option.some.inj hc
      exact hquote
  | unquoted text tight => exact tight

theorem PaddedMember.trim_text (m : PaddedMember) : trim m.text = m.member.text :=
  m.member.tight_text.trim_padded m.before_blank m.after_blank

theorem TagMember.IsPlain.ofTagMember_eq {m : TagMember} (h : m.IsPlain) : ofTagMember m.text = m.type := by
  cases m with
  | quoted quote content isQuote closes => exact ofTagMember_quoted isQuote content
  | unquoted text tight => exact ofTagMember_of_not_inQuotes h.2.2

/-- The types that are read of the text in the braces. -/
def readMembers (body : List Char) : List TypeDescriptor :=
  (splitOn '|' body).map fun piece => ofTagMember (trim piece)

theorem ofTag?_eq (payload : List Char) : ofTag? payload =
    if (tagBody payload).isEmpty then none else some (ofMembers (readMembers (tagBody payload))) := by
  rw [ofTag?, readMembers]
  congr 1
  rcases splitOn '|' (tagBody payload) with _ | ⟨first, _ | ⟨second, rest⟩⟩
  · rfl
  · rfl
  · rfl

/-- What is read of a text with no closing brace is plain, as the text is cut at every bar. -/
theorem TagMember.isPlain_of_mem_readMembers {m : TagMember} {body : List Char} (hbody : '\x7d' ∉ body)
    (h : m.type ∈ readMembers body) : m.IsPlain := by
  obtain ⟨piece, hpiece, hread⟩ := List.mem_map.mp h
  have hbar : '|' ∉ trim piece := fun hc => (of_mem_splitOn hpiece (trim_subset hc)).1 rfl
  have hbrace : '\x7d' ∉ trim piece := fun hc => hbody (of_mem_splitOn hpiece (trim_subset hc)).2
  rcases ofTagMember_cases (trim piece) with ⟨quote, content, heq, hconst⟩ | ⟨hquotes, hnamed⟩
  · rw [hconst] at hread
    cases m with
    | quoted quote' content' isQuote closes =>
      obtain rfl : content = content' := String.ofList_injective (TypeDescriptor.const.inj hread)
      have hsub {c : Char} (hc : c ∈ content) : c ∈ trim piece := by simp [heq, hc]
      exact ⟨fun hc => hbar (hsub hc), fun hc => hbrace (hsub hc)⟩
    | unquoted text tight => cases hread
  · rw [hnamed] at hread
    cases m with
    | quoted quote content isQuote closes => cases hread
    | unquoted text tight =>
      obtain rfl : trim piece = text := String.ofList_injective (TypeDescriptor.named.inj hread)
      exact ⟨hbar, hbrace, hquotes⟩

theorem trim_braced (inside rest : List Char) : trim ('\x7b' :: (inside ++ '\x7d' :: rest)) =
    '\x7b' :: (inside ++ '\x7d' :: dropEndWhile isBlank rest) := by
  have hopen : isBlank '\x7b' = false := by decide
  have hclose : isBlank '\x7d' = false := by decide
  rw [trim, trimStart, List.dropWhile_cons_of_neg (by simp [hopen]), ← List.cons_append,
    dropEndWhile_append_cons hclose, List.cons_append]

/-- The text is cut at the first closing brace. -/
theorem tagBody_of_cutAt? {inside rest body rest' : List Char} (hbody : '\x7d' ∉ body)
    (h : inside ++ '\x7d' :: dropEndWhile isBlank rest = body ++ '\x7d' :: rest') :
    tagBody ('\x7b' :: (inside ++ '\x7d' :: rest)) = trim body := by
  have hcut := cutAt?_eq_some_iff.mpr ⟨hbody, h⟩
  rw [tagBody, trim_braced]
  simp only [hcut]

theorem not_mem_tagBody (inside rest : List Char) :
    '\x7d' ∉ tagBody ('\x7b' :: (inside ++ '\x7d' :: rest)) := by
  have hmem : '\x7d' ∈ inside ++ '\x7d' :: dropEndWhile isBlank rest := by simp
  obtain ⟨body, rest', heq, hbody⟩ := List.eq_append_cons_of_mem hmem
  rw [tagBody_of_cutAt? hbody heq]
  exact fun hc => hbody (trim_subset hc)

theorem not_mem_of_isBlank {d : Char} (hd : isBlank d = false) {cs : List Char} (h : ∀ c ∈ cs, isBlank c) :
    d ∉ cs := by
  intro hmem
  rw [h d hmem] at hd
  cases hd

/-- A character that is no blank is in the member itself. -/
theorem PaddedMember.mem_text_iff {m : PaddedMember} {d : Char} (hd : isBlank d = false) :
    d ∈ m.text ↔ d ∈ m.member.text := by
  simp [PaddedMember.text, not_mem_of_isBlank hd m.before_blank, not_mem_of_isBlank hd m.after_blank]

theorem TagMember.IsPlain.not_mem_text {m : TagMember} (h : m.IsPlain) : '|' ∉ m.text ∧ '\x7d' ∉ m.text := by
  cases m with
  | quoted quote content isQuote closes =>
    have hbar : quote ≠ '|' := by rcases isQuote with rfl | rfl <;> decide
    have hbrace : quote ≠ '\x7d' := by rcases isQuote with rfl | rfl <;> decide
    simp [text, h.1, h.2, hbar.symm, hbrace.symm]
  | unquoted text tight => exact ⟨h.1, h.2.1⟩

theorem not_mem_joined {m : PaddedMember} {rest : List PaddedMember}
    (h : ∀ n ∈ m :: rest, n.member.IsPlain) : '\x7d' ∉ joined m rest := by
  have htext (n : PaddedMember) (hn : n ∈ m :: rest) : '\x7d' ∉ n.text := by
    rw [PaddedMember.mem_text_iff (by decide)]
    exact (h n hn).not_mem_text.2
  clear h
  induction rest generalizing m with
  | nil => exact htext m List.mem_cons_self
  | cons n rest ih =>
    have hlater := ih fun k hk => htext k (List.mem_cons_of_mem m hk)
    simp [joined, htext m List.mem_cons_self, hlater]

/-- Members that are plain are read one by one, with no matter of the blanks at the end. -/
theorem readMembers_dropEnd {m : PaddedMember} {rest : List PaddedMember}
    (h : ∀ n ∈ m :: rest, n.member.IsPlain) :
    readMembers (dropEndWhile isBlank (joined m rest)) = (m :: rest).map fun n => n.member.type := by
  induction rest generalizing m with
  | nil =>
    have hm := h m List.mem_cons_self
    have hbar : '|' ∉ m.before ++ m.member.text := by
      have hblank : isBlank '|' = false := by decide
      simp [not_mem_of_isBlank hblank m.before_blank, hm.not_mem_text.1]
    have htrim : trim (m.before ++ m.member.text) = m.member.text := by
      simpa using m.member.tight_text.trim_padded m.before_blank (List.forall_mem_nil _)
    rw [joined, PaddedMember.text, m.member.tight_text.dropEnd_padded m.before m.after_blank, readMembers,
      splitOn_of_not_mem hbar, List.map_singleton, htrim, hm.ofTagMember_eq, List.map_singleton]
  | cons n rest ih =>
    have hm := h m List.mem_cons_self
    have hbar : '|' ∉ m.text := by
      rw [PaddedMember.mem_text_iff (by decide)]
      exact hm.not_mem_text.1
    have hrest := ih fun k hk => h k (List.mem_cons_of_mem m hk)
    rw [readMembers] at hrest
    rw [joined, dropEndWhile_append_cons (by decide), readMembers, splitOn_append_cons hbar, List.map_cons,
      m.trim_text, hm.ofTagMember_eq, hrest]
    rfl

/-- Blanks before the first member are dropped too. -/
theorem trim_joined (m : PaddedMember) (rest : List PaddedMember) : trim (joined m rest) =
    dropEndWhile isBlank (joined { m with before := [], before_blank := List.forall_mem_nil _ } rest) := by
  have hstart (after : List Char) :
      trimStart (m.before ++ m.member.text ++ after) = m.member.text ++ after := by
    rw [List.append_assoc, m.member.tight_text.trimStart_padded m.before_blank]
  cases rest with
  | nil => rw [trim, joined, joined, PaddedMember.text, hstart, PaddedMember.text, List.nil_append]
  | cons n rest =>
    rw [trim, joined, joined, PaddedMember.text, PaddedMember.text, List.append_assoc, hstart,
      List.nil_append, List.append_assoc]

theorem TagMember.type_ne_empty (m : TagMember) : m.type ≠ .named "" := by
  cases m with
  | quoted quote content isQuote closes => exact fun h => by cases h
  | unquoted text tight =>
    intro h
    exact tight.ne_nil (String.ofList_injective (TypeDescriptor.named.inj h))

theorem TagMember.type_ne_union (m : TagMember) (ts : List TypeDescriptor) : m.type ≠ .union ts := by
  cases m <;> exact fun h => by cases h

theorem ofTagMember_ne_union (cs : List Char) (ts : List TypeDescriptor) : ofTagMember cs ≠ .union ts := by
  intro h
  rcases ofTagMember_cases cs with ⟨_, _, _, hread⟩ | ⟨_, hread⟩
  · rw [h] at hread
    cases hread
  · rw [h] at hread
    cases hread

/-- Types that are no unions make up a type in one way only. -/
theorem ofMembers_inj {ts ts' : List TypeDescriptor} (h : ∀ t ∈ ts, ∀ us, t ≠ .union us)
    (h' : ∀ t ∈ ts', ∀ us, t ≠ .union us) (heq : ofMembers ts = ofMembers ts') : ts = ts' := by
  rcases ts with _ | ⟨t, _ | ⟨u, ts⟩⟩ <;> rcases ts' with _ | ⟨t', _ | ⟨u', ts'⟩⟩
  · rfl
  · exact absurd heq.symm (h' t' List.mem_cons_self _)
  · exact TypeDescriptor.union.inj heq
  · exact absurd heq (h t List.mem_cons_self _)
  · exact congrArg (fun t => [t]) heq
  · exact absurd heq (h t List.mem_cons_self _)
  · exact TypeDescriptor.union.inj heq
  · exact absurd heq.symm (h' t' List.mem_cons_self _)
  · exact TypeDescriptor.union.inj heq

theorem TypeTag.readMembers_payload {tag : TypeTag} (h : ∀ m ∈ tag.members, m.IsPlain) (prose : List Char) :
    readMembers (tagBody (tag.payload prose)) = tag.members.map TagMember.type := by
  have hplain (n : PaddedMember) (hn : n ∈ tag.first :: tag.rest) : n.member.IsPlain :=
    h n.member (List.mem_map_of_mem hn)
  have hbody : tagBody (tag.payload prose) = trim (joined tag.first tag.rest) :=
    tagBody_of_cutAt? (not_mem_joined hplain) rfl
  rw [hbody, trim_joined, readMembers_dropEnd]
  · simp [members]
  · intro n hn
    rcases List.mem_cons.mp hn with rfl | hn
    · exact hplain tag.first List.mem_cons_self
    · exact hplain n (List.mem_cons_of_mem _ hn)

/-- The members of a tag are read back just when they are plain, whatever blanks are around them and whatever
text comes behind the tag. -/
theorem ofTag?_payload_iff (tag : TypeTag) (prose : List Char) :
    ofTag? (tag.payload prose) = some tag.type ↔ ∀ m ∈ tag.members, m.IsPlain := by
  rw [ofTag?_eq]
  constructor
  · intro h m hm
    split_ifs at h
    have hread : readMembers (tagBody (tag.payload prose)) = tag.members.map TagMember.type := by
      apply ofMembers_inj _ _ (Option.some.inj h)
      · intro t ht us
        obtain ⟨piece, _, rfl⟩ := List.mem_map.mp ht
        exact ofTagMember_ne_union _ us
      · intro t ht us
        obtain ⟨n, _, rfl⟩ := List.mem_map.mp ht
        exact n.type_ne_union us
    have hmem : m.type ∈ readMembers (tagBody (tag.payload prose)) := by
      rw [hread]
      exact List.mem_map_of_mem hm
    exact m.isPlain_of_mem_readMembers (not_mem_tagBody _ prose) hmem
  · intro h
    have hread := TypeTag.readMembers_payload h prose
    have hbody : (tagBody (tag.payload prose)).isEmpty = false := by
      by_contra hempty
      have hnil : tagBody (tag.payload prose) = [] := by simpa using hempty
      rw [hnil] at hread
      exact tag.first.member.type_ne_empty (List.cons.inj hread).1.symm
    rw [hbody, hread]
    rfl

/-- A string with a quote of the other sort, and a type with brackets. -/
def plainTag : TypeTag where
  first :=
    ⟨[' '], .quoted '"' "it's".toList (.inl rfl) (by decide), ['\n'], by simp [isBlank], by simp [isBlank]⟩
  rest := [⟨[], .unquoted "Array<string>".toList (by decide), [], by simp, by simp⟩]

theorem ofTag?_payload_plainTag : plainTag.payload " list".toList =
      "\x7b \"it's\"\n|Array<string>\x7d list".toList ∧
    ofTag? (plainTag.payload " list".toList) = some (.union [.const "it's", .named "Array<string>"]) := by
  refine ⟨rfl, (ofTag?_payload_iff plainTag _).mpr ?_⟩
  have hname : ¬ InQuotes "Array<string>".toList := by
    rintro ⟨quote, content, rfl | rfl, heq⟩
    · cases (List.cons.inj heq).1
    · cases (List.cons.inj heq).1
  intro m hm
  simp only [TypeTag.members, plainTag, List.map_cons, List.map_nil, List.mem_cons, List.not_mem_nil,
    or_false] at hm
  rcases hm with rfl | rfl
  · exact ⟨by decide, by decide⟩
  · exact ⟨by decide, by decide, hname⟩

/-- The brackets of a text are closed in turn, and every bar is in brackets. The stack has what is to close those
that are open, the innermost first. -/
def isBalancedFrom (stack : List Char) : List Char → Bool
  | [] => stack.isEmpty
  | c :: cs =>
    if c == '<' then isBalancedFrom ('>' :: stack) cs
    else if c == '(' then isBalancedFrom (')' :: stack) cs
    else if c == '[' then isBalancedFrom (']' :: stack) cs
    else if c == '\x7b' then isBalancedFrom ('\x7d' :: stack) cs
    else if c == '>' || c == ')' || c == ']' || c == '\x7d' then
      stack.head? == some c && isBalancedFrom stack.tail cs
    else (c != '|' || !stack.isEmpty) && isBalancedFrom stack cs

def isBalanced (text : List Char) : Bool :=
  isBalancedFrom [] text

/-- A union in the brackets of a type. -/
def nestedTag : TypeTag where
  first := ⟨[], .unquoted "Array<string|number>".toList (by decide), [], by simp, by simp⟩
  rest := []

/-- A type is taken apart at a bar in its brackets. -/
theorem bar_in_brackets_ends_member : nestedTag.payload [] = "\x7bArray<string|number>\x7d".toList ∧
    isBalanced "Array<string|number>".toList ∧ nestedTag.type = .named "Array<string|number>" ∧
    ofTag? (nestedTag.payload []) = some (.union [.named "Array<string", .named "number>"]) := by
  refine ⟨rfl, by decide, rfl, rfl⟩

end ComponentDoc.TypeDescriptor
