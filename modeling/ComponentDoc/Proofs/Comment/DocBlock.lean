import ComponentDoc.Comment.Doc
import ComponentDoc.Proofs.Text.Trim

namespace ComponentDoc

open Text

namespace Text

/-- A character that ends no line is the first of its line. -/
theorem lines_cons {c : Char} {cs line : List Char} {rest : List (List Char)} (hc : c ≠ '\n')
    (hreturn : ¬ (c = '\r' ∧ cs.head? = some '\n')) (h : lines cs = line :: rest) :
    lines (c :: cs) = (c :: line) :: rest := by
  rw [lines, h]
  · exact hc
  · rintro rest hcr rfl
    exact hreturn ⟨hcr, rfl⟩

/-- A line goes up to its line feed; a carriage return before that is part of the ending. -/
theorem lines_append_lineFeed {line : List Char} (h : '\n' ∉ line) (cs : List Char) :
    ∃ line', lines (line ++ '\n' :: cs) = line' :: lines cs ∧ (line = line' ∨ line = line' ++ ['\r']) := by
  induction line with
  | nil => exact ⟨[], by rw [List.nil_append, lines], .inl rfl⟩
  | cons c line ih =>
    obtain ⟨hc, hline⟩ : '\n' ≠ c ∧ '\n' ∉ line := by simpa using h
    obtain ⟨line', hlines, hend⟩ := ih hline
    by_cases hreturn : c = '\r' ∧ line = []
    · obtain ⟨rfl, rfl⟩ := hreturn
      exact ⟨[], rfl, .inr rfl⟩
    · refine ⟨c :: line', lines_cons hc.symm ?_ hlines, ?_⟩
      · rintro ⟨hcr, hhead⟩
        cases line with
        | nil => exact hreturn ⟨hcr, rfl⟩
        | cons d line => exact hline (by simp [Option.some.inj hhead])
      · rcases hend with rfl | rfl
        · exact .inl rfl
        · exact .inr rfl

theorem lines_of_not_mem {line : List Char} (hne : line ≠ []) (h : '\n' ∉ line) : lines line = [line] := by
  induction line with
  | nil => exact absurd rfl hne
  | cons c line ih =>
    obtain ⟨hc, hline⟩ : '\n' ≠ c ∧ '\n' ∉ line := by simpa using h
    cases line with
    | nil =>
      rw [lines]
      · rfl
      · exact hc.symm
      · rintro _ _ ⟨⟩
    | cons d line =>
      refine lines_cons hc.symm ?_ (ih (List.cons_ne_nil d line) hline)
      rintro ⟨_, hhead⟩
      exact hline (by simp [Option.some.inj hhead])

theorem mem_of_mem_lines {cs line : List Char} {c : Char} (hline : line ∈ lines cs) (hc : c ∈ line) : c ∈ cs := by
  fun_induction lines cs generalizing line with
  | case1 => cases hline
  | case2 cs ih =>
    rcases List.mem_cons.mp hline with rfl | hline
    · cases hc
    · exact List.mem_cons_of_mem _ (ih hline hc)
  | case3 cs ih =>
    rcases List.mem_cons.mp hline with rfl | hline
    · cases hc
    · exact List.mem_cons_of_mem _ (List.mem_cons_of_mem _ (ih hline hc))
  | case4 d cs hlf hcrlf hnone ih =>
    obtain rfl := List.mem_singleton.mp hline
    obtain rfl := List.mem_singleton.mp hc
    exact List.mem_cons_self
  | case5 d cs hlf hcrlf first rest hsome ih =>
    rw [hsome] at ih
    rcases List.mem_cons.mp hline with rfl | hline
    · rcases List.mem_cons.mp hc with rfl | hc
      · exact List.mem_cons_self
      · exact List.mem_cons_of_mem _ (ih List.mem_cons_self hc)
    · exact List.mem_cons_of_mem _ (ih (List.mem_cons_of_mem _ hline) hc)

/-- Joined lines as a string. -/
theorem ofList_joinLines (texts : List (List Char)) :
    String.ofList (joinLines texts) = "\n".intercalate (texts.map String.ofList) := by
  induction texts with
  | nil => rfl
  | cons text texts ih =>
    cases texts with
    | nil => simp [joinLines]
    | cons next texts =>
      rw [joinLines, String.ofList_append, String.ofList_cons, ih]
      · simp [String.append_assoc]
      · exact List.cons_ne_nil next texts

end Text

namespace Comment

/-- What a line of a block is for: a line of description, or a tag. -/
inductive Entry where
  | text (line : List Char) (tight : Tight line) (single : '\n' ∉ line) (untagged : line.head? ≠ some '@')
  | tag (name description : List Char) (named : name ≠ []) (unbroken : ∀ c ∈ name, isBlank c = false)
      (trimmed : description = [] ∨ Tight description) (single : '\n' ∉ description)

namespace Entry

def chars : Entry → List Char
  | .text line _ _ _ => line
  | .tag name [] _ _ _ _ => '@' :: name
  | .tag name description _ _ _ _ => '@' :: (name ++ ' ' :: description)

def text? : Entry → Option (List Char)
  | .text line _ _ _ => some line
  | .tag .. => none

def keyword? : Entry → Option Keyword
  | .text .. => none
  | .tag name description _ _ _ _ => some ⟨String.ofList name, String.ofList description⟩

end Entry

inductive LineEnd where
  | lineFeed
  | returnAndLineFeed

/-- What an ending has before its line feed. -/
def LineEnd.lead : LineEnd → List Char
  | .lineFeed => []
  | .returnAndLineFeed => ['\r']

/-- A line of a block, with the ending of the line before it and with blanks at its own end; a line without an entry
has its star only. -/
structure BlockLine where
  lineEnd : LineEnd
  entry : Option Entry
  trailing : List Char
  trailing_blank : ∀ c ∈ trailing, isBlank c
  trailing_single : '\n' ∉ trailing

def BlockLine.chars (line : BlockLine) : List Char :=
  match line.entry with
  | some entry => ' ' :: '*' :: ' ' :: entry.chars ++ line.trailing
  | none => ' ' :: '*' :: line.trailing

/-- A block without its delimiters: the second star of the opening one, the lines, and the blanks before the
closing one. -/
structure DocBlock where
  lines : List BlockLine
  closing : List Char
  closing_blank : ∀ c ∈ closing, isBlank c

namespace DocBlock

def chars (block : DocBlock) : List Char :=
  '*' :: (block.lines.flatMap fun line => line.lineEnd.lead ++ '\n' :: line.chars) ++ block.closing

def entries (block : DocBlock) : List Entry :=
  block.lines.filterMap BlockLine.entry

/-- The lines of description with a line feed between them. -/
def description (block : DocBlock) : Option String :=
  match block.entries.filterMap Entry.text? with
  | [] => none
  | texts => some ("\n".intercalate (texts.map String.ofList))

def keywords (block : DocBlock) : List Keyword :=
  block.entries.filterMap Entry.keyword?

end DocBlock

theorem Line.parse_append_blanks (line : List Char) {after : List Char} (h : ∀ c ∈ after, isBlank c) :
    Line.parse (line ++ after) = Line.parse line := by
  rw [Line.parse, undecorated, trim_append_blanks line h, Line.parse, undecorated]

theorem Line.parse_blanks {line : List Char} (h : ∀ c ∈ line, isBlank c) : Line.parse line = .blank := by
  rw [Line.parse, undecorated, trim_eq_nil h]
  rfl

/-- Stars are taken off up to the blank after the first one, so that those of the line itself stay. -/
theorem undecorated_starred {line : List Char} (h : Tight line) :
    undecorated (' ' :: '*' :: ' ' :: line) = line := by
  have hstar : isBlank '*' = false := by decide
  have hspace : isBlank ' ' := by decide
  have htight : Tight (['*', ' '] ++ line) := h.append_left (by simp [hstar])
  have htrim : trim (' ' :: '*' :: ' ' :: line) = '*' :: ' ' :: line := htight.trim_cons hspace
  rw [undecorated, htrim]
  exact h.trim_cons hspace

namespace Entry

theorem tight_chars (entry : Entry) : Tight entry.chars := by
  cases entry with
  | text line tight single untagged => exact tight
  | tag name description named unbroken trimmed single =>
    have hat : isBlank '@' = false := by decide
    cases description with
    | nil => exact tight_of_forall (List.cons_ne_nil _ _) (by simpa [chars, hat] using unbroken)
    | cons c rest =>
      have htight : Tight (c :: rest) := trimmed.resolve_left (List.cons_ne_nil c rest)
      have hsplit : '@' :: (name ++ ' ' :: c :: rest) = ('@' :: (name ++ [' '])) ++ c :: rest := by simp
      rw [chars, hsplit]
      · exact htight.append_left (by simp [hat])
      · exact List.cons_ne_nil c rest

theorem not_mem_chars (entry : Entry) : '\n' ∉ entry.chars := by
  cases entry with
  | text line tight single untagged => exact single
  | tag name description named unbroken trimmed single =>
    have hname : '\n' ∉ name := fun hmem => absurd (unbroken _ hmem) (by decide)
    cases description with
    | nil => simp [chars, hname]
    | cons c rest =>
      rw [chars]
      · simpa [hname] using single
      · exact List.cons_ne_nil c rest

/-- What a line is read as. -/
def line : Entry → Line
  | .text line _ _ _ => .text line
  | .tag name description _ _ _ _ => .keyword ⟨String.ofList name, String.ofList description⟩

theorem parse_starred (entry : Entry) : Line.parse (' ' :: '*' :: ' ' :: entry.chars) = entry.line := by
  rw [Line.parse, undecorated_starred entry.tight_chars]
  cases entry with
  | text line tight single untagged =>
    obtain ⟨c, rest, rfl⟩ := List.exists_cons_of_ne_nil tight.ne_nil
    have hc : c ≠ '@' := fun heq => untagged (congrArg some heq)
    simp [chars, Entry.line, hc]
  | tag name description named unbroken trimmed single =>
    cases description with
    | nil => simp [chars, Entry.line, cutAtBlank?_eq_none unbroken, named]
    | cons c rest =>
      have htight : Tight (c :: rest) := trimmed.resolve_left (List.cons_ne_nil c rest)
      have hblank : isBlank ' ' := by decide
      simp [chars, Entry.line, cutAtBlank?_word unbroken hblank, htight.trim_eq, named]

end Entry

theorem BlockLine.parse_chars (line : BlockLine) :
    Line.parse line.chars = (line.entry.map Entry.line).getD .blank := by
  obtain ⟨lineEnd, entry, trailing, trailing_blank, trailing_single⟩ := line
  cases entry with
  | none => exact Line.parse_append_blanks [' ', '*'] trailing_blank
  | some entry =>
    exact (Line.parse_append_blanks (' ' :: '*' :: ' ' :: entry.chars) trailing_blank).trans entry.parse_starred

theorem BlockLine.not_mem_chars (line : BlockLine) : '\n' ∉ line.chars := by
  obtain ⟨lineEnd, entry, trailing, trailing_blank, trailing_single⟩ := line
  cases entry with
  | none => simp [BlockLine.chars, trailing_single]
  | some entry => simp [BlockLine.chars, entry.not_mem_chars, trailing_single]

theorem BlockLine.chars_ne_nil (line : BlockLine) : line.chars ≠ [] := by
  obtain ⟨lineEnd, entry, trailing, trailing_blank, trailing_single⟩ := line
  cases entry <;> exact List.cons_ne_nil _ _

/-- What the lines of a text say. -/
def readLines (text : List Char) : List Line :=
  (lines text).map Line.parse

/-- A carriage return at the end of a line is a blank, so that it is all the same whether it counts as part of the
ending. -/
theorem readLines_line {line : List Char} (h : '\n' ∉ line) (rest : List Char) :
    readLines (line ++ '\n' :: rest) = Line.parse line :: readLines rest := by
  obtain ⟨line', hlines, hend⟩ := lines_append_lineFeed h rest
  have hparse : Line.parse line' = Line.parse line := by
    rcases hend with rfl | rfl
    · rfl
    · rw [Line.parse_append_blanks line' (by simp [isBlank])]
  rw [readLines, hlines, List.map_cons, hparse, readLines]

/-- After the last line that is written there are blank ones at most. -/
theorem readLines_last {line closing : List Char} (hne : line ≠ []) (hline : '\n' ∉ line)
    (hclosing : ∀ c ∈ closing, isBlank c) :
    ∃ blanks, readLines (line ++ closing) = Line.parse line :: blanks ∧ ∀ b ∈ blanks, b = .blank := by
  by_cases hmem : '\n' ∈ closing
  · obtain ⟨before, after, rfl, hbefore⟩ := List.eq_append_cons_of_mem hmem
    refine ⟨readLines after, ?_, ?_⟩
    · rw [← List.append_assoc, readLines_line (by simp [hline, hbefore]),
        Line.parse_append_blanks line fun c hc => hclosing c (by simp [hc])]
    · intro b hb
      obtain ⟨blank, hblank, rfl⟩ := List.mem_map.mp hb
      exact Line.parse_blanks fun c hc => hclosing c (by simp [mem_of_mem_lines hblank hc])
  · refine ⟨[], ?_, List.forall_mem_nil _⟩
    rw [readLines, lines_of_not_mem (by simp [hne]) (by simp [hline, hmem]), List.map_singleton,
      Line.parse_append_blanks line hclosing]

/-- The lines of a block are read one after another, from whatever line comes before them. -/
theorem readLines_block {first closing : List Char} (hne : first ≠ []) (hfirst : '\n' ∉ first)
    (hclosing : ∀ c ∈ closing, isBlank c) (block : List BlockLine) :
    ∃ blanks, readLines (first ++ (block.flatMap fun line => line.lineEnd.lead ++ '\n' :: line.chars) ++ closing) =
        Line.parse first :: (block.map (fun line => Line.parse line.chars) ++ blanks) ∧
      ∀ b ∈ blanks, b = .blank := by
  induction block generalizing first with
  | nil => simpa using readLines_last hne hfirst hclosing
  | cons line block ih =>
    obtain ⟨blanks, hrest, hblanks⟩ := ih line.chars_ne_nil line.not_mem_chars
    have hlead : ∀ c ∈ line.lineEnd.lead, isBlank c ∧ c ≠ '\n' := by
      cases line.lineEnd <;> simp [LineEnd.lead, isBlank]
    have hended : '\n' ∉ first ++ line.lineEnd.lead := by
      simpa [hfirst] using fun hmem => (hlead _ hmem).2 rfl
    refine ⟨blanks, ?_, hblanks⟩
    calc readLines (first ++ ((line :: block).flatMap fun line => line.lineEnd.lead ++ '\n' :: line.chars) ++ closing)
        = readLines ((first ++ line.lineEnd.lead) ++ '\n' ::
            (line.chars ++ (block.flatMap fun line => line.lineEnd.lead ++ '\n' :: line.chars) ++ closing)) := by
          simp
      _ = Line.parse first :: (Line.parse line.chars ::
            (block.map (fun line => Line.parse line.chars) ++ blanks)) := by
          rw [readLines_line hended, Line.parse_append_blanks first fun c hc => (hlead c hc).1, hrest]
      _ = _ := by simp

/-- What is taken of the lines of a block is taken of its entries, where blank lines give nothing. -/
theorem filterMap_readLines {β : Type} {f : Line → Option β} (hf : f .blank = none) (block : DocBlock) :
    (readLines block.chars).filterMap f = block.entries.filterMap fun entry => f entry.line := by
  obtain ⟨blanks, hread, hblanks⟩ :=
    readLines_block (List.cons_ne_nil '*' []) (by decide) block.closing_blank block.lines
  have hfirst : Line.parse ['*'] = .blank := rfl
  have hnone : blanks.filterMap f = [] := by
    rw [List.filterMap_eq_nil_iff]
    intro b hb
    rw [hblanks b hb, hf]
  have hline (line : BlockLine) : f (Line.parse line.chars) = line.entry.bind fun entry => f entry.line := by
    rw [line.parse_chars]
    cases line.entry with
    | none => exact hf
    | some entry => rfl
  have hchars : block.chars =
      ['*'] ++ (block.lines.flatMap fun line => line.lineEnd.lead ++ '\n' :: line.chars) ++ block.closing := rfl
  rw [hchars, hread, hfirst, List.filterMap_cons_none hf, List.filterMap_append, hnone, List.append_nil,
    List.filterMap_map, DocBlock.entries, List.filterMap_filterMap]
  simp only [Function.comp_def, hline]

/-- A block gives back its lines of description and its tags, each in their order. -/
theorem parse_docBlock (block : DocBlock) : Doc.parse block.chars = ⟨block.description, block.keywords⟩ := by
  have htext (entry : Entry) : entry.line.text? = entry.text? := by cases entry <;> rfl
  have hkeyword (entry : Entry) : entry.line.keyword? = entry.keyword? := by cases entry <;> rfl
  have htexts : (readLines block.chars).filterMap Line.text? = block.entries.filterMap Entry.text? := by
    rw [filterMap_readLines rfl]
    simp only [htext]
  have hkeywords : (readLines block.chars).filterMap Line.keyword? = block.keywords := by
    rw [filterMap_readLines rfl, DocBlock.keywords]
    simp only [hkeyword]
  have hparse : Doc.parse block.chars =
      ⟨if ((readLines block.chars).filterMap Line.text?).isEmpty then none
        else some (String.ofList (joinLines ((readLines block.chars).filterMap Line.text?))),
       (readLines block.chars).filterMap Line.keyword?⟩ := rfl
  rw [hparse, htexts, hkeywords, DocBlock.description, ofList_joinLines]
  cases block.entries.filterMap Entry.text? with
  | nil => rfl
  | cons line lines => rfl

-- A bullet keeps its star, and a tag needs no text.
example : ∃ block : DocBlock, block.chars = "*\r\n * * one\n *\n * @since 1.0\n * @private \n ".toList ∧
    block.description = some "* one" ∧ block.keywords = [⟨"since", "1.0"⟩, ⟨"private", ""⟩] :=
  ⟨⟨[⟨.returnAndLineFeed, some (.text "* one".toList (by decide) (by decide) (by decide)), [], by simp, by simp⟩,
     ⟨.lineFeed, none, [], by simp, by simp⟩,
     ⟨.lineFeed,
      some (.tag "since".toList "1.0".toList (by decide) (by simp [isBlank, Nat.ble]) (.inr (by decide)) (by decide)),
      [], by simp, by simp⟩,
     ⟨.lineFeed, some (.tag "private".toList [] (by decide) (by simp [isBlank, Nat.ble]) (.inl rfl) (by decide)), [' '],
      by simp [isBlank], by decide⟩],
    ['\n', ' '], by simp [isBlank]⟩, rfl, rfl, rfl⟩

end Comment

end ComponentDoc
