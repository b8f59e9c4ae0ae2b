import ComponentDoc.Proofs.Component.Blanked
import ComponentDoc.Proofs.Component.Tags
import ComponentDoc.Proofs.Sequence

namespace ComponentDoc

open Text

theorem Text.Span.has_shift (s : Span) (n offset : Nat) : (s.shift n).has (n + offset) = s.has offset := by
  rw [Bool.eq_iff_iff]
  simp [Span.has, Span.shift]

theorem Text.Span.shift_shift (s : Span) (m n : Nat) : (s.shift m).shift n = s.shift (n + m) := by
  simp [Span.shift, Nat.add_assoc]

/-- Places that are moved on together with the spans are in the same of them. -/
theorem any_has_shift (spans : List Span) (n offset : Nat) :
    (spans.map (·.shift n)).any (·.has (n + offset)) = spans.any (·.has offset) := by
  simp [List.any_map, Function.comp_def, Span.has_shift]

theorem Comment.Source.shift_shift (c : Comment.Source) (m n : Nat) :
    (c.shift m).shift n = c.shift (n + m) := by
  simp [Comment.Source.shift, Span.shift_shift]

/-- Texts that differ from a mark in the first character do not start with it. -/
theorem Text.after?_cons_of_ne {c d : Char} (h : d ≠ c) (mark cs : List Char) :
    after? (d :: mark) (c :: cs) = none := by
  simp [after?, h]

theorem Text.ne_of_isBlank {c d : Char} (hc : isBlank c) (hd : isBlank d = false) : d ≠ c := by
  rintro rfl
  simp [hd] at hc

namespace Component

def Block.shift (b : Block) (n : Nat) : Block :=
  { b with span := b.span.shift n, contentStart := n + b.contentStart }

def Attribute.shift (a : Attribute) (n : Nat) : Attribute :=
  { a with start := n + a.start, value := a.value.map fun (value, start) => (value, n + start) }

def Tag.shift (t : Tag) (n : Nat) : Tag :=
  { t with start := n + t.start, attributes := t.attributes.map (·.shift n) }

theorem blockAt?_shift (name cs : List Char) (n offset : Nat) :
    blockAt? name cs (n + offset) = (blockAt? name cs offset).map (·.shift n) := by
  unfold blockAt?
  cases openTag? name cs with
  | none => rfl
  | some opened =>
    obtain ⟨attributes, rest⟩ := opened
    change (cutAtClose? name rest).bind _ = ((cutAtClose? name rest).bind _).map _
    cases cutAtClose? name rest with
    | none => rfl
    | some closed => simp [Block.shift, Span.shift, Nat.add_assoc]

theorem blockAt?_of_ne (name : List Char) {c : Char} (h : '<' ≠ c) (cs : List Char) (offset : Nat) :
    blockAt? name (c :: cs) offset = none := by
  simp [blockAt?, openTag?, after?_cons_of_ne h]

theorem htmlCommentAt?_shift (cs : List Char) (n offset : Nat) :
    htmlCommentAt? cs (n + offset) = (htmlCommentAt? cs offset).map (·.shift n) := by
  unfold htmlCommentAt?
  cases after? "<!--".toList cs with
  | none => rfl
  | some rest =>
    change (cutAtMark? "-->".toList rest).bind _ = ((cutAtMark? "-->".toList rest).bind _).map _
    cases cutAtMark? "-->".toList rest with
    | none => rfl
    | some cut => simp [Comment.Source.shift, Span.shift, Nat.add_assoc]

theorem htmlCommentAt?_of_ne {c : Char} (h : '<' ≠ c) (cs : List Char) (offset : Nat) :
    htmlCommentAt? (c :: cs) offset = none := by
  simp [htmlCommentAt?, after?_cons_of_ne h]

theorem attributeValue?_shift (place : List Char → Nat) (n : Nat) (cs : List Char) :
    attributeValue? (fun rest => n + place rest) cs = (attributeValue? place cs).map fun p =>
      (p.1.map fun (value, start) => (value, n + start), p.2) := by
  unfold attributeValue?
  split
  · simp [Function.comp_def, Nat.add_assoc]
  · rfl

theorem attributes?_shift (place : List Char → Nat) (n : Nat) (cs : List Char) :
    attributes? (fun rest => n + place rest) cs = (attributes? place cs).map fun p =>
      (p.1.map (·.shift n), p.2) := by
  fun_induction attributes? place cs with
  | case1 cs h => rw [attributes?_eq, h]; rfl
  | case2 cs rest h => rw [attributes?_eq, h]; rfl
  | case3 cs rest h ih => rw [attributes?_eq, h]; exact ih
  | case4 cs rest h ih => rw [attributes?_eq, h]; exact ih
  | case5 cs rest h ih => rw [attributes?_eq, h]; exact ih
  | case6 cs c more hc hc' hc'' hc''' h hv =>
    rw [attributes?_eq, h]
    simp [attributeValue?_shift, hv]
  | case7 cs c more hc hc' hc'' hc''' h name value rest hv ih =>
    rw [attributes?_eq, h]
    simp only [attributeValue?_shift, hv, Option.map_some, Option.bind_some, ih, Option.map_map]
    rfl

theorem tagAt?_shift (cs : List Char) (n offset : Nat) :
    tagAt? cs (n + offset) = (tagAt? cs offset).map fun p => (p.1.shift n, n + p.2) := by
  unfold tagAt?
  split
  · next c more =>
    split_ifs
    · simp only [Nat.add_assoc, attributes?_shift, Option.map_map]
      rfl
    · rfl
  · rfl

theorem blankOut_shift (spans : List Span) (n offset : Nat) (cs : List Char) :
    blankOut (spans.map (·.shift n)) (n + offset) cs = blankOut spans offset cs := by
  induction cs generalizing offset with
  | nil => rfl
  | cons c cs ih => simp only [blankOut, any_has_shift, Nat.add_assoc, ih]

/-- Nothing is blanked out before the first span. -/
theorem blankOut_behind (lead : List Char) (spans : List Span) (cs : List Char) :
    blankOut (spans.map (·.shift (byteLength lead))) 0 (lead ++ cs) = lead ++ blankOut spans 0 cs := by
  have hlead : blankOut (spans.map (·.shift (byteLength lead))) 0 lead = lead := by
    apply blankOut_eq_self
    intro n _ hlt
    rw [List.any_eq_false]
    intro s hs
    obtain ⟨t, _, rfl⟩ := List.mem_map.mp hs
    rw [Span.has_iff]
    simp only [Span.shift]
    omega
  rw [blankOut_append, hlead, Nat.add_comm, blankOut_shift]

section

variable {lead : List Char} (hlead : ∀ c ∈ lead, isBlank c)
include hlead

theorem blocks_behind (name text : List Char) :
    blocks name (lead ++ text) = (blocks name text).map (·.shift (byteLength lead)) := by
  rw [blocks_eq_scanFrom, blocks_eq_scanFrom]
  refine scanFrom_behind (fun _ => rfl) ?_ rfl ?_ text
  · intro cs offset
    rw [blockAt?_shift, Option.map_map, Option.map_map]
    rfl
  · intro c hc cs offset
    rw [blockAt?_of_ne name (ne_of_isBlank (hlead c hc) (by decide)), Option.map_none]

theorem htmlComments_behind (text : List Char) :
    htmlComments (lead ++ text) = (htmlComments text).map (·.shift (byteLength lead)) := by
  rw [htmlComments_eq_scanFrom, htmlComments_eq_scanFrom]
  refine scanFrom_behind (fun _ => rfl) ?_ rfl ?_ text
  · intro cs offset
    rw [htmlCommentAt?_shift, Option.map_map, Option.map_map]
    rfl
  · intro c hc cs offset
    rw [htmlCommentAt?_of_ne (ne_of_isBlank (hlead c hc) (by decide)), Option.map_none]

theorem liveBlocks_behind (name text : List Char) :
    liveBlocks name (lead ++ text) = (liveBlocks name text).map (·.shift (byteLength lead)) := by
  have hcomments (b : Block) :
      ((htmlComments text).map (·.shift (byteLength lead))).any
        (·.span.has (b.shift (byteLength lead)).span.start) =
      (htmlComments text).any (·.span.has b.span.start) := by
    rw [List.any_map]
    exact congrArg (List.any _) (funext fun c => c.span.has_shift _ _)
  unfold liveBlocks
  rw [blocks_behind hlead, htmlComments_behind hlead, List.filter_map]
  exact congrArg _ (congrArg (List.filter · _) (funext fun b => congrArg _ (hcomments b)))

end

end Component

/-- The script in a file where everything stands so many bytes further on. -/
def ScriptBlock.shift (script : ScriptBlock) (n : Nat) : ScriptBlock :=
  { script with offset := n + script.offset, comments := script.comments.map (·.shift n) }

theorem ScriptBlock.read_shift {text : List Char} {offset : Nat} {isModule isTypeScript : Bool}
    {script : ScriptBlock} (h : read text offset isModule isTypeScript = .ok script) (n : Nat) :
    read text (n + offset) isModule isTypeScript = .ok (script.shift n) := by
  unfold read at *
  cases hp : Script.parse isTypeScript text with
  | error fault => rw [hp] at h; cases h
  | ok program =>
    rw [hp] at h
    obtain rfl := Except.ok.inj h
    simp [shift, Function.comp_def, Comment.Source.shift_shift]

/-- The component whose file has a text before that of another. -/
def Component.behind (lead : List Char) (c : Component) : Component :=
  { c with
    source := lead ++ c.source
    markup := lead ++ c.markup
    scripts := c.scripts.map (·.shift (byteLength lead))
    markupComments := c.markupComments.map (·.shift (byteLength lead)) }

namespace Component

theorem contentStart_pos {name text : List Char} {b : Block} (h : b ∈ blocks name text) :
    0 < b.contentStart := by
  rw [blocks_eq_scanFrom] at h
  obtain ⟨cs, offset, stop, hat⟩ := exists_of_mem_scanFrom h
  obtain ⟨b', hb, hp⟩ := Option.map_eq_some_iff.mp hat
  obtain ⟨rfl, _⟩ := Prod.mk.inj hp
  obtain ⟨tag, rest, _, _, _, hstart, _⟩ := blockAt?_eq_some_iff.mp hb
  have hpos : 0 < byteLength ('<' :: (name ++ b'.attributes ++ ['>'])) := byteLength_pos (by simp)
  omega

/-- No script is the first thing in its file: its tag comes before it. -/
theorem offset_pos_of_parse {source : List Char} {path : Option String} {c : Component}
    (h : parse source path = .ok c) {script : ScriptBlock} (hs : script ∈ c.scripts) :
    0 < script.offset := by
  obtain ⟨scripts, hread, h⟩ := bind_eq_ok_iff.mp h
  obtain rfl := Except.ok.inj h
  obtain ⟨b, hb, hr⟩ := mem_of_forall₂ (mapM_eq_ok_iff.mp hread) hs
  have hpos := contentStart_pos (List.mem_of_mem_filter hb)
  unfold ScriptBlock.read at hr
  split at hr
  · rw [← Except.ok.inj hr]
    exact hpos
  · cases hr

end Component

section

variable {lead : List Char} (hlead : ∀ c ∈ lead, isBlank c)
include hlead

/-- Leading blanks change nothing in how a file is taken apart. -/
theorem Component.parse_behind {source : List Char} {path : Option String} {c : Component}
    (h : parse source path = .ok c) : parse (lead ++ source) path = .ok (c.behind lead) := by
  obtain ⟨scripts, hs, h⟩ := bind_eq_ok_iff.mp h
  obtain rfl := Except.ok.inj h
  have hscripts : (liveBlocks "script".toList (lead ++ source)).mapM (fun b =>
      ScriptBlock.read b.content b.contentStart b.isModule b.isTypeScript) =
      .ok (scripts.map (·.shift (byteLength lead))) := by
    rw [liveBlocks_behind hlead, mapM_eq_ok_iff, List.forall₂_map_left_iff, List.forall₂_map_right_iff]
    exact (mapM_eq_ok_iff.mp hs).imp fun b script hread => ScriptBlock.read_shift hread _
  refine bind_eq_ok_iff.mpr ⟨_, hscripts, congrArg Except.ok ?_⟩
  have hmarkup : blankOut ((liveBlocks "script".toList (lead ++ source) ++
      liveBlocks "style".toList (lead ++ source)).map Block.span) 0 (lead ++ source) =
      lead ++ blankOut ((liveBlocks "script".toList source ++
        liveBlocks "style".toList source).map Block.span) 0 source := by
    rw [liveBlocks_behind hlead, liveBlocks_behind hlead, ← List.map_append, List.map_map,
      ← blankOut_behind, List.map_map]
    rfl
  simp only [Component.behind, hmarkup, htmlComments_behind hlead]

theorem Component.tags_behind (c : Component) :
    (c.behind lead).tags = c.tags.map (·.shift (byteLength lead)) := by
  unfold tags
  rw [tagsFrom_eq_scanFrom, tagsFrom_eq_scanFrom]
  refine scanFrom_behind ?_ (fun cs offset => tagAt?_shift cs _ offset) rfl ?_ c.markup
  · intro offset
    rw [← any_has_shift (c.markupComments.map Comment.Source.span) (byteLength lead) offset, behind,
      List.map_map, List.map_map]
    rfl
  · intro d hd cs offset
    exact tagAt?_of_ne (ne_of_isBlank (hlead d hd) (by decide)) cs offset

end

end ComponentDoc
