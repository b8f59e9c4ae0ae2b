import ComponentDoc.Text.Blank
import Mathlib

namespace ComponentDoc.Text

section

variable {p : Char → Bool}

theorem dropEndWhile_eq_nil {cs : List Char} (h : ∀ c ∈ cs, p c) : dropEndWhile p cs = [] := by
  rw [dropEndWhile, List.reverse_eq_nil_iff, List.dropWhile_eq_nil_iff]
  intro c hc
  exact h c (List.mem_reverse.mp hc)

/-- Only what comes before a character that stays can be dropped. -/
theorem dropWhile_append_cons {d : Char} (hd : p d = false) (xs ys : List Char) :
    (xs ++ d :: ys).dropWhile p = xs.dropWhile p ++ d :: ys := by
  rw [List.dropWhile_append, List.dropWhile_cons_of_neg (by simp [hd])]
  split_ifs with hempty
  · rw [List.isEmpty_iff.mp hempty, List.nil_append]
  · rfl

/-- Only what comes after a character that stays can be dropped. -/
theorem dropEndWhile_append_cons {d : Char} (hd : p d = false) (xs ys : List Char) :
    dropEndWhile p (xs ++ d :: ys) = xs ++ d :: dropEndWhile p ys := by
  have hstays : (d :: xs.reverse).dropWhile p = d :: xs.reverse := by
    rw [List.dropWhile_cons_of_neg (by simp [hd])]
  rw [dropEndWhile, dropEndWhile, List.reverse_append, List.reverse_cons, List.append_assoc,
    List.singleton_append, List.dropWhile_append, hstays]
  split_ifs with hempty
  · simp [List.isEmpty_iff.mp hempty]
  · simp

theorem exists_eq_dropEndWhile (p : Char → Bool) (cs : List Char) :
    ∃ dropped, cs = dropEndWhile p cs ++ dropped ∧ ∀ c ∈ dropped, p c := by
  refine ⟨(cs.reverse.takeWhile p).reverse, ?_, fun c hc => List.mem_takeWhile_imp (List.mem_reverse.mp hc)⟩
  rw [dropEndWhile, ← List.reverse_append, List.takeWhile_append_dropWhile, List.reverse_reverse]

theorem dropEndWhile_append_of_forall {ys : List Char} (h : ∀ c ∈ ys, p c) (xs : List Char) :
    dropEndWhile p (xs ++ ys) = dropEndWhile p xs := by
  have hdrop : (ys.reverse ++ xs.reverse).dropWhile p = xs.reverse.dropWhile p :=
    List.dropWhile_append_of_pos fun c hc => h c (List.mem_reverse.mp hc)
  rw [dropEndWhile, List.reverse_append, hdrop, dropEndWhile]

end

theorem trim_eq_nil {cs : List Char} (h : ∀ c ∈ cs, isBlank c) : trim cs = [] := by
  rw [trim, trimStart, List.dropWhile_eq_nil_iff.mpr h]
  rfl

/-- Blanks at the end of a text do not matter. -/
theorem trim_append_blanks (cs : List Char) {after : List Char} (h : ∀ c ∈ after, isBlank c) :
    trim (cs ++ after) = trim cs := by
  rw [trim, trim, trimStart, trimStart, List.dropWhile_append]
  split_ifs with hempty
  · rw [List.isEmpty_iff.mp hempty, List.dropWhile_eq_nil_iff.mpr h]
  · exact dropEndWhile_append_of_forall h _

/-- A text that is not empty and has no blank at its ends. -/
structure Tight (cs : List Char) : Prop where
  ne_nil : cs ≠ []
  head : ∀ c ∈ cs.head?, isBlank c = false
  last : ∀ c ∈ cs.getLast?, isBlank c = false

theorem tight_iff {cs : List Char} : Tight cs ↔
    cs ≠ [] ∧ cs.head?.all (fun c => !isBlank c) ∧ cs.getLast?.all (fun c => !isBlank c) := by
  simp only [Option.all_eq_true, Bool.not_eq_true']
  exact ⟨fun ⟨hne, hhead, hlast⟩ => ⟨hne, hhead, hlast⟩, fun ⟨hne, hhead, hlast⟩ => ⟨hne, hhead, hlast⟩⟩

instance (cs : List Char) : Decidable (Tight cs) :=
  decidable_of_iff _ tight_iff.symm

/-- A text without blanks is tight. -/
theorem tight_of_forall {cs : List Char} (hne : cs ≠ []) (h : ∀ c ∈ cs, isBlank c = false) : Tight cs :=
  ⟨hne, fun c hc => h c (List.mem_of_mem_head? hc), fun c hc => h c (List.mem_of_getLast? hc)⟩

namespace Tight

variable {cs : List Char} (h : Tight cs)
include h

theorem trimStart_padded {before : List Char} (hbefore : ∀ c ∈ before, isBlank c) (after : List Char) :
    trimStart (before ++ (cs ++ after)) = cs ++ after := by
  obtain ⟨c, rest, rfl⟩ := List.exists_cons_of_ne_nil h.ne_nil
  have hc : isBlank c = false := h.head c rfl
  rw [trimStart, List.dropWhile_append_of_pos hbefore, List.cons_append,
    List.dropWhile_cons_of_neg (by simp [hc])]

theorem dropEnd_padded (before : List Char) {after : List Char} (hafter : ∀ c ∈ after, isBlank c) :
    dropEndWhile isBlank (before ++ cs ++ after) = before ++ cs := by
  obtain ⟨front, d, rfl⟩ := (List.eq_nil_or_concat' cs).resolve_left h.ne_nil
  have hd : isBlank d = false := h.last d (by simp)
  have hsplit : before ++ (front ++ [d]) ++ after = (before ++ front) ++ d :: after := by simp
  rw [hsplit, dropEndWhile_append_cons hd, dropEndWhile_eq_nil hafter]
  simp

/-- Only the start of what comes before a tight text can be a blank. -/
theorem append_left {front : List Char} (hfront : ∀ c ∈ front.head?, isBlank c = false) : Tight (front ++ cs) := by
  refine ⟨fun hnil => h.ne_nil (List.append_eq_nil_iff.mp hnil).2, ?_, ?_⟩
  · intro c hc
    cases front with
    | nil => exact h.head c hc
    | cons d front => exact hfront c hc
  · intro c hc
    rw [List.getLast?_append_of_ne_nil front h.ne_nil] at hc
    exact h.last c hc

theorem trim_padded {before after : List Char} (hbefore : ∀ c ∈ before, isBlank c)
    (hafter : ∀ c ∈ after, isBlank c) : trim (before ++ cs ++ after) = cs := by
  rw [trim, List.append_assoc, h.trimStart_padded hbefore]
  exact h.dropEnd_padded [] hafter

theorem trim_eq : trim cs = cs := by
  simpa using h.trim_padded (List.forall_mem_nil _) (List.forall_mem_nil _)

theorem trim_cons {b : Char} (hb : isBlank b) : trim (b :: cs) = cs := by
  have hpadded : trim ([b] ++ cs ++ []) = cs := h.trim_padded (by simpa using hb) (List.forall_mem_nil _)
  simpa using hpadded

end Tight

/-- What is between a character that is no blank and a tight end stays. -/
theorem trim_append_cons {c : Char} {last : List Char} (hc : isBlank c = false) (hlast : Tight last)
    (xs ys : List Char) : trim (xs ++ c :: (ys ++ last)) = trimStart xs ++ c :: (ys ++ last) := by
  have hend := hlast.dropEnd_padded (trimStart xs ++ c :: ys) (List.forall_mem_nil _)
  rw [List.append_nil, List.append_assoc, List.cons_append] at hend
  rw [trim, trimStart, dropWhile_append_cons hc]
  exact hend

/-- A text is what is left of it by trimming, with blanks around. -/
theorem exists_padded (cs : List Char) :
    ∃ before after, cs = before ++ trim cs ++ after ∧ (∀ c ∈ before, isBlank c) ∧ ∀ c ∈ after, isBlank c := by
  obtain ⟨after, heq, hafter⟩ := exists_eq_dropEndWhile isBlank (trimStart cs)
  refine ⟨cs.takeWhile isBlank, after, ?_, fun c hc => List.mem_takeWhile_imp hc, hafter⟩
  calc cs = cs.takeWhile isBlank ++ trimStart cs := List.takeWhile_append_dropWhile.symm
    _ = cs.takeWhile isBlank ++ (trim cs ++ after) := congrArg _ heq
    _ = cs.takeWhile isBlank ++ trim cs ++ after := (List.append_assoc _ _ _).symm

theorem trim_subset {c : Char} {cs : List Char} (h : c ∈ trim cs) : c ∈ cs := by
  have hstart : c ∈ trimStart cs := by
    have hreverse := (List.dropWhile_sublist isBlank).subset (List.mem_reverse.mp h)
    exact List.mem_reverse.mp hreverse
  exact (List.dropWhile_sublist isBlank).subset hstart

theorem cutAtBlank?_word {word : List Char} (hword : ∀ c ∈ word, isBlank c = false) {b : Char} (hb : isBlank b)
    (rest : List Char) : cutAtBlank? (word ++ b :: rest) = some (word, rest) := by
  induction word with
  | nil => rw [List.nil_append, cutAtBlank?, if_pos hb]
  | cons c word ih =>
    have hc : isBlank c = false := hword c List.mem_cons_self
    have hrest := ih fun d hd => hword d (List.mem_cons_of_mem c hd)
    rw [List.cons_append, cutAtBlank?, if_neg (by simp [hc]), hrest]
    rfl

/-- A text is a word, or it has a first blank. -/
theorem word_or_exists_blank (cs : List Char) : (∀ c ∈ cs, isBlank c = false) ∨
    ∃ word b rest, cs = word ++ b :: rest ∧ (∀ c ∈ word, isBlank c = false) ∧ isBlank b := by
  induction cs with
  | nil => exact .inl (List.forall_mem_nil _)
  | cons c cs ih =>
    cases hc : isBlank c with
    | true => exact .inr ⟨[], c, cs, rfl, List.forall_mem_nil _, hc⟩
    | false =>
      rcases ih with hword | ⟨word, b, rest, rfl, hword, hb⟩
      · exact .inl (List.forall_mem_cons.mpr ⟨hc, hword⟩)
      · exact .inr ⟨c :: word, b, rest, rfl, List.forall_mem_cons.mpr ⟨hc, hword⟩, hb⟩

theorem cutAtBlank?_eq_none {word : List Char} (hword : ∀ c ∈ word, isBlank c = false) :
    cutAtBlank? word = none := by
  induction word with
  | nil => rfl
  | cons c word ih =>
    have hc : isBlank c = false := hword c List.mem_cons_self
    rw [cutAtBlank?, if_neg (by simp [hc]), ih fun d hd => hword d (List.mem_cons_of_mem c hd)]
    rfl

theorem splitOn_eq (d : Char) (cs : List Char) : splitOn d cs = cs.splitOn d := by
  induction cs with
  | nil => rfl
  | cons c cs ih =>
    obtain ⟨piece, pieces, hpieces⟩ := List.exists_cons_of_ne_nil (List.splitOn_ne_nil d cs)
    rw [splitOn, ih, hpieces]
    rw [List.splitOn_eq_splitOnP] at hpieces ⊢
    rw [List.splitOnP_cons_eq_if_modifyHead, hpieces]
    rfl

theorem beq_eq_false_of_not_mem {d : Char} {cs : List Char} (h : d ∉ cs) : ∀ c ∈ cs, (c == d) = false := by
  intro c hc
  rw [beq_eq_false_iff_ne]
  rintro rfl
  exact h hc

theorem splitOn_of_not_mem {d : Char} {cs : List Char} (h : d ∉ cs) : splitOn d cs = [cs] := by
  rw [splitOn_eq, List.splitOn_eq_splitOnP, List.splitOnP_eq_singleton (beq_eq_false_of_not_mem h)]

theorem splitOn_append_cons {d : Char} {piece : List Char} (h : d ∉ piece) (cs : List Char) :
    splitOn d (piece ++ d :: cs) = piece :: splitOn d cs := by
  rw [splitOn_eq, splitOn_eq, List.splitOn_eq_splitOnP, List.splitOn_eq_splitOnP,
    List.splitOnP_append_cons_of_forall_mem (beq_eq_false_of_not_mem h) d (beq_self_eq_true d)]

/-- No piece has the separator, nor anything that was not there before. -/
theorem of_mem_splitOn {d c : Char} {cs piece : List Char} (hpiece : piece ∈ splitOn d cs) (hc : c ∈ piece) :
    c ≠ d ∧ c ∈ cs := by
  induction cs generalizing piece with
  | nil =>
    obtain rfl := List.mem_singleton.mp hpiece
    cases hc
  | cons e cs ih =>
    obtain ⟨first, pieces, hpieces⟩ :=
      List.exists_cons_of_ne_nil (splitOn_eq d cs ▸ List.splitOn_ne_nil d cs)
    rw [hpieces] at ih
    simp only [splitOn, hpieces, beq_iff_eq] at hpiece
    have hlater {piece : List Char} (hpiece : piece ∈ first :: pieces) (hc : c ∈ piece) :
        c ≠ d ∧ c ∈ e :: cs := by
      obtain ⟨hne, hmem⟩ := ih hpiece hc
      exact ⟨hne, List.mem_cons_of_mem e hmem⟩
    split_ifs at hpiece with hed
    · rcases List.mem_cons.mp hpiece with rfl | hpiece
      · cases hc
      · exact hlater hpiece hc
    · rcases List.mem_cons.mp hpiece with rfl | hpiece
      · rcases List.mem_cons.mp hc with rfl | hc
        · exact ⟨hed, List.mem_cons_self⟩
        · exact hlater List.mem_cons_self hc
      · exact hlater (List.mem_cons_of_mem _ hpiece) hc

end ComponentDoc.Text
