import JavaSource.Proofs.Text.Word
import JavaSource.Text.Replace
import Mathlib.Data.List.Basic

namespace JavaSource.Text

variable {pattern replacement : List Char} {c : Char}

private theorem isPrefixOf_append_cons (hc : c ∉ pattern) (front rest : List Char) :
    pattern.isPrefixOf (front ++ c :: rest) = pattern.isPrefixOf front := by
  rw [Bool.eq_iff_iff, List.isPrefixOf_iff_prefix, List.isPrefixOf_iff_prefix]
  refine ⟨?_, fun h => h.trans (List.prefix_append front _)⟩
  rintro ⟨tail, htail⟩
  rcases List.append_eq_append_iff.mp htail with ⟨more, hfront, _⟩ | ⟨more, hpattern, hrest⟩
  · exact ⟨more, hfront.symm⟩
  · cases more with
    | nil => exact ⟨[], by simpa using hpattern⟩
    | cons d more =>
      obtain ⟨rfl, _⟩ := List.cons.inj hrest
      exact absurd (by simp [hpattern]) hc

/-- A character that is not in the pattern parts a text: no occurrence goes
    across it. -/
theorem replaceFrom_append_cons (hne : pattern ≠ []) (hc : c ∉ pattern) {skip : Nat}
    {front : List Char} (hskip : skip ≤ front.length) (rest : List Char) :
    replaceFrom pattern replacement skip (front ++ c :: rest) =
      replaceFrom pattern replacement skip front ++ c :: replaceFrom pattern replacement 0 rest := by
  induction front generalizing skip with
  | nil =>
    obtain rfl : skip = 0 := by simpa using hskip
    have hprefix := isPrefixOf_append_cons hc [] rest
    have hnil : pattern.isPrefixOf [] = false := by
      cases pattern with
      | nil => exact absurd rfl hne
      | cons d pattern => rfl
    rw [hnil, List.nil_append] at hprefix
    simp [replaceFrom, hprefix]
  | cons d front ih =>
    cases skip with
    | succ skip =>
      rw [List.cons_append, replaceFrom, replaceFrom]
      exact ih (by simpa using hskip)
    | zero =>
      have hprefix := isPrefixOf_append_cons hc (d :: front) rest
      rw [List.cons_append] at hprefix
      rw [List.cons_append, replaceFrom, replaceFrom, hprefix]
      split
      · next hoccurs =>
        -- The occurrence ends in the front, so what is left of it to skip does too.
        have hlength := (List.isPrefixOf_iff_prefix.mp hoccurs).length_le
        rw [List.length_cons] at hlength
        rw [ih (by omega), List.append_assoc]
      · rw [ih (Nat.zero_le _), List.cons_append]

/-- No occurrence reaches across a character that the pattern does not have. -/
theorem replace_append_cons (hne : pattern ≠ []) (hc : c ∉ pattern) (front rest : List Char) :
    replace pattern replacement (front ++ c :: rest) =
      replace pattern replacement front ++ c :: replace pattern replacement rest := by
  have hempty : pattern.isEmpty = false := by simpa using hne
  simp only [replace, hempty]
  exact replaceFrom_append_cons hne hc (Nat.zero_le _) rest

/-- A character at which the pattern does not occur is kept. -/
theorem replace_cons_of_not_isPrefix {text : List Char} (hmiss : ¬ pattern <+: c :: text) :
    replace pattern replacement (c :: text) = c :: replace pattern replacement text := by
  have hne : pattern.isEmpty = false := by
    cases pattern with
    | nil => exact absurd List.nil_prefix hmiss
    | cons d pattern => rfl
  have hprefix : ¬ pattern.isPrefixOf (c :: text) = true := mt List.isPrefixOf_iff_prefix.mp hmiss
  simp only [replace, hne]
  rw [replaceFrom, if_neg hprefix]
  rfl

/-- No occurrence begins in a text without the first character of the pattern. -/
theorem replace_append_of_notMem {first : Char} {more front : List Char} (h : first ∉ front)
    (text : List Char) :
    replace (first :: more) replacement (front ++ text) =
      front ++ replace (first :: more) replacement text := by
  induction front with
  | nil => rfl
  | cons d front ih =>
    rw [List.mem_cons, not_or] at h
    have hmiss : ¬ first :: more <+: d :: (front ++ text) := fun hoccurs =>
      h.1 (List.cons_prefix_cons.mp hoccurs).1
    rw [List.cons_append, replace_cons_of_not_isPrefix hmiss, ih h.2, List.cons_append]

/-- A text without the first character of the pattern is kept. -/
theorem replace_of_notMem {first : Char} {more : List Char} {text : List Char} (h : first ∉ text) :
    replace (first :: more) replacement text = text := by
  have happend : replace (first :: more) replacement (text ++ []) = text ++ [] :=
    replace_append_of_notMem h []
  rwa [List.append_nil] at happend

/-- A text and what becomes of it when the occurrences of a pattern are replaced, each where
    the scan from the left first meets it. -/
inductive Replaces (pattern replacement : List Char) : List Char → List Char → Prop where
  | done : Replaces pattern replacement [] []
  | hit {text result : List Char} (h : Replaces pattern replacement text result) :
    Replaces pattern replacement (pattern ++ text) (replacement ++ result)
  | skip {c : Char} {text result : List Char} (hmiss : ¬ pattern <+: c :: text)
    (h : Replaces pattern replacement text result) : Replaces pattern replacement (c :: text) (c :: result)

/-- Skipping characters is replacing in what is behind them. -/
theorem replaceFrom_eq_drop (skip : Nat) (text : List Char) :
    replaceFrom pattern replacement skip text = replaceFrom pattern replacement 0 (text.drop skip) := by
  induction text generalizing skip with
  | nil => rw [List.drop_nil, replaceFrom, replaceFrom]
  | cons c text ih =>
    cases skip with
    | zero => rfl
    | succ skip => rw [replaceFrom, ih, List.drop_succ_cons]

/-- An occurrence is replaced, and the search goes on behind it. -/
theorem replace_append_self (hne : pattern ≠ []) (text : List Char) :
    replace pattern replacement (pattern ++ text) = replacement ++ replace pattern replacement text := by
  obtain ⟨first, more, rfl⟩ := List.exists_cons_of_ne_nil hne
  have hoccurs : (first :: more).isPrefixOf (first :: (more ++ text)) = true := by simp
  have hfrom : replaceFrom (first :: more) replacement 0 (first :: (more ++ text)) =
      replacement ++ replaceFrom (first :: more) replacement 0 text := by
    rw [replaceFrom, if_pos hoccurs, replaceFrom_eq_drop, List.length_cons, Nat.add_sub_cancel, List.drop_left]
  exact hfrom

/-- The scan replaces each occurrence where it first meets it. -/
theorem replaces_replace (hne : pattern ≠ []) (text : List Char) :
    Replaces pattern replacement text (replace pattern replacement text) := by
  -- Behind an occurrence the scan goes on with a shorter text, but not with the tail.
  induction hlength : text.length using Nat.strong_induction_on generalizing text with
  | h length ih =>
    by_cases hoccurs : pattern <+: text
    · obtain ⟨tail, rfl⟩ := hoccurs
      have hpositive := List.length_pos_iff.mpr hne
      rw [List.length_append] at hlength
      rw [replace_append_self hne]
      exact .hit (ih tail.length (by omega) tail rfl)
    · cases text with
      | nil =>
        obtain ⟨first, more, rfl⟩ := List.exists_cons_of_ne_nil hne
        exact .done
      | cons c rest =>
        rw [List.length_cons] at hlength
        rw [replace_cons_of_not_isPrefix hoccurs]
        exact .skip hoccurs (ih rest.length (by omega) rest rfl)

/-- What begins with a character that a text does not have occurs behind that text only. -/
theorem isInfix_of_isInfix_append {first : Char} {more front text : List Char} (hfirst : first ∉ front)
    (h : first :: more <:+: front ++ text) : first :: more <:+: text := by
  induction front with
  | nil => exact h
  | cons d front ih =>
    rw [List.mem_cons, not_or] at hfirst
    rw [List.cons_append, List.infix_cons_iff] at h
    refine ih hfirst.2 (h.resolve_left fun hprefix => ?_)
    exact hfirst.1 (List.cons_prefix_cons.mp hprefix).1

variable {first last : Char} {inner text result : List Char}

/-- What ends with a character that is never inserted, and has no whole replacement in it,
    stands at the front of a result only if it stood there before. -/
theorem Replaces.isPrefix_of_isPrefix (h : Replaces pattern replacement text result)
    (hlast : last ∉ replacement) (hinner : ¬ replacement <:+: inner)
    (hfront : inner ++ [last] <+: result) : inner ++ [last] <+: text := by
  induction h generalizing inner with
  | done => exact hfront
  | hit h ih =>
    rcases List.prefix_or_prefix_of_prefix hfront (List.prefix_append replacement _) with hshort | hlong
    · exact absurd (hshort.subset (by simp)) hlast
    · obtain rfl | hwhole := List.prefix_concat_iff.mp hlong
      · exact absurd (by simp) hlast
      · exact absurd hwhole.isInfix hinner
  | skip hmiss h ih =>
    cases inner with
    | nil =>
      obtain ⟨rfl, _⟩ := List.cons_prefix_cons.mp hfront
      exact List.cons_prefix_cons.mpr ⟨rfl, List.nil_prefix⟩
    | cons d inner =>
      obtain ⟨rfl, hrest⟩ := List.cons_prefix_cons.mp hfront
      exact List.cons_prefix_cons.mpr ⟨rfl, ih (mt List.infix_cons hinner) hrest⟩

/-- A replacement makes no new occurrence if it has neither end of the pattern and does not
    fit in between. -/
theorem Replaces.not_isInfix (h : Replaces (first :: (inner ++ [last])) replacement text result)
    (hfirst : first ∉ replacement) (hlast : last ∉ replacement) (hinner : ¬ replacement <:+: inner) :
    ¬ first :: (inner ++ [last]) <:+: result := by
  induction h with
  | done => simp
  | hit h ih => exact mt (isInfix_of_isInfix_append hfirst) ih
  | skip hmiss h ih =>
    intro hinfix
    obtain hprefix | hrest := List.infix_cons_iff.mp hinfix
    · obtain ⟨rfl, htail⟩ := List.cons_prefix_cons.mp hprefix
      exact hmiss (List.cons_prefix_cons.mpr ⟨rfl, h.isPrefix_of_isPrefix hlast hinner htail⟩)
    · exact ih hrest

/-- One that fits in between can make one: the rest of the pattern may stand around an
    occurrence. -/
theorem exists_replace_eq_pattern (hfirst : first ∉ inner ++ [last]) (hinner : replacement <:+: inner) :
    ∃ text, replace (first :: (inner ++ [last])) replacement text = first :: (inner ++ [last]) := by
  obtain ⟨before, after, rfl⟩ := hinner
  have hsplit : before ++ replacement ++ after ++ [last] = before ++ (replacement ++ (after ++ [last])) := by
    simp
  rw [hsplit] at hfirst ⊢
  rw [List.mem_append, not_or] at hfirst
  obtain ⟨hbefore, hbehind⟩ := hfirst
  have hafter : first ∉ after ++ [last] := mt (List.mem_append_right replacement) hbehind
  generalize hpattern : first :: (before ++ (replacement ++ (after ++ [last]))) = pattern
  have hmiss : ¬ pattern <+: first :: (before ++ (pattern ++ (after ++ [last]))) := by
    intro hprefix
    rw [← hpattern, List.cons_prefix_cons, List.prefix_append_right_inj] at hprefix
    have hne : replacement ++ (after ++ [last]) ≠ [] := by simp
    obtain ⟨d, more, hcons⟩ := List.exists_cons_of_ne_nil hne
    rw [hcons] at hprefix hbehind
    exact hbehind ((List.cons_prefix_cons.mp hprefix.2).1 ▸ List.mem_cons_self)
  refine ⟨first :: (before ++ (pattern ++ (after ++ [last]))), ?_⟩
  rw [replace_cons_of_not_isPrefix hmiss]
  subst hpattern
  rw [replace_append_of_notMem hbefore, replace_append_self (by simp), replace_of_notMem hafter]

/-- A word that no occurrence of a pattern can touch is still there when all of
    them are replaced. -/
theorem StandsIn.replace {inWord : Char → Prop} {word text : List Char} {first : Char}
    {more : List Char} (h : StandsIn inWord word text) (hpattern : ∀ c ∈ first :: more, inWord c)
    (hword : first ∉ word) (replacement : List Char) :
    StandsIn inWord word (Text.replace (first :: more) replacement text) := by
  obtain ⟨before, after, rfl, hdelimits⟩ := h
  have hne : first :: more ≠ [] := by simp
  -- Without an occurrence in front of it, the word is followed by what follows it.
  have hright : ∃ after', Text.replace (first :: more) replacement (word ++ after) = word ++ after' ∧
      Delimits inWord [] after' := by
    cases after with
    | nil =>
      refine ⟨[], ?_, .nil⟩
      rw [List.append_nil]
      exact replace_of_notMem hword
    | cons c after =>
      have hc : ¬ inWord c := hdelimits.right c rfl
      refine ⟨c :: Text.replace (first :: more) replacement after, ?_, nofun, ?_⟩
      · rw [replace_append_cons hne (fun hmem => hc (hpattern c hmem)), replace_of_notMem hword]
      · intro d hd
        obtain rfl := Option.some.inj hd
        exact hc
  obtain ⟨after', hafter', hdelimits'⟩ := hright
  have hstands : StandsIn inWord word (word ++ after') := by
    simpa using StandsIn.refl.surround hdelimits'
  rw [List.append_assoc]
  rcases List.eq_nil_or_concat before with rfl | ⟨front, c, rfl⟩
  · rw [List.nil_append, hafter']
    exact hstands
  · have hc : ¬ inWord c := hdelimits.left c (by simp)
    rw [List.concat_eq_append, List.append_assoc, List.singleton_append,
      replace_append_cons hne (fun hmem => hc (hpattern c hmem)), hafter']
    exact hstands.cons_append hc _

end JavaSource.Text
