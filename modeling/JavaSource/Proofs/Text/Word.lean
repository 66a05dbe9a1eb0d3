import JavaSource.Proofs.Text.Trim

namespace JavaSource.Text

/-- What stands around a word: neither side continues it. -/
structure Delimits (inWord : Char → Prop) (before after : List Char) : Prop where
  left : ∀ c, before.getLast? = some c → ¬ inWord c
  right : ∀ c, after.head? = some c → ¬ inWord c

/-- A word stands in a text where it is not a part of a longer one. -/
def StandsIn (inWord : Char → Prop) (word text : List Char) : Prop :=
  ∃ before after, text = before ++ word ++ after ∧ Delimits inWord before after

variable {inWord : Char → Prop} {word text : List Char} {c : Char}

theorem Delimits.nil : Delimits inWord [] [] := ⟨nofun, nofun⟩

/-- A word that is delimited in a text, where the text is delimited too, is
    delimited in the whole. -/
theorem Delimits.append {outer before after outer' : List Char} (hinner : Delimits inWord before after)
    (houter : Delimits inWord outer outer') : Delimits inWord (outer ++ before) (after ++ outer') := by
  refine ⟨?_, ?_⟩
  · intro c hc
    cases before with
    | nil => exact houter.left c (by simpa using hc)
    | cons d before =>
      rw [List.getLast?_append_of_ne_nil _ (by simp)] at hc
      exact hinner.left c hc
  · intro c hc
    cases after with
    | nil => exact houter.right c hc
    | cons d after => exact hinner.right c hc

/-- What delimits a word delimits it in every text that still has it. -/
theorem Delimits.of_append {outer before after outer' : List Char}
    (h : Delimits inWord (outer ++ before) (after ++ outer')) : Delimits inWord before after := by
  refine ⟨?_, ?_⟩
  · intro c hc
    refine h.left c ?_
    rw [List.getLast?_append_of_ne_nil _ (by rintro rfl; cases hc)]
    exact hc
  · intro c hc
    refine h.right c ?_
    rw [List.head?_append_of_ne_nil _ (by rintro rfl; cases hc)]
    exact hc

theorem StandsIn.refl : StandsIn inWord word word :=
  ⟨[], [], by simp, .nil⟩

/-- A word stands in a longer text if what is around the shorter one delimits it. -/
theorem StandsIn.surround {before after : List Char} (h : StandsIn inWord word text)
    (hdelimits : Delimits inWord before after) : StandsIn inWord word (before ++ text ++ after) := by
  obtain ⟨left, right, rfl, hinner⟩ := h
  exact ⟨before ++ left, right ++ after, by simp, hinner.append hdelimits⟩

/-- A word of a word of a text is a word of the text. -/
theorem StandsIn.trans {inner : List Char} (h : StandsIn inWord inner word)
    (hword : StandsIn inWord word text) : StandsIn inWord inner text := by
  obtain ⟨before, after, rfl, hdelimits⟩ := hword
  exact h.surround hdelimits

theorem StandsIn.mono {inWord' : Char → Prop} (h : StandsIn inWord word text)
    (himp : ∀ c, inWord' c → inWord c) : StandsIn inWord' word text := by
  obtain ⟨before, after, rfl, hdelimits⟩ := h
  exact ⟨before, after, rfl, fun c hc hin => hdelimits.left c hc (himp c hin),
    fun c hc hin => hdelimits.right c hc (himp c hin)⟩

theorem StandsIn.append_cons (h : StandsIn inWord word text) (hc : ¬ inWord c) (rest : List Char) :
    StandsIn inWord word (text ++ c :: rest) := by
  have hdelimits : Delimits inWord [] (c :: rest) := ⟨nofun, fun d hd => by
    obtain rfl := Option.some.inj hd
    exact hc⟩
  simpa using h.surround hdelimits

theorem StandsIn.cons_append (h : StandsIn inWord word text) (hc : ¬ inWord c) (front : List Char) :
    StandsIn inWord word (front ++ c :: text) := by
  have hdelimits : Delimits inWord (front ++ [c]) [] := ⟨fun d hd => by
    rw [List.getLast?_concat] at hd
    obtain rfl := Option.some.inj hd
    exact hc, nofun⟩
  simpa using h.surround hdelimits

/-- Words of the texts of a list are words of the list when its separator begins
    and ends outside words. -/
theorem StandsIn.intercalate {first last : Char} (hfirst : ¬ inWord first) (hlast : ¬ inWord last)
    {texts : List (List Char)} (h : StandsIn inWord word text) (hmem : text ∈ texts) :
    StandsIn inWord word ([first, last].intercalate texts) := by
  induction texts with
  | nil => cases hmem
  | cons head tail ih =>
    cases tail with
    | nil =>
      obtain rfl := List.mem_singleton.mp hmem
      simpa using h
    | cons next tail =>
      rw [List.intercalate_cons_cons]
      rcases List.mem_cons.mp hmem with rfl | hmem
      · rw [List.append_assoc]
        exact h.append_cons hfirst _
      · rw [List.append_assoc, List.cons_append, List.append_cons]
        exact (ih hmem).cons_append hlast _

/-- Texts with a space behind each of them end outside words. -/
theorem delimits_flatMap_space {α : Type} (hspace : ¬ inWord ' ') (textOf : α → List Char)
    (elements : List α) : Delimits inWord (elements.flatMap fun element => textOf element ++ [' ']) [] := by
  refine ⟨?_, nofun⟩
  intro c hc
  rcases List.eq_nil_or_concat elements with rfl | ⟨front, last, rfl⟩
  · cases hc
  · rw [List.concat_eq_append, List.flatMap_append, List.flatMap_singleton, ← List.append_assoc,
      List.getLast?_concat] at hc
    obtain rfl := Option.some.inj hc
    exact hspace

/-- The texts of many elements, each with a space behind it, keep their words apart.
    -/
theorem StandsIn.flatMap_space {α : Type} (hspace : ¬ inWord ' ') (textOf : α → List Char)
    {elements : List α} {element : α} (hmem : element ∈ elements)
    (h : StandsIn inWord word (textOf element)) (rest : List Char) :
    StandsIn inWord word (elements.flatMap (fun element => textOf element ++ [' ']) ++ rest) := by
  obtain ⟨front, back, rfl⟩ := List.append_of_mem hmem
  rw [List.flatMap_append, List.flatMap_cons]
  have hfront := delimits_flatMap_space hspace textOf front
  have hright := h.append_cons hspace (back.flatMap (fun element => textOf element ++ [' ']) ++ rest)
  simpa using hright.surround hfront

/-- The word between `before` and `after`, where the three make up a text, lies in
    a part of that text. -/
def LiesIn (word before after part : List Char) : Prop :=
  ∃ before' after', part = before' ++ word ++ after' ∧ before' <:+ before ∧ after' <+: after

namespace LiesIn

variable {before after left middle right front rest : List Char}

theorem refl : LiesIn word before after (before ++ word ++ after) :=
  ⟨before, after, rfl, List.suffix_rfl, List.prefix_rfl⟩

/-- A word that lies in a part stands there if it is delimited in the whole. -/
theorem standsIn (h : LiesIn word before after text) (hdelimits : Delimits inWord before after) :
    StandsIn inWord word text := by
  obtain ⟨before', after', htext, ⟨outer, rfl⟩, ⟨outer', rfl⟩⟩ := h
  exact ⟨before', after', htext, hdelimits.of_append⟩

/-- A text that has no characters but those of words is one word. -/
theorem eq_of_forall (h : LiesIn word before after text) (hdelimits : Delimits inWord before after)
    (htext : ∀ c ∈ text, inWord c) : text = word := by
  obtain ⟨left, right, rfl, hends⟩ := h.standsIn hdelimits
  have hleft : left = [] := by
    by_contra hne
    exact hends.left _ (List.getLast?_eq_some_getLast hne) (htext _ (by simp))
  have hright : right = [] := by
    by_contra hne
    exact hends.right _ (List.head?_eq_some_head hne) (htext _ (by simp))
  simp [hleft, hright]

theorem word_eq_nil (h : LiesIn word before after []) : word = [] := by
  obtain ⟨before', after', heq, _⟩ := h
  simp at heq
  exact heq.2.1

/-- A character that the word does not have parts a text, and the word lies on
    one side of it. -/
theorem of_append_cons (h : LiesIn word before after (front ++ c :: rest)) (hc : c ∉ word) :
    LiesIn word before after front ∨ LiesIn word before after rest := by
  obtain ⟨before', after', heq, hbefore, hafter⟩ := h
  rw [List.append_assoc] at heq
  rcases List.append_eq_append_iff.mp heq with ⟨gap, rfl, hrest⟩ | ⟨gap, rfl, hword⟩
  · rcases List.cons_eq_append_iff.mp hrest with ⟨rfl, hword⟩ | ⟨gap, rfl, rfl⟩
    · rcases List.append_eq_cons_iff.mp hword with ⟨rfl, _⟩ | ⟨more, rfl, _⟩
      · exact .inl ⟨front, [], by simp, by simpa using hbefore, List.nil_prefix⟩
      · exact absurd List.mem_cons_self hc
    · refine .inr ⟨gap, after', by simp, ?_, hafter⟩
      rw [List.append_cons] at hbefore
      exact (List.suffix_append _ _).trans hbefore
  · rcases List.append_eq_append_iff.mp hword with ⟨tail, rfl, rfl⟩ | ⟨tail, rfl, hrest⟩
    · exact .inl ⟨before', tail, by simp, hbefore, (List.prefix_append _ _).trans hafter⟩
    · rcases List.cons_eq_append_iff.mp hrest with ⟨rfl, _⟩ | ⟨more, rfl, _⟩
      · exact .inl ⟨before', [], by simp, hbefore, List.nil_prefix⟩
      · exact absurd (by simp) hc

/-- A word lies behind characters that it does not have. -/
theorem of_append_left (h : LiesIn word before after (left ++ middle)) (hne : word ≠ [])
    (hleft : ∀ c ∈ left, c ∉ word) : LiesIn word before after middle := by
  induction left with
  | nil => exact h
  | cons c left ih =>
    rw [List.forall_mem_cons] at hleft
    have hparted : LiesIn word before after ([] ++ c :: (left ++ middle)) := h
    rcases hparted.of_append_cons hleft.1 with hnil | hrest
    · exact absurd hnil.word_eq_nil hne
    · exact ih hrest hleft.2

theorem of_append_right (h : LiesIn word before after (middle ++ right)) (hne : word ≠ [])
    (hright : ∀ c ∈ right, c ∉ word) : LiesIn word before after middle := by
  induction right generalizing middle with
  | nil => simpa using h
  | cons c right ih =>
    rw [List.forall_mem_cons] at hright
    rcases h.of_append_cons hright.1 with hmiddle | hrest
    · exact hmiddle
    · have hnil : LiesIn word before after ([] ++ right) := hrest
      exact absurd (ih hnil hright.2).word_eq_nil hne

/-- A word without white space is not trimmed away. -/
theorem trim (h : LiesIn word before after text) (hne : word ≠ [])
    (hword : ∀ c ∈ word, isSpace c = false) : LiesIn word before after (Text.trim text) := by
  have hblank : ∀ {gap : List Char}, Blank gap → ∀ c ∈ gap, c ∉ word := fun hgap c hc hmem => by
    have hspace := hgap c hc
    rw [hword c hmem] at hspace
    cases hspace
  obtain ⟨left, right, hleft, hright, htext⟩ := exists_blank_append_trim text
  rw [htext] at h
  exact (h.of_append_right hne (hblank hright)).of_append_left hne (hblank hleft)

/-- A word without the separator lies in one of the pieces. -/
theorem of_intercalate {pieces : List (List Char)} (h : LiesIn word before after ([c].intercalate pieces))
    (hne : word ≠ []) (hc : c ∉ word) : ∃ piece ∈ pieces, LiesIn word before after piece := by
  induction pieces with
  | nil => exact absurd h.word_eq_nil hne
  | cons first pieces ih =>
    cases pieces with
    | nil =>
      rw [List.intercalate_singleton] at h
      exact ⟨first, List.mem_singleton.mpr rfl, h⟩
    | cons second pieces =>
      rw [List.intercalate_cons_cons, List.append_assoc, List.singleton_append] at h
      rcases h.of_append_cons hc with hfirst | hrest
      · exact ⟨first, List.mem_cons_self, hfirst⟩
      · obtain ⟨piece, hpiece, hlies⟩ := ih hrest
        exact ⟨piece, List.mem_cons_of_mem _ hpiece, hlies⟩

end LiesIn

end JavaSource.Text
