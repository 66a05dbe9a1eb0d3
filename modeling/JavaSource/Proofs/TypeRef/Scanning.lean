import JavaSource.Proofs.TypeRef.Split

namespace JavaSource.TypeRef

/-- The search for the bracket that closes a group, where a closing bracket with no bracket
    open in front of it is an error of its own. -/
def closeGroup : Nat → List Char → Except Malformation (List Char × List Char)
  | _, [] => .error .unclosed
  | 0, '>' :: _ => .error (.unexpected '>')
  | 1, '>' :: rest => .ok ([], rest)
  | depth + 2, '>' :: rest => (closeGroup (depth + 1) rest).map fun found => ('>' :: found.1, found.2)
  | depth, '<' :: rest => (closeGroup (depth + 1) rest).map fun found => ('<' :: found.1, found.2)
  | depth, c :: rest => (closeGroup depth rest).map fun found => (c :: found.1, found.2)

/-- The pieces of a text between the commas outside all brackets, if no closing bracket
    stands where none is open. -/
def splitCommas? : Nat → List Char → Option (List (List Char))
  | _, [] => some [[]]
  | 0, ',' :: rest => (splitCommas? 0 rest).map ([] :: ·)
  | 0, '>' :: _ => none
  | depth + 1, '>' :: rest => (splitCommas? depth rest).map (Text.prependToFirst '>')
  | depth, '<' :: rest => (splitCommas? (depth + 1) rest).map (Text.prependToFirst '<')
  | depth, c :: rest => (splitCommas? depth rest).map (Text.prependToFirst c)

/-- A character that is no bracket belongs to the group. -/
theorem closeGroup_other {c : Char} (hopen : c ≠ '<') (hclose : c ≠ '>') (depth : Nat) (rest : List Char) :
    closeGroup depth (c :: rest) = (closeGroup depth rest).map fun found => (c :: found.1, found.2) := by
  rw [closeGroup] <;> simp [hopen, hclose]

/-- A character that is neither a bracket nor a comma to split at belongs to its
    piece. -/
theorem splitCommas?_other {depth : Nat} {c : Char} (hopen : c ≠ '<') (hclose : c ≠ '>')
    (hcomma : c = ',' → depth ≠ 0) (rest : List Char) :
    splitCommas? depth (c :: rest) = (splitCommas? depth rest).map (Text.prependToFirst c) := by
  rw [splitCommas?] <;> grind

/-- Behind an opening bracket the search never meets a closing one with none open. -/
theorem closeGroup_succ (depth : Nat) (text : List Char) :
    closeGroup (depth + 1) text = (takeGroup depth text).elim (.error .unclosed) .ok := by
  fun_induction takeGroup depth text with
  | case1 => rfl
  | case2 rest => rfl
  | case3 depth rest ih =>
    rw [closeGroup, ih]
    cases takeGroup depth rest <;> rfl
  | case4 depth rest ih =>
    rw [closeGroup, ih]
    cases takeGroup (depth + 1) rest <;> rfl
  | case5 depth c rest hclose hclose' hopen ih =>
    rw [closeGroup_other hopen (ne_close_of_forall hclose hclose'), ih]
    cases takeGroup depth rest <;> rfl

/-- Where every closing bracket closes one, the depth is never taken down from zero. -/
theorem splitCommas?_eq_some {depth after : Nat} {text : List Char} (h : depthAfter depth text = some after) :
    splitCommas? depth text = some (splitCommas depth text) := by
  induction text generalizing depth with
  | nil => rfl
  | cons c rest ih =>
    rw [depthAfter_cons] at h
    obtain ⟨middle, hstep, hrest⟩ := Option.bind_eq_some_iff.mp h
    have hmore := ih hrest
    by_cases hcomma : c = ',' ∧ depth = 0
    · obtain ⟨rfl, rfl⟩ := hcomma
      obtain rfl : 0 = middle := by simpa [depthStep] using hstep
      rw [splitCommas?, splitCommas, hmore]
      rfl
    · have hinside : c = ',' → depth ≠ 0 := fun hc hzero => hcomma ⟨hc, hzero⟩
      rw [splitCommas_cons hstep hinside]
      obtain ⟨rfl, rfl⟩ | ⟨rfl, rfl⟩ | ⟨hopen, hclose, rfl⟩ := depthStep_cases hstep
      · rw [splitCommas?, hmore]
        rfl
      · rw [splitCommas?, hmore]
        rfl
      · rw [splitCommas?_other hopen hclose hinside, hmore]
        rfl

/-- A text with arguments is what its parts say, spelt out with brackets and commas. -/
theorem SplitsInto.exists_pieces {raw : List Char} {parts : Split} (h : SplitsInto raw parts)
    (hne : parts.arguments ≠ []) :
    ∃ front pieces, '<' ∉ front ∧ raw = front ++ '<' :: ([','].intercalate pieces ++ ['>']) ∧
      Text.trim front = parts.base ∧ pieces.map Text.trim = parts.arguments ∧
      ∀ piece ∈ pieces, IsPiece 0 piece ∧ Text.trim piece ≠ [] := by
  cases h with
  | plain => exact absurd rfl hne
  | @grouped front pieces hfront _ hpieces hblank hraw =>
    exact ⟨front, pieces, hfront, hraw, rfl, rfl, fun piece hpiece => ⟨hpieces piece hpiece, hblank piece hpiece⟩⟩

/-- A text without arguments has none of the punctuation and is its own name. -/
theorem SplitsInto.plain_of_nil {raw : List Char} {parts : Split} (h : SplitsInto raw parts)
    (hnil : parts.arguments = []) : '<' ∉ raw ∧ '>' ∉ raw ∧ ',' ∉ raw ∧ parts.base = raw := by
  cases h with
  | plain hopen hclose hcomma => exact ⟨hopen, hclose, hcomma, rfl⟩
  | @grouped front pieces _ hpieces => exact absurd (List.map_eq_nil_iff.mp hnil) hpieces

/-- Taking the text of a type apart is faithful. The arguments that it finds are spelt out in the
    text, each in fewer characters than the whole, and without arguments the text is a plain name.
    The other texts fail, each for a reason of its own. Scans that check every closing bracket
    agree with the two scans that do not, so neither ever meets one with no bracket open. -/
theorem split_faithful (raw : List Char) :
    (∀ parts, split raw = .ok parts →
      (parts.arguments ≠ [] →
        (∃ front pieces, '<' ∉ front ∧ raw = front ++ '<' :: ([','].intercalate pieces ++ ['>']) ∧
          Text.trim front = parts.base ∧ pieces.map Text.trim = parts.arguments ∧
          ∀ piece ∈ pieces, IsPiece 0 piece ∧ Text.trim piece ≠ []) ∧
        ∀ argument ∈ parts.arguments, argument.length < raw.length) ∧
      (parts.arguments = [] → '<' ∉ raw ∧ '>' ∉ raw ∧ ',' ∉ raw ∧ parts.base = raw)) ∧
    (∀ reason, split raw = .error reason ↔ Fails raw reason) ∧
    ∀ front inside, '<' ∉ front → raw = front ++ '<' :: inside →
      (closeGroup 0 ('<' :: inside) =
        (takeGroup 0 inside).elim (.error .unclosed) fun found => .ok ('<' :: found.1, found.2)) ∧
      ∀ group after, takeGroup 0 inside = some (group, after) → splitCommas? 0 group = some (splitCommas 0 group) := by
  refine ⟨fun parts hparts => ⟨fun hne => ⟨?_, ?_⟩, ?_⟩, fun reason => split_eq_error_iff, ?_⟩
  · exact (split_eq_ok_iff.mp hparts).exists_pieces hne
  · exact fun argument hmem => length_lt_of_mem_arguments hparts hmem
  · exact (split_eq_ok_iff.mp hparts).plain_of_nil
  · intro front inside _ _
    constructor
    · rw [closeGroup, closeGroup_succ 0 inside]
      cases takeGroup 0 inside <;> rfl
    · intro group after hgroup
      exact splitCommas?_eq_some (takeGroup_eq_some_iff.mp hgroup).2

/-- The comma inside the inner brackets splits nothing, and the brackets of `Map` are closed by
    the last character. -/
theorem split_faithful_map :
    split "Map<Key, Pair<A, B>>".toList = .ok ⟨"Map".toList, ["Key".toList, "Pair<A, B>".toList]⟩ ∧
      (∃ front pieces, '<' ∉ front ∧
        "Map<Key, Pair<A, B>>".toList = front ++ '<' :: ([','].intercalate pieces ++ ['>']) ∧
        Text.trim front = "Map".toList ∧
        pieces.map Text.trim = ["Key".toList, "Pair<A, B>".toList] ∧
        ∀ piece ∈ pieces, IsPiece 0 piece ∧ Text.trim piece ≠ []) ∧
      closeGroup 0 "<Key, Pair<A, B>>".toList = .ok ("<Key, Pair<A, B>".toList, []) ∧
      splitCommas? 0 "Key, Pair<A, B>".toList = some ["Key".toList, " Pair<A, B>".toList] := by
  have hsplit : split "Map<Key, Pair<A, B>>".toList =
      .ok ⟨"Map".toList, ["Key".toList, "Pair<A, B>".toList]⟩ := by
    decide
  have hgroup : takeGroup 0 "Key, Pair<A, B>>".toList = some ("Key, Pair<A, B>".toList, []) := by
    decide
  obtain ⟨hok, _, hscan⟩ := split_faithful "Map<Key, Pair<A, B>>".toList
  obtain ⟨hclose, hcommas⟩ := hscan "Map".toList "Key, Pair<A, B>>".toList (by decide) (by decide)
  refine ⟨hsplit, ((hok _ hsplit).1 (by decide)).1, ?_, ?_⟩
  · rw [hgroup] at hclose
    exact hclose
  · exact hcommas _ _ hgroup

end JavaSource.TypeRef
