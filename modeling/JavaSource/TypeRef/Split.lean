import JavaSource.Error
import JavaSource.Text.Blank
import JavaSource.Text.Lines

namespace JavaSource.TypeRef

/-- The text up to the bracket that closes a group, and the text after that bracket. The
    number counts the groups that are open inside it. -/
def takeGroup : Nat → List Char → Option (List Char × List Char)
  | _, [] => none
  | 0, '>' :: rest => some ([], rest)
  | depth + 1, '>' :: rest => (takeGroup depth rest).map fun group => ('>' :: group.1, group.2)
  | depth, '<' :: rest => (takeGroup (depth + 1) rest).map fun group => ('<' :: group.1, group.2)
  | depth, c :: rest => (takeGroup depth rest).map fun group => (c :: group.1, group.2)

/-- The pieces of a text between the commas that stand outside all brackets. The number
    counts the brackets that are open. -/
def splitCommas : Nat → List Char → List (List Char)
  | _, [] => [[]]
  | 0, ',' :: rest => [] :: splitCommas 0 rest
  | depth, '<' :: rest => Text.prependToFirst '<' (splitCommas (depth + 1) rest)
  | depth, '>' :: rest => Text.prependToFirst '>' (splitCommas (depth - 1) rest)
  | depth, c :: rest => Text.prependToFirst c (splitCommas depth rest)

/-- The text of a type, taken apart at its outermost brackets. The arguments are trimmed. -/
structure Split where
  base : List Char
  arguments : List (List Char)
  deriving DecidableEq

/-- Takes the text of a type apart. The first opening bracket has to be closed by the
    last character, and there is no empty argument. -/
def split (raw : List Char) : Except Malformation Split :=
  match raw.dropWhile (· ≠ '<') with
  | [] =>
    if '>' ∈ raw then .error (.unexpected '>')
    else if ',' ∈ raw then .error (.unexpected ',')
    else .ok ⟨raw, []⟩
  | _ :: inside =>
    match takeGroup 0 inside with
    | none => .error .unclosed
    | some (group, after) =>
      let arguments := (splitCommas 0 group).map Text.trim
      if !after.isEmpty then .error .textAfterClose
      else if arguments.any List.isEmpty then .error .emptyArgument
      else .ok ⟨Text.trim (raw.takeWhile (· ≠ '<')), arguments⟩

private theorem length_takeGroup {depth : Nat} {text group after : List Char}
    (h : takeGroup depth text = some (group, after)) : group.length < text.length := by
  fun_induction takeGroup depth text generalizing group after with
  | case1 => simp at h
  | case2 rest =>
    obtain ⟨rfl, rfl⟩ := by simpa using h
    simp
  | case3 depth rest ih | case4 depth rest ih | case5 depth c rest _ _ _ ih =>
    obtain ⟨⟨group', after'⟩, hgroup, heq⟩ := Option.map_eq_some_iff.mp h
    obtain ⟨rfl, rfl⟩ := by simpa using heq
    simpa using ih hgroup

private theorem length_prependToFirst {c : Char} {pieces : List (List Char)} {bound : Nat}
    (h : ∀ piece ∈ pieces, piece.length ≤ bound) :
    ∀ piece ∈ Text.prependToFirst c pieces, piece.length ≤ bound + 1 := by
  intro piece hpiece
  cases pieces with
  | nil =>
    simp only [Text.prependToFirst, List.mem_singleton] at hpiece
    simp [hpiece]
  | cons first more =>
    rcases List.mem_cons.mp hpiece with rfl | hmem
    · simpa using h first List.mem_cons_self
    · exact Nat.le_succ_of_le (h piece (List.mem_cons_of_mem _ hmem))

private theorem length_splitCommas (depth : Nat) (text : List Char) :
    ∀ piece ∈ splitCommas depth text, piece.length ≤ text.length := by
  fun_induction splitCommas depth text with
  | case1 => simp
  | case2 rest ih =>
    intro piece hpiece
    rcases List.mem_cons.mp hpiece with rfl | hmem
    · simp
    · exact Nat.le_succ_of_le (ih piece hmem)
  | case3 depth rest ih | case4 depth rest ih | case5 depth c rest _ _ _ ih =>
    exact length_prependToFirst ih

/-- An argument is shorter than the text it was taken from, so that types can be read by
    recursion on their arguments. -/
theorem length_lt_of_mem_arguments {raw : List Char} {parts : Split} (h : split raw = .ok parts)
    {argument : List Char} (hmem : argument ∈ parts.arguments) :
    argument.length < raw.length := by
  unfold split at h
  split at h
  · split at h
    · cases h
    · split at h
      · cases h
      · obtain rfl := Except.ok.inj h
        simp at hmem
  · next bracket inside hinside =>
    split at h
    · cases h
    · next group after hgroup =>
      dsimp only at h
      split at h
      · cases h
      · split at h
        · cases h
        · obtain rfl := Except.ok.inj h
          obtain ⟨piece, hpiece, rfl⟩ := List.mem_map.mp hmem
          have htrim := Text.length_trim_le piece
          have hsplit := length_splitCommas 0 group piece hpiece
          have hlt := length_takeGroup hgroup
          have hdrop := (List.dropWhile_sublist (· ≠ '<') (l := raw)).length_le
          rw [hinside, List.length_cons] at hdrop
          omega

end JavaSource.TypeRef
