import JavaSource.Proofs.Text.Trim
import JavaSource.Proofs.TypeRef.Brackets

namespace JavaSource.TypeRef

/-- Nothing is a piece only where no bracket is open. -/
theorem isPiece_nil_iff {depth : Nat} : IsPiece depth [] ↔ depth = 0 := by
  constructor
  · intro h
    simpa using h.closed
  · rintro rfl
    exact ⟨rfl, by simp⟩

/-- A piece is scanned one character at a time. A comma in it needs an open
    bracket. -/
theorem isPiece_cons_iff {depth : Nat} {c : Char} {rest : List Char} :
    IsPiece depth (c :: rest) ↔
      (c = ',' → depth ≠ 0) ∧ ∃ after, depthStep depth c = some after ∧ IsPiece after rest := by
  constructor
  · intro h
    have hclosed := h.closed
    rw [depthAfter_cons] at hclosed
    obtain ⟨after, hstep, hrest⟩ := Option.bind_eq_some_iff.mp hclosed
    refine ⟨?_, after, hstep, hrest, ?_⟩
    · rintro rfl rfl
      exact h.enclosed [] rest rfl rfl
    · rintro before tail rfl hdepth
      apply h.enclosed (c :: before) tail rfl
      rw [depthAfter_cons, hstep, Option.bind_some]
      exact hdepth
  · rintro ⟨hcomma, after, hstep, hrest⟩
    refine ⟨?_, ?_⟩
    · rw [depthAfter_cons, hstep, Option.bind_some]
      exact hrest.closed
    · intro before tail heq
      cases before with
      | nil =>
        have hc : c = ',' := by simpa using congrArg List.head? heq
        simpa using hcomma hc
      | cons d before =>
        obtain ⟨rfl, htail⟩ := List.cons.inj heq
        rw [depthAfter_cons, hstep, Option.bind_some]
        exact hrest.enclosed before tail htail

/-- A text without brackets and commas is a piece. -/
theorem IsPiece.of_plain {text : List Char} (hopen : '<' ∉ text) (hclose : '>' ∉ text)
    (hcomma : ',' ∉ text) : IsPiece 0 text := by
  refine ⟨depthAfter_of_no_brackets hopen hclose 0, ?_⟩
  rintro before after rfl
  simp at hcomma

/-- The brackets of a piece are matched. -/
theorem IsPiece.matched {text : List Char} (h : IsPiece 0 text) : Matched text := h.closed

/-- Two pieces with no comma between them are one. -/
theorem IsPiece.append {first second : List Char} (hfirst : IsPiece 0 first)
    (hsecond : IsPiece 0 second) : IsPiece 0 (first ++ second) := by
  refine ⟨hfirst.matched.append hsecond.matched, ?_⟩
  intro before after heq hdepth
  rcases List.append_eq_append_iff.mp heq with ⟨more, rfl, hsplit⟩ | ⟨more, hfirstEq, hsplit⟩
  · rw [depthAfter_append_of_eq hfirst.closed] at hdepth
    exact hsecond.enclosed more after hsplit hdepth
  · cases more with
    | nil => exact hsecond.enclosed [] after (by simpa using hsplit.symm) rfl
    | cons c more =>
      obtain ⟨rfl, _⟩ := List.cons.inj hsplit
      exact hfirst.enclosed before more hfirstEq hdepth

theorem IsPiece.of_blank {text : List Char} (h : Text.Blank text) : IsPiece 0 text :=
  .of_plain (h.notMem rfl) (h.notMem rfl) (h.notMem rfl)

/-- What is left of a piece behind a matched text is a piece again. -/
theorem IsPiece.of_append_left {first second : List Char} (hfirst : Matched first)
    (h : IsPiece 0 (first ++ second)) : IsPiece 0 second := by
  refine ⟨(depthAfter_append_of_eq hfirst second).symm.trans h.closed, ?_⟩
  rintro before after rfl hdepth
  apply h.enclosed (first ++ before) after (by simp)
  rw [depthAfter_append_of_eq hfirst]
  exact hdepth

/-- What is in front of matched brackets in a piece is a piece. -/
theorem IsPiece.of_append_right {first second : List Char} (hsecond : Matched second)
    (h : IsPiece 0 (first ++ second)) : IsPiece 0 first := by
  refine ⟨?_, ?_⟩
  · have hclosed := h.closed
    rw [depthAfter_append] at hclosed
    obtain ⟨middle, hmiddle, hrest⟩ := Option.bind_eq_some_iff.mp hclosed
    rw [hsecond.depthAfter_eq middle] at hrest
    rw [hmiddle, hrest]
  · rintro before after rfl
    exact h.enclosed before (after ++ second) (by simp)

/-- White space around a piece does not count. -/
theorem isPiece_trim_iff {text : List Char} : IsPiece 0 (Text.trim text) ↔ IsPiece 0 text := by
  obtain ⟨left, right, hleft, hright, htext⟩ := Text.exists_blank_append_trim text
  constructor
  · intro h
    rw [htext]
    exact ((IsPiece.of_blank hleft).append h).append (.of_blank hright)
  · intro h
    rw [htext] at h
    have hfront := h.of_append_right (IsPiece.of_blank hright).matched
    exact hfront.of_append_left (IsPiece.of_blank hleft).matched

/-- White space around a text does not change its brackets. -/
theorem Matched.of_trim {text : List Char} (h : Matched (Text.trim text)) : Matched text := by
  obtain ⟨left, right, hleft, hright, htext⟩ := Text.exists_blank_append_trim text
  rw [htext]
  exact ((IsPiece.of_blank hleft).matched.append h).append (IsPiece.of_blank hright).matched

/-- A matched text between brackets is a piece, whatever commas it has. -/
theorem IsPiece.enclose {inside : List Char} (h : Matched inside) :
    IsPiece 0 ('<' :: (inside ++ ['>'])) := by
  refine ⟨h.enclose, ?_⟩
  intro before after heq hdepth
  cases before with
  | nil => simp at heq
  | cons c before =>
    obtain ⟨rfl, htail⟩ := List.cons.inj heq
    have hstep : depthStep 0 '<' = some 1 := rfl
    rw [depthAfter_cons, hstep, Option.bind_some] at hdepth
    rcases List.append_eq_append_iff.mp htail with ⟨more, rfl, hsplit⟩ | ⟨more, rfl, _⟩
    · have hlast : ',' = '>' := by
        have hlen := congrArg List.length hsplit
        simp only [List.length_append, List.length_cons, List.length_nil] at hlen
        obtain rfl : more = [] := List.length_eq_zero_iff.mp (by omega)
        simpa using (congrArg List.head? hsplit).symm
      exact absurd hlast (by decide)
    · -- Inside the brackets one more is open than in the text on its own.
      have hinside := h
      rw [Matched, depthAfter_append] at hinside
      obtain ⟨middle, hmiddle, _⟩ := Option.bind_eq_some_iff.mp hinside
      rw [depthAfter_add hmiddle 1] at hdepth
      simp at hdepth

/-- A character other than a comma to split at goes to the first piece. -/
theorem splitCommas_cons {depth after : Nat} {c : Char} (hstep : depthStep depth c = some after)
    (hcomma : c = ',' → depth ≠ 0) (rest : List Char) :
    splitCommas depth (c :: rest) = Text.prependToFirst c (splitCommas after rest) := by
  obtain ⟨rfl, rfl⟩ | ⟨rfl, rfl⟩ | ⟨hopen, hclose, rfl⟩ := depthStep_cases hstep
  · simp [splitCommas]
  · simp [splitCommas]
  · rw [splitCommas]
    · exact hopen
    · exact hclose
    · exact fun hzero hc => hcomma hc hzero

private theorem splitCommas_ne_nil (depth : Nat) (text : List Char) : splitCommas depth text ≠ [] := by
  have hprepend : ∀ (c : Char) (pieces : List (List Char)), Text.prependToFirst c pieces ≠ [] := by
    intro c pieces
    cases pieces <;> simp [Text.prependToFirst]
  fun_induction splitCommas depth text with
  | case1 | case2 => simp
  | case3 | case4 | case5 => exact hprepend _ _

/-- Splitting at commas and joining with commas gives the text back. -/
theorem intercalate_splitCommas (depth : Nat) (text : List Char) :
    [','].intercalate (splitCommas depth text) = text := by
  have hprepend : ∀ (c : Char) (pieces : List (List Char)),
      [','].intercalate (Text.prependToFirst c pieces) = c :: [','].intercalate pieces := by
    intro c pieces
    cases pieces <;> simp [Text.prependToFirst]
  fun_induction splitCommas depth text with
  | case1 => rfl
  | case2 rest ih =>
    rw [List.intercalate_cons_of_ne_nil (splitCommas_ne_nil 0 rest), ih]
    rfl
  | case3 depth rest ih | case4 depth rest ih | case5 depth c rest _ _ _ ih =>
    rw [hprepend, ih]

/-- What a matched text is split into are pieces, of which only the first one
    sees the brackets that were open before. -/
theorem splitCommas_pieces {depth : Nat} {text : List Char} (h : depthAfter depth text = some 0) :
    ∃ first more, splitCommas depth text = first :: more ∧ IsPiece depth first ∧
      ∀ piece ∈ more, IsPiece 0 piece := by
  induction text generalizing depth with
  | nil =>
    obtain rfl := Option.some.inj h
    exact ⟨[], [], rfl, isPiece_nil_iff.mpr rfl, by simp⟩
  | cons c rest ih =>
    rw [depthAfter_cons] at h
    obtain ⟨after, hstep, hrest⟩ := Option.bind_eq_some_iff.mp h
    obtain ⟨first, more, hsplit, hfirst, hmore⟩ := ih hrest
    by_cases hcomma : c = ',' ∧ depth = 0
    · obtain ⟨rfl, rfl⟩ := hcomma
      obtain rfl : 0 = after := by simpa [depthStep] using hstep
      exact ⟨[], first :: more, by rw [splitCommas, hsplit], isPiece_nil_iff.mpr rfl,
        List.forall_mem_cons.mpr ⟨hfirst, hmore⟩⟩
    · have hinside : c = ',' → depth ≠ 0 := fun hc hzero => hcomma ⟨hc, hzero⟩
      refine ⟨c :: first, more, ?_, isPiece_cons_iff.mpr ⟨hinside, after, hstep, hfirst⟩, hmore⟩
      rw [splitCommas_cons hstep hinside, hsplit]
      rfl

/-- A matched text is split into pieces. -/
theorem splitCommas_isPiece {text : List Char} (h : Matched text) :
    ∀ piece ∈ splitCommas 0 text, IsPiece 0 piece := by
  obtain ⟨first, more, hsplit, hfirst, hmore⟩ := splitCommas_pieces h
  rw [hsplit]
  exact List.forall_mem_cons.mpr ⟨hfirst, hmore⟩

/-- A piece is not split, and the comma behind it ends it. -/
theorem splitCommas_piece {depth : Nat} {piece : List Char} (h : IsPiece depth piece) :
    splitCommas depth piece = [piece] ∧
      ∀ rest, splitCommas depth (piece ++ ',' :: rest) = piece :: splitCommas 0 rest := by
  induction piece generalizing depth with
  | nil =>
    obtain rfl := isPiece_nil_iff.mp h
    exact ⟨rfl, fun rest => rfl⟩
  | cons c piece ih =>
    obtain ⟨hcomma, after, hstep, hpiece⟩ := isPiece_cons_iff.mp h
    obtain ⟨halone, hbefore⟩ := ih hpiece
    constructor
    · rw [splitCommas_cons hstep hcomma, halone]
      rfl
    · intro rest
      rw [List.cons_append, splitCommas_cons hstep hcomma, hbefore rest]
      rfl

/-- Splitting undoes joining for pieces. -/
theorem splitCommas_intercalate {pieces : List (List Char)} (hne : pieces ≠ [])
    (hpieces : ∀ piece ∈ pieces, IsPiece 0 piece) :
    splitCommas 0 ([','].intercalate pieces) = pieces := by
  induction pieces with
  | nil => exact absurd rfl hne
  | cons first more ih =>
    obtain ⟨halone, hbefore⟩ := splitCommas_piece (hpieces first List.mem_cons_self)
    cases more with
    | nil => simpa using halone
    | cons second more =>
      have hmore := ih (by simp) fun piece hpiece => hpieces piece (List.mem_cons_of_mem _ hpiece)
      rw [List.intercalate_cons_cons, List.append_assoc, List.singleton_append, hbefore, hmore]

/-- Matched texts joined by commas are matched. -/
theorem Matched.intercalate {pieces : List (List Char)} (h : ∀ piece ∈ pieces, Matched piece) :
    Matched ([','].intercalate pieces) := by
  have hcomma : Matched [','] := rfl
  induction pieces with
  | nil => rfl
  | cons first more ih =>
    have hfirst := h first List.mem_cons_self
    have hmore := ih fun piece hpiece => h piece (List.mem_cons_of_mem _ hpiece)
    cases more with
    | nil => simpa using hfirst
    | cons second more =>
      rw [List.intercalate_cons_cons]
      exact (hfirst.append hcomma).append hmore

/-- The ways in which the text of a type is taken apart. Either it has no
    punctuation at all, or it ends in a group of arguments, each of which has
    brackets of its own only and is not blank. -/
inductive SplitsInto (raw : List Char) : Split → Prop where
  | plain (hopen : '<' ∉ raw) (hclose : '>' ∉ raw) (hcomma : ',' ∉ raw) : SplitsInto raw ⟨raw, []⟩
  | grouped {front : List Char} {pieces : List (List Char)} (hfront : '<' ∉ front)
      (hne : pieces ≠ []) (hpieces : ∀ piece ∈ pieces, IsPiece 0 piece)
      (hblank : ∀ piece ∈ pieces, Text.trim piece ≠ [])
      (hraw : raw = front ++ '<' :: ([','].intercalate pieces ++ ['>'])) :
      SplitsInto raw ⟨Text.trim front, pieces.map Text.trim⟩

/-- The arguments are pieces, so that they can be taken apart in turn. -/
theorem SplitsInto.isPiece {raw : List Char} {parts : Split} (h : SplitsInto raw parts) :
    ∀ argument ∈ parts.arguments, IsPiece 0 argument := by
  cases h with
  | plain => exact nofun
  | grouped _ _ hpieces _ _ =>
    exact List.forall_mem_map.mpr fun piece hpiece => isPiece_trim_iff.mpr (hpieces piece hpiece)

/-- The ways in which the text of a type cannot be taken apart. Without an opening bracket
    it has other punctuation. Otherwise the first opening bracket is not closed, or not by
    the last character, or it is and there is a blank piece between commas. -/
inductive Fails (raw : List Char) : Malformation → Prop where
  | close (hopen : '<' ∉ raw) (hclose : '>' ∈ raw) : Fails raw (.unexpected '>')
  | comma (hopen : '<' ∉ raw) (hclose : '>' ∉ raw) (hcomma : ',' ∈ raw) : Fails raw (.unexpected ',')
  | unclosed {front inside : List Char} (hfront : '<' ∉ front)
      (hinside : ∀ group after, inside = group ++ '>' :: after → ¬ Matched group)
      (hraw : raw = front ++ '<' :: inside) : Fails raw .unclosed
  | textAfterClose {front group after : List Char} (hfront : '<' ∉ front) (hgroup : Matched group)
      (hafter : after ≠ []) (hraw : raw = front ++ '<' :: (group ++ '>' :: after)) : Fails raw .textAfterClose
  | emptyArgument {front : List Char} {pieces : List (List Char)} (hfront : '<' ∉ front)
      (hpieces : ∀ piece ∈ pieces, IsPiece 0 piece) (hblank : ∃ piece ∈ pieces, Text.trim piece = [])
      (hraw : raw = front ++ '<' :: ([','].intercalate pieces ++ ['>'])) : Fails raw .emptyArgument

private theorem all_ne_open {front : List Char} (h : '<' ∉ front) :
    ∀ c ∈ front, decide (c ≠ '<') = true := by
  intro c hc
  exact decide_eq_true fun heq => h (heq ▸ hc)

private theorem takeWhile_front {front : List Char} (hfront : '<' ∉ front) (inside : List Char) :
    (front ++ '<' :: inside).takeWhile (· ≠ '<') = front := by
  rw [List.takeWhile_append_of_pos (all_ne_open hfront)]
  simp

private theorem dropWhile_front {front : List Char} (hfront : '<' ∉ front) (inside : List Char) :
    (front ++ '<' :: inside).dropWhile (· ≠ '<') = '<' :: inside := by
  rw [List.dropWhile_append_of_pos (all_ne_open hfront)]
  simp

/-- Without an opening bracket the text is a name, or it has a mark it should not
    have. -/
theorem split_of_notMem {raw : List Char} (hopen : '<' ∉ raw) :
    split raw = if '>' ∈ raw then .error (.unexpected '>')
      else if ',' ∈ raw then .error (.unexpected ',') else .ok ⟨raw, []⟩ := by
  have hdrop : raw.dropWhile (· ≠ '<') = [] := List.dropWhile_eq_nil_iff.mpr (all_ne_open hopen)
  rw [split, hdrop]

/-- A group that is not closed is an error. -/
theorem split_of_takeGroup_eq_none {front inside : List Char} (hfront : '<' ∉ front)
    (htake : takeGroup 0 inside = none) : split (front ++ '<' :: inside) = .error .unclosed := by
  simp only [split, dropWhile_front hfront, htake]

/-- A group has to end the text, and its pieces must not be blank. -/
theorem split_of_takeGroup_eq_some {front inside group after : List Char} (hfront : '<' ∉ front)
    (htake : takeGroup 0 inside = some (group, after)) :
    split (front ++ '<' :: inside) =
      if !after.isEmpty then .error .textAfterClose
      else if ((splitCommas 0 group).map Text.trim).any List.isEmpty then .error .emptyArgument
      else .ok ⟨Text.trim front, (splitCommas 0 group).map Text.trim⟩ := by
  simp only [split, dropWhile_front hfront, takeWhile_front hfront, htake]

/-- Every text is taken apart in one of the two forms or fails in one of the five ways. -/
private theorem split_outcome (raw : List Char) :
    (∃ parts, split raw = .ok parts ∧ SplitsInto raw parts) ∨
      ∃ reason, split raw = .error reason ∧ Fails raw reason := by
  by_cases hopen : '<' ∈ raw
  · obtain ⟨front, inside, rfl, hfront⟩ := List.eq_append_cons_of_mem hopen
    cases htake : takeGroup 0 inside with
    | none =>
      refine .inr ⟨_, split_of_takeGroup_eq_none hfront htake,
        .unclosed hfront (fun group after hinside hgroup => ?_) rfl⟩
      rw [takeGroup_eq_some_iff.mpr ⟨hinside, hgroup⟩] at htake
      cases htake
    | some found =>
      obtain ⟨group, after⟩ := found
      rw [split_of_takeGroup_eq_some hfront htake]
      obtain ⟨rfl, hgroup⟩ := takeGroup_eq_some_iff.mp htake
      split
      · next hafter => exact .inr ⟨_, rfl, .textAfterClose hfront hgroup (by simpa using hafter) rfl⟩
      · next hafter =>
        obtain rfl : after = [] := by simpa using hafter
        have hraw : front ++ '<' :: (group ++ ['>']) =
            front ++ '<' :: ([','].intercalate (splitCommas 0 group) ++ ['>']) := by
          rw [intercalate_splitCommas]
        split
        · next hempty =>
          have hblank : ∃ piece ∈ splitCommas 0 group, Text.trim piece = [] := by simpa using hempty
          exact .inr ⟨_, rfl, .emptyArgument hfront (splitCommas_isPiece hgroup) hblank hraw⟩
        · next hempty =>
          have hblank : ∀ piece ∈ splitCommas 0 group, Text.trim piece ≠ [] := by simpa using hempty
          exact .inl ⟨_, rfl, .grouped hfront (splitCommas_ne_nil 0 group) (splitCommas_isPiece hgroup) hblank hraw⟩
  · rw [split_of_notMem hopen]
    split
    · next hclose => exact .inr ⟨_, rfl, .close hopen hclose⟩
    · next hclose =>
      split
      · next hcomma => exact .inr ⟨_, rfl, .comma hopen hclose hcomma⟩
      · next hcomma => exact .inl ⟨_, rfl, .plain hopen hclose hcomma⟩

/-- Pieces between brackets are found again at the commas between them. -/
private theorem split_of_pieces {front : List Char} {pieces : List (List Char)} (hfront : '<' ∉ front)
    (hne : pieces ≠ []) (hpieces : ∀ piece ∈ pieces, IsPiece 0 piece) :
    split (front ++ '<' :: ([','].intercalate pieces ++ ['>'])) =
      if (pieces.map Text.trim).any List.isEmpty then .error .emptyArgument
      else .ok ⟨Text.trim front, pieces.map Text.trim⟩ := by
  have hmatched : Matched ([','].intercalate pieces) :=
    Matched.intercalate fun piece hpiece => (hpieces piece hpiece).closed
  have hgroup : takeGroup 0 ([','].intercalate pieces ++ ['>']) = some ([','].intercalate pieces, []) :=
    takeGroup_eq_some_iff.mpr ⟨rfl, hmatched⟩
  rw [split_of_takeGroup_eq_some hfront hgroup, splitCommas_intercalate hne hpieces]
  rfl

private theorem SplitsInto.split_eq_ok {raw : List Char} {parts : Split} (h : SplitsInto raw parts) :
    split raw = .ok parts := by
  cases h with
  | plain hopen hclose hcomma => rw [split_of_notMem hopen, if_neg hclose, if_neg hcomma]
  | @grouped front pieces hfront hne hpieces hblank hraw =>
    have hany : ¬ (pieces.map Text.trim).any List.isEmpty = true := by simpa using hblank
    rw [hraw, split_of_pieces hfront hne hpieces, if_neg hany]

private theorem Fails.split_eq_error {raw : List Char} {reason : Malformation} (h : Fails raw reason) :
    split raw = .error reason := by
  cases h with
  | close hopen hclose => rw [split_of_notMem hopen, if_pos hclose]
  | comma hopen hclose hcomma => rw [split_of_notMem hopen, if_neg hclose, if_pos hcomma]
  | @unclosed front inside hfront hinside hraw =>
    have htake : takeGroup 0 inside = none := by
      by_contra hsome
      obtain ⟨⟨group, after⟩, hfound⟩ := Option.ne_none_iff_exists'.mp hsome
      obtain ⟨hsplit, hgroup⟩ := takeGroup_eq_some_iff.mp hfound
      exact hinside group after hsplit hgroup
    rw [hraw, split_of_takeGroup_eq_none hfront htake]
  | @textAfterClose front group after hfront hgroup hafter hraw =>
    have htake : takeGroup 0 (group ++ '>' :: after) = some (group, after) := takeGroup_eq_some_iff.mpr ⟨rfl, hgroup⟩
    rw [hraw, split_of_takeGroup_eq_some hfront htake]
    simp [hafter]
  | @emptyArgument front pieces hfront hpieces hblank hraw =>
    have hne : pieces ≠ [] := by
      obtain ⟨piece, hpiece, _⟩ := hblank
      exact List.ne_nil_of_mem hpiece
    have hany : (pieces.map Text.trim).any List.isEmpty = true := by simpa using hblank
    rw [hraw, split_of_pieces hfront hne hpieces, if_pos hany]

/-- Taking the text of a type apart succeeds exactly for the texts that have
    one of the two forms, and finds the parts of that form. -/
theorem split_eq_ok_iff {raw : List Char} {parts : Split} :
    split raw = .ok parts ↔ SplitsInto raw parts := by
  refine ⟨fun h => ?_, SplitsInto.split_eq_ok⟩
  obtain ⟨found, hfound, hsplits⟩ | ⟨reason, hreason, _⟩ := split_outcome raw
  · rw [hfound] at h
    exact Except.ok.inj h ▸ hsplits
  · rw [hreason] at h
    cases h

/-- It fails exactly for the other texts, and says what is wrong with them. -/
theorem split_eq_error_iff {raw : List Char} {reason : Malformation} :
    split raw = .error reason ↔ Fails raw reason := by
  refine ⟨fun h => ?_, Fails.split_eq_error⟩
  obtain ⟨parts, hparts, _⟩ | ⟨found, hfound, hfails⟩ := split_outcome raw
  · rw [hparts] at h
    cases h
  · rw [hfound] at h
    exact Except.error.inj h ▸ hfails

/-- The first opening bracket has only one place. -/
private theorem front_unique {front front' inside inside' : List Char} (hfront : '<' ∉ front)
    (hfront' : '<' ∉ front') (h : front ++ '<' :: inside = front' ++ '<' :: inside') :
    front = front' ∧ inside = inside' := by
  have htake := congrArg (List.takeWhile (· ≠ '<')) h
  have hdrop := congrArg (List.dropWhile (· ≠ '<')) h
  rw [takeWhile_front hfront, takeWhile_front hfront'] at htake
  rw [dropWhile_front hfront, dropWhile_front hfront'] at hdrop
  exact ⟨htake, List.tail_eq_of_cons_eq hdrop⟩

/-- A text that ends in a group is taken apart in one way only, at the group and at the
    commas between its pieces. -/
theorem splitsInto_grouped_iff {front : List Char} {pieces : List (List Char)} {parts : Split}
    (hfront : '<' ∉ front) (hne : pieces ≠ []) (hpieces : ∀ piece ∈ pieces, IsPiece 0 piece) :
    SplitsInto (front ++ '<' :: ([','].intercalate pieces ++ ['>'])) parts ↔
      (∀ piece ∈ pieces, Text.trim piece ≠ []) ∧ parts = ⟨Text.trim front, pieces.map Text.trim⟩ := by
  constructor
  · intro h
    generalize hraw : front ++ '<' :: ([','].intercalate pieces ++ ['>']) = raw at h
    cases h with
    | plain hopen =>
      rw [← hraw] at hopen
      simp at hopen
    | @grouped front' pieces' hfront' hne' hpieces' hblank hraw' =>
      obtain ⟨rfl, hinside⟩ := front_unique hfront hfront' (hraw.trans hraw')
      have hsame := congrArg (splitCommas 0) (List.append_cancel_right hinside)
      rw [splitCommas_intercalate hne hpieces, splitCommas_intercalate hne' hpieces'] at hsame
      subst hsame
      exact ⟨hblank, rfl⟩
  · rintro ⟨hblank, rfl⟩
    exact .grouped hfront hne hpieces hblank rfl

end JavaSource.TypeRef
