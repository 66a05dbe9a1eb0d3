import JavaSource.TypeRef.Split
import Mathlib.Data.List.Basic

namespace JavaSource.TypeRef

/-- The number of open angle brackets after one more character. A bracket that
    closes none has no answer. -/
def depthStep (depth : Nat) (c : Char) : Option Nat :=
  if c = '<' then some (depth + 1)
  else if c = '>' then if depth = 0 then none else some (depth - 1)
  else some depth

/-- The number of open angle brackets after a text, or nothing if one of its
    brackets closes none. -/
def depthAfter (depth : Nat) (text : List Char) : Option Nat :=
  text.foldlM depthStep depth

/-- The angle brackets of a text match. -/
def Matched (text : List Char) : Prop :=
  depthAfter 0 text = some 0

instance (text : List Char) : Decidable (Matched text) :=
  inferInstanceAs (Decidable (_ = _))

/-- A text whose angle brackets match and whose commas all stand inside
    brackets, when `depth` brackets are open in front of it. -/
structure IsPiece (depth : Nat) (text : List Char) : Prop where
  closed : depthAfter depth text = some 0
  enclosed : ∀ before after, text = before ++ ',' :: after → depthAfter depth before ≠ some 0

/-- Only brackets change the depth. -/
theorem depthStep_other {c : Char} (hopen : c ≠ '<') (hclose : c ≠ '>') (depth : Nat) :
    depthStep depth c = some depth := by
  simp [depthStep, hopen, hclose]

/-- What one more character does to the number of open brackets. -/
theorem depthStep_cases {depth after : Nat} {c : Char} (h : depthStep depth c = some after) :
    (c = '<' ∧ after = depth + 1) ∨ (c = '>' ∧ depth = after + 1) ∨ (c ≠ '<' ∧ c ≠ '>' ∧ after = depth) := by
  unfold depthStep at h
  split at h
  · next hopen => exact .inl ⟨hopen, (Option.some.inj h).symm⟩
  · next hopen =>
    split at h
    · next hclose =>
      split at h
      · cases h
      · next hpos =>
        obtain rfl := Option.some.inj h
        exact .inr (.inl ⟨hclose, by omega⟩)
    · next hclose => exact .inr (.inr ⟨hopen, hclose, (Option.some.inj h).symm⟩)

@[simp] theorem depthAfter_nil (depth : Nat) : depthAfter depth [] = some depth := rfl

theorem depthAfter_cons (depth : Nat) (c : Char) (rest : List Char) :
    depthAfter depth (c :: rest) = (depthStep depth c).bind (depthAfter · rest) := by
  simp [depthAfter, List.foldlM_cons]

theorem depthAfter_append (depth : Nat) (first second : List Char) :
    depthAfter depth (first ++ second) = (depthAfter depth first).bind (depthAfter · second) := by
  simp [depthAfter, List.foldlM_append]

/-- A text that is known to lead to a depth is left out. -/
theorem depthAfter_append_of_eq {depth middle : Nat} {first : List Char}
    (h : depthAfter depth first = some middle) (second : List Char) :
    depthAfter depth (first ++ second) = depthAfter middle second := by
  rw [depthAfter_append, h, Option.bind_some]

/-- Text without brackets leaves the depth alone. -/
theorem depthAfter_of_no_brackets {text : List Char} (hopen : '<' ∉ text) (hclose : '>' ∉ text)
    (depth : Nat) : depthAfter depth text = some depth := by
  induction text with
  | nil => rfl
  | cons c rest ih =>
    rw [List.mem_cons, not_or] at hopen hclose
    rw [depthAfter_cons, depthStep_other (Ne.symm hopen.1) (Ne.symm hclose.1), Option.bind_some]
    exact ih hopen.2 hclose.2

private theorem depthStep_add {depth after : Nat} {c : Char} (h : depthStep depth c = some after)
    (more : Nat) : depthStep (depth + more) c = some (after + more) := by
  obtain ⟨rfl, rfl⟩ | ⟨rfl, rfl⟩ | ⟨hopen, hclose, rfl⟩ := depthStep_cases h
  · simp [depthStep, Nat.add_right_comm]
  · simp [depthStep, Nat.add_right_comm after 1 more]
  · exact depthStep_other hopen hclose _

/-- Brackets that are open in front of a text stay open, as long as the text
    closes only its own. -/
theorem depthAfter_add {depth after : Nat} {text : List Char}
    (h : depthAfter depth text = some after) (more : Nat) :
    depthAfter (depth + more) text = some (after + more) := by
  induction text generalizing depth with
  | nil =>
    obtain rfl := Option.some.inj h
    rfl
  | cons c rest ih =>
    rw [depthAfter_cons] at h ⊢
    obtain ⟨middle, hstep, hrest⟩ := Option.bind_eq_some_iff.mp h
    rw [depthStep_add hstep more, Option.bind_some]
    exact ih hrest

/-- A matched text stays at its depth, however deep it stands. -/
theorem Matched.depthAfter_eq {text : List Char} (h : Matched text) (depth : Nat) :
    depthAfter depth text = some depth := by
  simpa using depthAfter_add h depth

/-- A text without brackets is matched. -/
theorem Matched.of_no_brackets {text : List Char} (hopen : '<' ∉ text) (hclose : '>' ∉ text) :
    Matched text :=
  depthAfter_of_no_brackets hopen hclose 0

theorem Matched.append {first second : List Char} (hfirst : Matched first)
    (hsecond : Matched second) : Matched (first ++ second) :=
  (depthAfter_append_of_eq hfirst second).trans hsecond

/-- A matched text between brackets is matched. -/
theorem Matched.enclose {inside : List Char} (h : Matched inside) :
    Matched ('<' :: (inside ++ ['>'])) := by
  have hstep : depthStep 0 '<' = some 1 := rfl
  rw [Matched, depthAfter_cons, hstep, Option.bind_some,
    depthAfter_append_of_eq (h.depthAfter_eq 1)]
  rfl

/-- A character that is no closing bracket at any depth is none. -/
theorem ne_close_of_forall {depth : Nat} {c : Char} (hzero : depth = 0 → c = '>' → False)
    (hsucc : ∀ less : Nat, depth = less.succ → c = '>' → False) : c ≠ '>' := by
  rintro rfl
  cases depth with
  | zero => exact hzero rfl rfl
  | succ less => exact hsucc less rfl rfl

/-- The group that the scanner takes is the text in front of the bracket that
    brings the depth back to where the group began. -/
theorem takeGroup_eq_some_iff {depth : Nat} {text group after : List Char} :
    takeGroup depth text = some (group, after) ↔
      text = group ++ '>' :: after ∧ depthAfter depth group = some 0 := by
  constructor
  · intro h
    fun_induction takeGroup depth text generalizing group after with
    | case1 => cases h
    | case2 rest =>
      obtain ⟨rfl, rfl⟩ := by simpa using h
      exact ⟨rfl, rfl⟩
    | case3 depth rest ih | case4 depth rest ih =>
      obtain ⟨⟨group', after'⟩, hgroup, heq⟩ := Option.map_eq_some_iff.mp h
      obtain ⟨rfl, rfl⟩ := by simpa using heq
      obtain ⟨rfl, hdepth⟩ := ih hgroup
      exact ⟨rfl, hdepth⟩
    | case5 depth c rest hclose hclose' hopen ih =>
      obtain ⟨⟨group', after'⟩, hgroup, heq⟩ := Option.map_eq_some_iff.mp h
      obtain ⟨rfl, rfl⟩ := by simpa using heq
      obtain ⟨rfl, hdepth⟩ := ih hgroup
      refine ⟨rfl, ?_⟩
      rw [depthAfter_cons, depthStep_other hopen (ne_close_of_forall hclose hclose'), Option.bind_some]
      exact hdepth
  · rintro ⟨rfl, hdepth⟩
    -- The depth at the front of the rest of a group need not be that at the front of the group.
    induction group generalizing depth with
    | nil =>
      obtain rfl := Option.some.inj hdepth
      rfl
    | cons c group ih =>
      rw [depthAfter_cons] at hdepth
      obtain ⟨middle, hstep, hgroup⟩ := Option.bind_eq_some_iff.mp hdepth
      have hrest := ih hgroup
      obtain ⟨rfl, rfl⟩ | ⟨rfl, rfl⟩ | ⟨hopen, hclose, rfl⟩ := depthStep_cases hstep
      · simp [takeGroup, hrest]
      · simp [takeGroup, hrest]
      · simp [takeGroup, hclose, hrest]

end JavaSource.TypeRef
