namespace JavaSource

/-- What one level of indentation is written as. -/
inductive Indent where
  | spaces (width : UInt8)
  | tab
  deriving DecidableEq

namespace Indent

/-- Four spaces, the usual style. -/
def standard : Indent := .spaces 4

/-- Two spaces. -/
def compact : Indent := .spaces 2

/-- The text of one level. -/
def unit : Indent → String
  | spaces width => String.ofList (List.replicate width.toNat ' ')
  | tab => "\t"

/-- The text in front of a line at some level: the unit once per level. -/
def margin (indent : Indent) (level : Nat) : String :=
  String.join (List.replicate level indent.unit)

theorem margin_add (indent : Indent) (outer inner : Nat) :
    indent.margin (outer + inner) = indent.margin outer ++ indent.margin inner := by
  rw [margin, ← List.replicate_append_replicate, String.join_append, margin, margin]

/-- Margins are white space, whatever the style. -/
theorem mem_margin {indent : Indent} {level : Nat} {c : Char}
    (h : c ∈ (indent.margin level).toList) : c = ' ' ∨ c = '\t' := by
  rw [margin, String.toList_join, List.mem_flatMap] at h
  obtain ⟨text, htext, h⟩ := h
  rw [List.eq_of_mem_replicate htext] at h
  cases indent with
  | spaces width =>
    rw [Indent.unit, String.toList_ofList] at h
    exact .inl (List.eq_of_mem_replicate h)
  | tab => exact .inr (List.mem_singleton.mp h)

end Indent

end JavaSource
