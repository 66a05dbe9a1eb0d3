import JavaSource.Proofs.Text.OneLine
import JavaSource.Proofs.TypeRef.Obtainable

namespace JavaSource

/-- An identifier is one line. -/
theorem IsIdentifier.oneLine {name : String} (h : IsIdentifier name.toList) : OneLine name := by
  intro hmem
  exact absurd (h.chars _ hmem) (by decide +kernel)

namespace TypeRef

/-- A type whose native types, at every depth, have names without line feeds. -/
def NativesOneLine (t : TypeRef) : Prop :=
  ∀ name, (native name).OccursIn t → OneLine name

/-- A type variable is one line. -/
theorem oneLine_of_isTypeVariable {name : String} (h : isTypeVariable name.toList = true) : OneLine name := by
  rw [OneLine]
  generalize name.toList = text at h
  cases text with
  | nil => exact List.not_mem_nil
  | cons first rest =>
    rw [isTypeVariable, Bool.and_eq_true] at h
    rw [List.mem_cons, not_or]
    refine ⟨?_, fun hmem => ?_⟩
    · rintro rfl
      cases h.1
    · cases List.all_eq_true.mp h.2 _ hmem

/-- A placeholder is one line. -/
theorem IsPlaceholder.oneLine {text : String} (h : IsPlaceholder text) : OneLine text := by
  cases h with
  | unbounded => decide
  | typeVariable hname => exact oneLine_of_isTypeVariable hname
  | bounded side hname =>
    have hside : OneLine ("? " ++ side.keyword ++ " ") := by cases side <;> decide
    exact oneLine_append.mpr ⟨hside, oneLine_of_isTypeVariable hname⟩

/-- The simple name of a well-formed type is one line. -/
theorem oneLine_simpleName {t : TypeRef} (hwell : t.WellFormed) (hnatives : t.NativesOneLine) :
    OneLine t.simpleName := by
  cases t with
  | native name => exact hnatives name .self
  | declared package name slots => exact (hwell _ _ _ .self).1.oneLine

mutual

/-- A well-formed type is printed on one line, if its native types are. -/
theorem oneLine_fullName : ∀ (t : TypeRef), t.WellFormed → t.NativesOneLine → OneLine t.fullName
  | .native name, _, hnatives => hnatives name .self
  | .declared package name [], hwell, _ => (hwell _ _ _ .self).1.oneLine
  | .declared package name (slot :: slots), hwell, hnatives => by
    have hname : OneLine name := (hwell _ _ _ .self).1.oneLine
    have heach := oneLine_displayEach (slot :: slots) hwell.slots fun slot hslot t ht name hoccurs =>
      hnatives name (.argument hslot ht hoccurs)
    have hlist := OneLine.intercalate (show OneLine ", " by decide) heach
    simp +decide [fullName, hname, hlist]

/-- A well-formed argument is printed on one line, if the native types in it are. -/
theorem oneLine_display : ∀ (argument : TypeArg), argument.WellFormed →
    (∀ t, argument.type? = some t → t.NativesOneLine) → OneLine argument.display
  | .type t, hwell, hnatives => oneLine_fullName t hwell (hnatives t rfl)
  | .placeholder text, hwell, _ => IsPlaceholder.oneLine hwell
  | .wildcard side t, hwell, hnatives => by
    have hside : OneLine ("? " ++ side.keyword ++ " ") := by cases side <;> decide
    exact oneLine_append.mpr ⟨hside, oneLine_fullName t hwell (hnatives t rfl)⟩

/-- Each argument of a type is printed on one line, if all native types are. -/
theorem oneLine_displayEach : ∀ (slots : List (String × TypeArg)), (∀ slot ∈ slots, slot.2.WellFormed) →
    (∀ slot ∈ slots, ∀ t, slot.2.type? = some t → t.NativesOneLine) →
      ∀ text ∈ TypeArg.displayEach slots, OneLine text
  | [], _, _ => nofun
  | (key, argument) :: slots, hwell, hnatives => by
    obtain ⟨hargument, hwell⟩ := List.forall_mem_cons.mp hwell
    obtain ⟨hnative, hnatives⟩ := List.forall_mem_cons.mp hnatives
    exact List.forall_mem_cons.mpr
      ⟨oneLine_display argument hargument hnative, oneLine_displayEach slots hwell hnatives⟩

end

end TypeRef

end JavaSource
