import JavaSource.TypeRef.Parse
import JavaSource.Proofs.Text.Trim

namespace JavaSource.Text

private theorem isAlphanumeric_of_lt {c : Char} (h : c.toNat < 128) :
    isAlphanumeric c = (c.isUpper || c.isLower || c.isDigit) := by
  rw [isAlphanumeric, if_pos h]
  rfl

/-- The capital letters are alphanumeric. -/
theorem isAlphanumeric_of_isUpper {c : Char} (h : c.isUpper = true) : isAlphanumeric c = true := by
  have hle : c.val ≤ 'Z'.val := (of_decide_eq_true h).2
  have hsmall : c.toNat < 128 := Nat.lt_of_le_of_lt (UInt32.le_iff_toNat_le.mp hle) (by decide)
  rw [isAlphanumeric_of_lt hsmall, h]
  rfl

/-- The digits are alphanumeric. -/
theorem isAlphanumeric_of_isDigit {c : Char} (h : c.isDigit = true) : isAlphanumeric c = true := by
  have hle : c.val ≤ '9'.val := of_decide_eq_true ((Bool.and_eq_true _ _).mp h).2
  have hsmall : c.toNat < 128 := Nat.lt_of_le_of_lt (UInt32.le_iff_toNat_le.mp hle) (by decide)
  rw [isAlphanumeric_of_lt hsmall, h, Bool.or_true]

/-- The code points of white space, one by one. -/
private def spaceCodes : List Nat :=
  [9, 10, 11, 12, 13, 0x20, 0x85, 0xA0, 0x1680, 0x2000, 0x2001, 0x2002, 0x2003, 0x2004, 0x2005,
    0x2006, 0x2007, 0x2008, 0x2009, 0x200A, 0x2028, 0x2029, 0x202F, 0x205F, 0x3000]

private theorem mem_spaceCodes_of_isSpace {c : Char} (h : isSpace c = true) :
    c.toNat ∈ spaceCodes := by
  simp only [isSpace, Bool.or_eq_true, Bool.and_eq_true, decide_eq_true_eq, beq_iff_eq] at h
  simp only [spaceCodes, List.mem_cons, List.not_mem_nil, or_false]
  omega

/-- White space is not alphanumeric. -/
theorem isAlphanumeric_eq_false_of_isSpace {c : Char} (h : isSpace c = true) :
    isAlphanumeric c = false := by
  have hcodes : ∀ code ∈ spaceCodes, isAlphanumeric (Char.ofNat code) = false := by decide +kernel
  have hcode := hcodes c.toNat (mem_spaceCodes_of_isSpace h)
  rwa [Char.ofNat_toNat] at hcode

end JavaSource.Text

namespace JavaSource

/-- The characters of a name without dots. -/
def IsIdentifierChar (c : Char) : Prop :=
  Text.isAlphanumeric c = true ∨ c = '_' ∨ c = '$'

instance : DecidablePred IsIdentifierChar := fun c =>
  inferInstanceAs (Decidable (Text.isAlphanumeric c = true ∨ c = '_' ∨ c = '$'))

/-- A non-empty name without dots. -/
structure IsIdentifier (text : List Char) : Prop where
  ne_nil : text ≠ []
  chars : ∀ c ∈ text, IsIdentifierChar c

/-- A qualifier, which may be empty and may have dots anywhere. -/
def IsQualifier (text : List Char) : Prop :=
  ∀ c ∈ text, IsIdentifierChar c ∨ c = '.'

/-- The characters of dotted names are those of identifiers, and the dot. -/
theorem isNameChar_iff {c : Char} : isNameChar c = true ↔ IsIdentifierChar c ∨ c = '.' := by
  simp [isNameChar, IsIdentifierChar, or_assoc]

/-- No name has white space in it. -/
theorem isSpace_eq_false_of_isNameChar {c : Char} (h : isNameChar c = true) :
    Text.isSpace c = false := by
  by_contra hspace
  rw [Bool.not_eq_false] at hspace
  have hletter := Text.isAlphanumeric_eq_false_of_isSpace hspace
  rcases isNameChar_iff.mp h with (halpha | rfl | rfl) | rfl
  · simp [hletter] at halpha
  · cases hspace
  · cases hspace
  · cases hspace

/-- Brackets, commas, square brackets, question marks and spaces do not stand in names. -/
theorem ne_of_isNameChar {c mark : Char} (hc : isNameChar c = true)
    (hmark : mark ∈ ['<', '>', ',', '[', ']', '?', ' ']) : c ≠ mark := by
  have hmarks : ['<', '>', ',', '[', ']', '?', ' '].all (! isNameChar ·) = true := by decide +kernel
  have hnot := List.all_eq_true.mp hmarks mark hmark
  rintro rfl
  rw [hc] at hnot
  cases hnot

/-- The marks that types are written with belong to no identifier. -/
theorem not_isIdentifierChar_of_mark {mark : Char} (hmark : mark ∈ ['<', '>', ',', '[', ']', '?', ' ']) :
    ¬ IsIdentifierChar mark :=
  fun hname => ne_of_isNameChar (isNameChar_iff.mpr (.inl hname)) hmark rfl

/-- The dot belongs to no identifier. -/
theorem not_isIdentifierChar_dot : ¬ IsIdentifierChar '.' := by
  rintro (halpha | hother | hother)
  · exact absurd halpha (by decide +kernel)
  · exact absurd hother (by decide)
  · exact absurd hother (by decide)

/-- An identifier has no dots. -/
theorem IsIdentifier.dot_notMem {text : List Char} (h : IsIdentifier text) : '.' ∉ text :=
  fun hdot => not_isIdentifierChar_dot (h.chars _ hdot)

/-- An identifier is a name. -/
theorem IsIdentifier.isNameChar {text : List Char} (h : IsIdentifier text) :
    ∀ c ∈ text, isNameChar c = true :=
  fun c hc => isNameChar_iff.mpr (.inl (h.chars c hc))

theorem IsQualifier.nil : IsQualifier [] := nofun

/-- A qualifier is made of the characters of names. -/
theorem IsQualifier.isNameChar {text : List Char} (h : IsQualifier text) :
    ∀ c ∈ text, isNameChar c = true :=
  fun c hc => isNameChar_iff.mpr (h c hc)

/-- Without dots, characters of names make up an identifier. -/
theorem IsIdentifier.of_isNameChar {text : List Char} (hne : text ≠ [])
    (hchars : ∀ c ∈ text, JavaSource.isNameChar c = true) (hdot : '.' ∉ text) :
    IsIdentifier text := by
  refine ⟨hne, ?_⟩
  intro c hc
  rcases isNameChar_iff.mp (hchars c hc) with hname | rfl
  · exact hname
  · exact absurd hc hdot

/-- Names stand between white space without merging into it. -/
theorem trimmed_of_isNameChar {text : List Char} (h : ∀ c ∈ text, isNameChar c = true) :
    Text.Trimmed text :=
  Text.Trimmed.of_forall fun c hc => isSpace_eq_false_of_isNameChar (h c hc)

end JavaSource
