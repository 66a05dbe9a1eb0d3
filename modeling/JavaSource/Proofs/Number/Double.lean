import JavaSource.Number.Double

namespace JavaSource.Double

private theorem not_isNaN_of_isZero {d : Double} (h : d.isZero = true) : d.isNaN = false := by
  simp only [isZero, Bool.and_eq_true, beq_iff_eq] at h
  simp [isNaN, h.1]

private theorem not_isInfinite_of_isZero {d : Double} (h : d.isZero = true) : d.isInfinite = false := by
  simp only [isZero, Bool.and_eq_true, beq_iff_eq] at h
  simp [isInfinite, h.1]

/-- Equality of numbers, but for what is not a number: all of that counts as one. -/
theorem beq_iff {a b : Double} : (a == b) = true ↔
    (a.isNaN = true ∧ b.isNaN = true) ∨ (a.isZero = true ∧ b.isZero = true) ∨ (a.isNaN = false ∧ a = b) := by
  have hsame : (a == b) = ((a.isNaN && b.isNaN) || (a.isZero && b.isZero) ||
      (!a.isNaN && !b.isNaN && a.bits == b.bits)) := rfl
  have hbits : a.bits = b.bits ↔ a = b := by cases a; cases b; simp
  rw [hsame]
  simp only [Bool.or_eq_true, Bool.and_eq_true, Bool.not_eq_true', beq_iff_eq, hbits, or_assoc]
  constructor
  · rintro (hnan | hzero | ⟨⟨hnan, _⟩, heq⟩)
    · exact .inl hnan
    · exact .inr (.inl hzero)
    · exact .inr (.inr ⟨hnan, heq⟩)
  · rintro (hnan | hzero | ⟨hnan, rfl⟩)
    · exact .inl hnan
    · exact .inr (.inl hzero)
    · exact .inr (.inr ⟨⟨hnan, hnan⟩, rfl⟩)

instance : EquivBEq Double where
  rfl {a} := by
    rw [beq_iff]
    cases hnan : a.isNaN with
    | true => exact .inl ⟨rfl, rfl⟩
    | false => exact .inr (.inr ⟨rfl, rfl⟩)
  symm {a b} h := by
    rw [beq_iff] at h ⊢
    obtain hnan | hzero | ⟨hnan, rfl⟩ := h
    · exact .inl hnan.symm
    · exact .inr (.inl hzero.symm)
    · exact .inr (.inr ⟨hnan, rfl⟩)
  trans {a b c} hab hbc := by
    rw [beq_iff] at hab hbc ⊢
    obtain ⟨ha, hb⟩ | ⟨ha, hb⟩ | ⟨_, rfl⟩ := hab
    · obtain ⟨_, hc⟩ | ⟨hzero, _⟩ | ⟨hnan, _⟩ := hbc
      · exact .inl ⟨ha, hc⟩
      · rw [not_isNaN_of_isZero hzero] at hb
        cases hb
      · rw [hnan] at hb
        cases hb
    · obtain ⟨hnan, _⟩ | ⟨_, hc⟩ | ⟨_, rfl⟩ := hbc
      · rw [not_isNaN_of_isZero hb] at hnan
        cases hnan
      · exact .inr (.inl ⟨ha, hc⟩)
      · exact .inr (.inl ⟨ha, hb⟩)
    · exact hbc

/-- The sign of zero is written, although it does not tell numbers apart. -/
theorem literal_of_isZero {d : Double} (h : d.isZero = true) :
    d.literal = if d.isNegative then "-0.0" else "0.0" := by
  rw [literal, not_isNaN_of_isZero h, not_isInfinite_of_isZero h, h]
  cases d.isNegative with
  | true => rfl
  | false => rfl

/-- The two zeros are written with different signs, though they are equal. -/
theorem literal_ne_of_isZero {d e : Double} (hd : d.isZero = true) (he : e.isZero = true)
    (hsign : d.isNegative ≠ e.isNegative) : d.literal ≠ e.literal := by
  rw [literal_of_isZero hd, literal_of_isZero he]
  cases hnegative : d.isNegative with
  | true =>
    rw [hnegative, ne_eq, eq_comm, Bool.not_eq_true] at hsign
    rw [hsign]
    decide
  | false =>
    rw [hnegative, ne_eq, eq_comm, Bool.not_eq_false] at hsign
    rw [hsign]
    decide

/-- Every value that is not a number is written with the same name. -/
theorem literal_of_isNaN {d : Double} (h : d.isNaN = true) : d.literal = "Double.NaN" := by
  rw [literal, if_pos h]

end JavaSource.Double
