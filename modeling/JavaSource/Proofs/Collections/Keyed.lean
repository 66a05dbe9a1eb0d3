import JavaSource.Collections.Keyed
import JavaSource.Proofs.Collections.Distinct

namespace JavaSource.Keyed

variable {κ α : Type} [DecidableEq κ]

/-- A write brings in no entry but its own. -/
theorem mem_of_mem_set {key : κ} {value : α} {entries : List (κ × α)} {entry : κ × α}
    (h : entry ∈ set key value entries) : entry = (key, value) ∨ entry ∈ entries := by
  induction entries with
  | nil => exact .inl (List.mem_singleton.mp h)
  | cons first rest ih =>
    by_cases hkey : first.1 = key
    · rw [set, if_pos hkey] at h
      exact (List.mem_cons.mp h).imp_right (List.mem_cons_of_mem _)
    · rw [set, if_neg hkey] at h
      rcases List.mem_cons.mp h with rfl | h
      · exact .inr List.mem_cons_self
      · exact (ih h).imp_right (List.mem_cons_of_mem _)

theorem mem_of_get? {key : κ} {value : α} {entries : List (κ × α)} (h : get? key entries = some value) :
    (key, value) ∈ entries := by
  induction entries with
  | nil => cases h
  | cons entry rest ih =>
    by_cases hkey : entry.1 = key
    · rw [get?, if_pos hkey] at h
      rw [← hkey, ← Option.some.inj h]
      exact List.mem_cons_self
    · rw [get?, if_neg hkey] at h
      exact List.mem_cons_of_mem _ (ih h)

/-- Keys that are pairwise different stay so, since a new one is added only if
    it is not there yet. -/
theorem nodup_keys_set {entries : List (κ × α)} (h : (entries.map Prod.fst).Nodup) (key : κ)
    (value : α) : ((set key value entries).map Prod.fst).Nodup := by
  rw [keys_set]
  split
  · exact h
  · next hkey =>
    rw [← List.concat_eq_append]
    exact h.concat hkey

/-- Each key once, in the order in which they were first written, and with what
    was written to it last. -/
def latest (writes : List (κ × α)) : List (κ × α) :=
  (writes.map Prod.fst).eraseDups.filterMap fun key => (writes.filter fun write => write.1 = key).getLast?

/-- Where the value of one key changes, the pairs change as if the key was set. -/
private theorem filterMap_eq_set {key : κ} {value : α} {before after : κ → Option (κ × α)}
    (hkey : after key = some (key, value)) (hother : ∀ other, other ≠ key → after other = before other) :
    ∀ keys : List κ, keys.Nodup → (∀ k ∈ keys, ∃ v, before k = some (k, v)) →
      (Distinct.add keys key).filterMap after = set key value (keys.filterMap before)
  | [], _, _ => by simp [Distinct.add, hkey, set]
  | k :: keys, hnodup, hbefore => by
    obtain ⟨v, hv⟩ := hbefore k List.mem_cons_self
    obtain ⟨hk, hnodup⟩ := List.nodup_cons.mp hnodup
    have ih := filterMap_eq_set hkey hother keys hnodup fun k hk => hbefore k (List.mem_cons_of_mem _ hk)
    by_cases heq : k = key
    · subst heq
      have hsame : keys.filterMap after = keys.filterMap before := by
        refine List.filterMap_congr fun other hmem => hother other ?_
        rintro rfl
        exact hk hmem
      simp [Distinct.add, hkey, hv, set, hsame]
    · have hadd : Distinct.add (k :: keys) key = k :: Distinct.add keys key := by
        by_cases hmem : key ∈ keys
        · simp [Distinct.add, hmem]
        · simp [Distinct.add, hmem, Ne.symm heq]
      rw [hadd, List.filterMap_cons_some ((hother k heq).trans hv), ih, List.filterMap_cons_some hv, set,
        if_neg heq]

/-- One more write is made on top of those before it. -/
theorem latest_concat (writes : List (κ × α)) (write : κ × α) :
    latest (writes ++ [write]) = set write.1 write.2 (latest writes) := by
  rw [latest, List.map_append, List.map_singleton, Distinct.eraseDups_concat, latest]
  refine filterMap_eq_set ?_ ?_ _ (Distinct.nodup_eraseDups _) ?_
  · rw [List.filter_append, List.filter_cons_of_pos (by simp), List.filter_nil, List.getLast?_concat]
  · intro other hne
    rw [List.filter_append, List.filter_cons_of_neg (by simpa using Ne.symm hne), List.filter_nil,
      List.append_nil]
  · intro key hkey
    rw [List.mem_eraseDups] at hkey
    obtain ⟨entry, hentry, rfl⟩ := List.mem_map.mp hkey
    cases hlast : (writes.filter fun write => write.1 = entry.1).getLast? with
    | none =>
      have hnone := List.filter_eq_nil_iff.mp (List.getLast?_eq_none_iff.mp hlast) entry hentry
      exact absurd (decide_eq_true rfl) hnone
    | some last =>
      have hkey := (List.mem_filter.mp (List.mem_of_getLast? hlast)).2
      exact ⟨last.2, by rw [← of_decide_eq_true hkey]⟩

/-- The keys stand in the order of their first writes. -/
theorem keys_latest (writes : List (κ × α)) : (latest writes).map Prod.fst = (writes.map Prod.fst).eraseDups := by
  induction writes using List.reverseRecOn with
  | nil => rfl
  | append_singleton writes write ih =>
    rw [latest_concat, keys_set, ih, List.map_append, List.map_singleton, Distinct.eraseDups_concat, Distinct.add]
    simp only [List.contains_iff_mem]

/-- Every entry left is the last write of its key. -/
theorem getLast?_of_mem_latest {writes : List (κ × α)} {entry : κ × α} (h : entry ∈ latest writes) :
    (writes.filter fun write => write.1 = entry.1).getLast? = some entry := by
  obtain ⟨key, _, hlast⟩ := List.mem_filterMap.mp h
  have hkey := (List.mem_filter.mp (List.mem_of_getLast? hlast)).2
  rw [of_decide_eq_true hkey]
  exact hlast

/-- Setting a key to the value that it has changes nothing. -/
theorem set_of_get? {key : κ} {value : α} {entries : List (κ × α)} (h : get? key entries = some value) :
    set key value entries = entries := by
  induction entries with
  | nil => cases h
  | cons entry rest ih =>
    by_cases hkey : entry.1 = key
    · rw [get?, if_pos hkey] at h
      rw [set, if_pos hkey, ← hkey, ← Option.some.inj h]
    · rw [get?, if_neg hkey] at h
      rw [set, if_neg hkey, ih h]

/-- A lookup fails exactly for the keys that no entry has. -/
theorem get?_eq_none_iff {key : κ} {entries : List (κ × α)} :
    get? key entries = none ↔ key ∉ entries.map Prod.fst := by
  induction entries with
  | nil => simp [get?]
  | cons entry rest ih =>
    by_cases hkey : entry.1 = key
    · simp [get?, hkey]
    · simp [get?, hkey, ih, Ne.symm hkey]

/-- Where no key comes twice, every pair can be looked up. -/
theorem get?_of_mem {entries : List (κ × α)} (h : (entries.map Prod.fst).Nodup) {key : κ} {value : α}
    (hmem : (key, value) ∈ entries) : get? key entries = some value := by
  induction entries with
  | nil => cases hmem
  | cons entry rest ih =>
    rw [List.map_cons, List.nodup_cons] at h
    rcases List.mem_cons.mp hmem with rfl | hmem
    · exact if_pos rfl
    · have hkey : entry.1 ≠ key := by
        intro heq
        exact h.1 (heq ▸ List.mem_map_of_mem hmem)
      rw [get?, if_neg hkey]
      exact ih h.2 hmem

/-- The first write of a key goes to the end. -/
theorem set_of_notMem {key : κ} {entries : List (κ × α)} (h : key ∉ entries.map Prod.fst) (value : α) :
    set key value entries = entries ++ [(key, value)] := by
  induction entries with
  | nil => rfl
  | cons entry rest ih =>
    rw [List.map_cons, List.mem_cons, not_or] at h
    rw [set, if_neg (Ne.symm h.1), ih h.2, List.cons_append]

/-- Writes pairs into a list of pairs, one after the other. -/
def setAll (writes entries : List (κ × α)) : List (κ × α) :=
  writes.foldl (fun entries write => set write.1 write.2 entries) entries

theorem setAll_cons (write : κ × α) (writes entries : List (κ × α)) :
    setAll (write :: writes) entries = setAll writes (set write.1 write.2 entries) := rfl

/-- A pair that is looked up is the one that was written, or else the one that was there. -/
theorem get?_setAll {writes : List (κ × α)} (h : (writes.map Prod.fst).Nodup) (key : κ)
    (entries : List (κ × α)) :
    get? key (setAll writes entries) = (get? key writes).or (get? key entries) := by
  induction writes generalizing entries with
  | nil => rfl
  | cons write writes ih =>
    rw [List.map_cons, List.nodup_cons] at h
    rw [setAll_cons, ih h.2, get?]
    by_cases hkey : write.1 = key
    · subst hkey
      rw [get?_eq_none_iff.mpr h.1, if_pos rfl, get?_set_self]
      rfl
    · rw [if_neg hkey, get?_set_of_ne (Ne.symm hkey)]

/-- The keys that are there already keep their places, and the others follow in the order
    in which they are written. -/
theorem keys_setAll {writes : List (κ × α)} (h : (writes.map Prod.fst).Nodup) (entries : List (κ × α)) :
    (setAll writes entries).map Prod.fst =
      entries.map Prod.fst ++ (writes.map Prod.fst).filter (· ∉ entries.map Prod.fst) := by
  induction writes generalizing entries with
  | nil => simp [setAll]
  | cons write writes ih =>
    rw [List.map_cons, List.nodup_cons] at h
    rw [setAll_cons, ih h.2, keys_set, List.map_cons]
    by_cases hkey : write.1 ∈ entries.map Prod.fst
    · rw [if_pos hkey, List.filter_cons_of_neg (by simpa using hkey)]
    · have hrest : (writes.map Prod.fst).filter (· ∉ entries.map Prod.fst ++ [write.1]) =
          (writes.map Prod.fst).filter (· ∉ entries.map Prod.fst) := by
        refine List.filter_congr fun other hother => ?_
        have hne : other ≠ write.1 := fun heq => h.1 (heq ▸ hother)
        simp [hne]
      rw [if_neg hkey, List.filter_cons_of_pos (by simpa using hkey), hrest, List.append_assoc,
        List.singleton_append]

/-- Writes of distinct keys are themselves the entries they leave. -/
theorem setAll_nil {writes : List (κ × α)} (h : (writes.map Prod.fst).Nodup) : setAll writes [] = writes := by
  induction writes using List.reverseRecOn with
  | nil => rfl
  | append_singleton writes write ih =>
    rw [List.map_append, List.map_singleton, List.nodup_append] at h
    have hnew : write.1 ∉ writes.map Prod.fst := fun hmem => h.2.2 _ hmem _ (List.mem_singleton.mpr rfl) rfl
    have hconcat : setAll (writes ++ [write]) [] = set write.1 write.2 (setAll writes []) := by
      rw [setAll, List.foldl_append]
      rfl
    rw [hconcat, ih h.1, set_of_notMem hnew]

/-- The latest writes are the writes made on nothing. -/
theorem latest_eq_setAll (writes : List (κ × α)) : latest writes = setAll writes [] := by
  induction writes using List.reverseRecOn with
  | nil => rfl
  | append_singleton writes write ih =>
    rw [latest_concat, ih, setAll, setAll, List.foldl_append]
    rfl

/-- Writes keep the keys distinct. -/
theorem nodup_keys_setAll {entries : List (κ × α)} (h : (entries.map Prod.fst).Nodup)
    (writes : List (κ × α)) : ((setAll writes entries).map Prod.fst).Nodup := by
  induction writes generalizing entries with
  | nil => exact h
  | cons write writes ih => exact ih (nodup_keys_set h write.1 write.2)

theorem nodup_keys_latest (writes : List (κ × α)) : ((latest writes).map Prod.fst).Nodup := by
  have hnil : (([] : List (κ × α)).map Prod.fst).Nodup := List.nodup_nil
  rw [latest_eq_setAll]
  exact nodup_keys_setAll hnil writes

/-- Where no key is written twice, every pair that is written stays. -/
theorem latest_of_nodup {writes : List (κ × α)} (h : (writes.map Prod.fst).Nodup) : latest writes = writes := by
  rw [latest_eq_setAll, setAll_nil h]

end JavaSource.Keyed
