import Quill.Assoc

/-!
Tables as functions of their keys.  Rows that are written one after another give every key its last
value, and where the keys of a table are distinct a key has the value of the one row that it stands
in.
-/

namespace Quill
namespace Assoc

variable {α : Type} {key : String} {a : α} {t : Assoc α}

/-! ## Rows -/

theorem mem_of_get? (h : get? key t = some a) : (key, a) ∈ t := by
  induction t with
  | nil => cases h
  | cons row rest ih =>
    obtain ⟨k, b⟩ := row
    rw [get?] at h
    by_cases hk : k = key
    · rw [if_pos hk] at h
      cases h
      rw [hk]
      exact List.mem_cons_self ..
    · rw [if_neg hk] at h
      exact List.mem_cons_of_mem _ (ih h)

theorem mem_keys (h : (key, a) ∈ t) : key ∈ keys t := List.mem_map.mpr ⟨(key, a), h, rfl⟩

theorem exists_of_mem_keys (h : key ∈ keys t) : ∃ a, (key, a) ∈ t := by
  obtain ⟨⟨k, a⟩, hmem, rfl⟩ := List.mem_map.mp h
  exact ⟨a, hmem⟩

theorem get?_eq_some_iff (h : (keys t).Nodup) : get? key t = some a ↔ (key, a) ∈ t := by
  refine ⟨mem_of_get?, fun hmem => ?_⟩
  induction t with
  | nil => cases hmem
  | cons row rest ih =>
    obtain ⟨k, b⟩ := row
    rw [keys, List.map_cons, List.nodup_cons] at h
    rw [get?]
    rcases List.mem_cons.mp hmem with heq | hrest
    · cases heq
      rw [if_pos rfl]
    · have hne : k ≠ key := fun hk => h.1 (hk ▸ mem_keys hrest)
      rw [if_neg hne]
      exact ih h.2 hrest

theorem value_unique {b : α} (h : (keys t).Nodup) (ha : (key, a) ∈ t) (hb : (key, b) ∈ t) :
    a = b := by
  have hget := (get?_eq_some_iff h).mpr ha
  rw [(get?_eq_some_iff h).mpr hb] at hget
  exact (Option.some.inj hget).symm

theorem nodup_of_keys (h : (keys t).Nodup) : t.Nodup :=
  List.Pairwise.of_map Prod.fst (fun _ _ hne heq => hne (congrArg Prod.fst heq)) h

/-- Two tables with distinct keys that give every key the same hold the same rows. -/
theorem perm_of_get?_eq {u : Assoc α} (ht : (keys t).Nodup) (hu : (keys u).Nodup)
    (h : ∀ key, get? key t = get? key u) : t.Perm u := by
  refine (List.perm_ext_iff_of_nodup (nodup_of_keys ht) (nodup_of_keys hu)).mpr fun row => ?_
  rw [← get?_eq_some_iff ht, ← get?_eq_some_iff hu, h row.1]

theorem nodup_keys_setAll (h : (keys t).Nodup) (rows : Assoc α) : (keys (setAll t rows)).Nodup := by
  induction rows generalizing t with
  | nil => exact h
  | cons row rest ih => exact ih (nodup_keys_set h)

theorem mem_of_mem_set {row : String × α} (h : row ∈ set key a t) : row = (key, a) ∨ row ∈ t := by
  induction t with
  | nil => exact .inl (List.mem_singleton.mp h)
  | cons first rest ih =>
    rw [set] at h
    by_cases hk : first.1 = key
    · rw [if_pos hk] at h
      exact (List.mem_cons.mp h).imp_right (List.mem_cons_of_mem _)
    · rw [if_neg hk] at h
      rcases List.mem_cons.mp h with rfl | h
      · exact .inr List.mem_cons_self
      · exact (ih h).imp_right (List.mem_cons_of_mem _)

theorem mem_of_mem_setAll {row : String × α} {rows : Assoc α} (h : row ∈ setAll t rows) :
    row ∈ t ∨ row ∈ rows := by
  induction rows generalizing t with
  | nil => exact .inl h
  | cons first rest ih =>
    rcases ih h with hset | hrest
    · rcases mem_of_mem_set hset with rfl | ht
      · exact .inr List.mem_cons_self
      · exact .inl ht
    · exact .inr (List.mem_cons_of_mem _ hrest)

end Assoc
end Quill
