import Mathlib.Data.List.Nodup
import Mathlib.Data.List.Perm.Subperm
import YieldMachine.Scope.Name

/-!
# Fresh names are fresh

The candidates for a name are distinct, so of one more candidates than used names at least
one is free, and the first free one is found.
-/

namespace YieldMachine

theorem toString_nat_injective {m n : Nat} (h : toString m = toString n) : m = n := by
  have hlist : Nat.toDigits 10 m = Nat.toDigits 10 n := by
    rw [← Nat.toList_repr, ← Nat.toList_repr]
    exact congrArg String.toList h
  rw [← Nat.ofDigitChars_ten_toDigits (n := m), hlist, Nat.ofDigitChars_ten_toDigits]

theorem toString_nat_ne_empty (n : Nat) : toString n ≠ "" := by
  intro h
  have hlist : Nat.toDigits 10 n = [] := by
    rw [← Nat.toList_repr]
    exact congrArg String.toList h
  exact Nat.toDigits_ne_nil hlist

theorem candidate_injective (x : String) {m n : Nat} (h : candidate x m = candidate x n) :
    m = n := by
  unfold candidate at h
  split at h <;> split at h
  · omega
  · rename_i hn
    have hnil : x ++ "" = x ++ toString n := by rw [String.append_empty]; exact h
    exact absurd ((String.append_right_inj x).mp hnil).symm (toString_nat_ne_empty n)
  · rename_i hm
    have hnil : x ++ toString m = x ++ "" := by rw [String.append_empty]; exact h
    exact absurd ((String.append_right_inj x).mp hnil) (toString_nat_ne_empty m)
  · exact toString_nat_injective ((String.append_right_inj x).mp h)

/-- The first free candidate is free, unless all of them are taken. -/
theorem firstFree_free (taken : String → Bool) (x : String) (n bound : Nat) :
    taken (firstFree taken x n bound) = false ∨
      ∀ i, n ≤ i → i ≤ n + bound → taken (candidate x i) = true := by
  induction bound generalizing n with
  | zero =>
      rw [firstFree]
      cases h : taken (candidate x n) with
      | false => exact .inl rfl
      | true =>
          right
          intro i hi hi'
          obtain rfl : i = n := by omega
          exact h
  | succ bound ih =>
      rw [firstFree]
      split
      · rename_i h
        refine (ih (n + 1)).imp_right fun hall i hi hi' => ?_
        by_cases hin : i = n
        · rw [hin, h]
        · exact hall i (by omega) (by omega)
      · rename_i h
        exact .inl (by simpa using h)

/-- A free name is not in use. -/
theorem freeName_not_mem (used : List String) (x : String) : freeName used x ∉ used := by
  rcases firstFree_free used.contains x 0 used.length with hfree | hall
  · simpa [freeName] using hfree
  · -- one more candidates than used names cannot all be used
    exfalso
    have hnodup : ((List.range (used.length + 1)).map (candidate x)).Nodup :=
      List.nodup_range.map_on fun m _ n _ h => candidate_injective x h
    have hsub : (List.range (used.length + 1)).map (candidate x) ⊆ used := by
      intro y hy
      obtain ⟨i, hi, rfl⟩ := List.mem_map.mp hy
      have := hall i (Nat.zero_le i) (by have := List.mem_range.mp hi; omega)
      simpa using this
    have hlength := (List.subperm_of_subset hnodup hsub).length_le
    simp only [List.length_map, List.length_range] at hlength
    omega

/-- A free field of a holder is not in use. -/
theorem freeField_not_mem (used : List String) (x : String) : freeField used x ∉ used :=
  freeName_not_mem used _

theorem exists_candidate_of_firstFree (taken : String → Bool) (x : String) (n bound : Nat) :
    ∃ i, firstFree taken x n bound = candidate x i := by
  induction bound generalizing n with
  | zero => exact ⟨n, rfl⟩
  | succ bound ih =>
      rw [firstFree]
      split
      · exact ih (n + 1)
      · exact ⟨n, rfl⟩

theorem length_le_candidate (x : String) (n : Nat) : x.length ≤ (candidate x n).length := by
  unfold candidate
  split
  · exact Nat.le_refl _
  · rw [String.length_append]
    exact Nat.le_add_right _ _

/-- A free field is at least as long as the name that it is for. -/
theorem length_le_freeField (used : List String) (x : String) :
    x.length ≤ (freeField used x).length := by
  obtain ⟨i, hi⟩ := exists_candidate_of_firstFree used.contains
    (if statePrefix.isPrefixOf x then "_" ++ x else x) 0 used.length
  unfold freeField freeName
  rw [hi]
  refine Nat.le_trans ?_ (length_le_candidate _ i)
  split
  · rw [String.length_append]
    exact Nat.le_add_left _ _
  · exact Nat.le_refl _

end YieldMachine
