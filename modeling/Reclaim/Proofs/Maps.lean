import Std.Data.ExtTreeMap

/-! Reading maps after a write, and the entries of a map without one of its keys. -/

set_option autoImplicit false

namespace Reclaim

section Numbers

variable {α : Type} {map : Std.ExtTreeMap Nat α compare} {key other : Nat} {value : α}

theorem getElem?_insert_key :
    (map.insert key value)[other]? = if key = other then some value else map[other]? := by
  simp [Std.ExtTreeMap.getElem?_insert]

theorem getElem?_erase_key :
    (map.erase key)[other]? = if key = other then none else map[other]? := by
  simp [Std.ExtTreeMap.getElem?_erase]

end Numbers

section Entries

variable {α β : Type} [Ord α] [Std.TransOrd α] [Std.LawfulEqOrd α]
  {map : Std.ExtTreeMap α β compare} {key : α} {value : β}

theorem nodup_toList : map.toList.Nodup := by
  apply (Std.ExtTreeMap.distinct_keys_toList (t := map)).imp
  intro first second apart same
  exact apart (Std.compare_eq_iff_eq.mpr (congrArg Prod.fst same))

theorem toList_perm_erase (found : map[key]? = some value) :
    map.toList.Perm ((key, value) :: (map.erase key).toList) := by
  have fresh : (key, value) ∉ (map.erase key).toList := by
    simp [Std.ExtTreeMap.mem_toList_iff_getElem?_eq_some]
  apply (List.perm_ext_iff_of_nodup nodup_toList (List.nodup_cons.mpr ⟨fresh, nodup_toList⟩)).mpr
  rintro ⟨other, content⟩
  simp only [List.mem_cons, Std.ExtTreeMap.mem_toList_iff_getElem?_eq_some,
    Std.ExtTreeMap.getElem?_erase, Std.compare_eq_iff_eq, Prod.mk.injEq]
  by_cases here : key = other
  · simp [← here, found, eq_comm]
  · simp [here, Ne.symm here]

end Entries

end Reclaim
