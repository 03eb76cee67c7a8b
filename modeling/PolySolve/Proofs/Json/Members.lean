import Mathlib.Data.List.Nodup
import PolySolve.Json.Value

/-!
# The members of an object

Setting a member keeps the names of an object different, and brings in nothing
but that member. So does setting all the members of another object, and the
members of a written object are set one after another.

* `mem_put`, `mem_override`, `mem_ofWritten`: where the members come from;
* `nodup_put`, `nodup_override`, `nodup_ofWritten`: their names differ;
* `ofWritten_of_nodup`: names that differ keep their order and values.
-/

namespace PolySolve.Json.Members

open Text

/-- The names of the members. -/
abbrev names (ms : Members) : List (List CodePoint) := ms.map Prod.fst

theorem mem_of_lookup {name : List CodePoint} {v : Json} {ms : Members}
    (h : ms.lookup name = some v) : (name, v) ∈ ms := by
  induction ms with
  | nil => contradiction
  | cons m ms ih =>
    obtain ⟨n, u⟩ := m
    rw [lookup] at h
    split at h
    · rename_i hn
      obtain rfl := Option.some.inj h
      rw [hn]
      exact List.mem_cons_self
    · exact List.mem_cons_of_mem _ (ih h)

/-! ## Where members come from -/

theorem mem_put {name : List CodePoint} {v : Json} {ms : Members} {m : List CodePoint × Json}
    (h : m ∈ ms.put name v) : m ∈ ms ∨ m = (name, v) := by
  induction ms with
  | nil => exact Or.inr (List.mem_singleton.1 h)
  | cons u ms ih =>
    obtain ⟨n, w⟩ := u
    rw [put] at h
    split at h
    · rename_i hn
      rcases List.mem_cons.1 h with rfl | h
      · exact Or.inr (by rw [hn])
      · exact Or.inl (List.mem_cons_of_mem _ h)
    · rcases List.mem_cons.1 h with rfl | h
      · exact Or.inl List.mem_cons_self
      · exact (ih h).imp_left (List.mem_cons_of_mem _)

theorem mem_override {ms others : Members} {m : List CodePoint × Json}
    (h : m ∈ ms.override others) : m ∈ ms ∨ m ∈ others := by
  induction others generalizing ms with
  | nil => exact Or.inl h
  | cons u others ih =>
    have hstep : m ∈ (ms.put u.1 u.2).override others := h
    rcases ih hstep with h | h
    · exact (mem_put h).imp_right fun hm => List.mem_cons.2 (Or.inl hm)
    · exact Or.inr (List.mem_cons_of_mem _ h)

theorem mem_ofWritten {ms : Members} {m : List CodePoint × Json} (h : m ∈ ofWritten ms) :
    m ∈ ms := (mem_override h).resolve_left List.not_mem_nil

/-! ## Names -/

theorem put_of_not_mem {name : List CodePoint} {ms : Members} (h : name ∉ ms.names) (v : Json) :
    ms.put name v = ms ++ [(name, v)] := by
  induction ms with
  | nil => rfl
  | cons m ms ih =>
    obtain ⟨n, u⟩ := m
    rw [names, List.map_cons, List.mem_cons, not_or] at h
    rw [put, if_neg (Ne.symm h.1), ih h.2, List.cons_append]

theorem names_put_of_mem {name : List CodePoint} {ms : Members} (h : name ∈ ms.names) (v : Json) :
    (ms.put name v).names = ms.names := by
  induction ms with
  | nil => contradiction
  | cons m ms ih =>
    obtain ⟨n, u⟩ := m
    rw [put]
    split
    · rfl
    · rename_i hn
      have hname : name ∈ names ms := (List.mem_cons.1 h).resolve_left (Ne.symm hn)
      exact congrArg (n :: ·) (ih hname)

theorem nodup_put {ms : Members} (h : ms.names.Nodup) (name : List CodePoint) (v : Json) :
    (ms.put name v).names.Nodup := by
  by_cases hn : name ∈ ms.names
  · rwa [names_put_of_mem hn]
  · rw [put_of_not_mem hn, names, List.map_append]
    exact h.append (List.nodup_singleton name) (List.disjoint_singleton.2 hn)

theorem nodup_override {ms : Members} (h : ms.names.Nodup) (others : Members) :
    (ms.override others).names.Nodup := by
  induction others generalizing ms with
  | nil => exact h
  | cons m others ih => exact ih (nodup_put h m.1 m.2)

theorem nodup_ofWritten (ms : Members) : (ofWritten ms).names.Nodup :=
  nodup_override (show (names []).Nodup from List.nodup_nil) ms

theorem override_of_nodup {ms others : Members} (h : (ms ++ others).names.Nodup) :
    ms.override others = ms ++ others := by
  induction others generalizing ms with
  | nil => exact (List.append_nil ms).symm
  | cons m others ih =>
    obtain ⟨n, v⟩ := m
    have hnot : n ∉ ms.names := by
      rw [names, List.map_append, List.map_cons] at h
      exact fun hm => (List.nodup_append.1 h).2.2 n hm n List.mem_cons_self rfl
    have hput := put_of_not_mem hnot v
    rw [List.append_cons] at h ⊢
    rw [← hput] at h ⊢
    exact ih h

theorem ofWritten_of_nodup {ms : Members} (h : ms.names.Nodup) : ofWritten ms = ms :=
  override_of_nodup h

end PolySolve.Json.Members
