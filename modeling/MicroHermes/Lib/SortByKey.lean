import Mathlib.Data.List.Sort

set_option autoImplicit false

namespace SortByKey

variable {A B K : Type} [LinearOrder K] {key : A → K} {entries : List A}

def sortByKey (key : A → K) (entries : List A) : List A :=
  entries.insertionSort fun first second => key first ≤ key second

theorem sortByKey_perm (key : A → K) (entries : List A) : (sortByKey key entries).Perm entries :=
  List.perm_insertionSort ..

theorem sortByKey_ascending (key : A → K) (entries : List A) :
    (sortByKey key entries).Pairwise fun first second => key first ≤ key second := by
  have total : Std.Total fun first second : A => key first ≤ key second :=
    ⟨fun first second => le_total (key first) (key second)⟩
  have trans : IsTrans A fun first second => key first ≤ key second :=
    ⟨fun _ _ _ before after => before.trans after⟩
  exact List.pairwise_insertionSort _ entries

theorem sortByKey_map {key : B → K} (view : A → B) (entries : List A) :
    sortByKey key (entries.map view) = (sortByKey (fun entry => key (view entry)) entries).map view :=
  (List.map_insertionSort _ _ view entries fun _ _ _ _ => Iff.rfl).symm

theorem sortByKey_congr {other : A → K} (same : ∀ entry ∈ entries, key entry = other entry) :
    sortByKey key entries = sortByKey other entries := by
  have sorted := List.map_insertionSort (fun first second : A => key first ≤ key second)
    (fun first second => other first ≤ other second) id entries fun first among second inside => by
      rw [same first among, same second inside, id, id]
  rwa [List.map_id, List.map_id] at sorted

theorem sublist_sortByKey {part : List A} (among : part.Sublist entries)
    (ordered : part.Pairwise fun first second => key first ≤ key second) :
    part.Sublist (sortByKey key entries) :=
  List.sublist_insertionSort ordered among

theorem filter_sortByKey {keep : A → Bool}
    (ordered : (entries.filter keep).Pairwise fun first second => key first ≤ key second) :
    (sortByKey key entries).filter keep = entries.filter keep := by
  have among := (sublist_sortByKey List.filter_sublist ordered).filter keep
  rw [List.filter_filter, List.filter_congr fun entry _ => Bool.and_self (keep entry)] at among
  exact (among.eq_of_length ((sortByKey_perm key entries).filter keep).length_eq.symm).symm

theorem filter_key_sortByKey (key : A → K) (entries : List A) (value : K) :
    (sortByKey key entries).filter (fun entry => key entry = value) =
      entries.filter fun entry => key entry = value := by
  refine filter_sortByKey (List.pairwise_of_forall_mem_list fun first among second inside => ?_)
  have one := (List.mem_filter.1 among).2
  have two := (List.mem_filter.1 inside).2
  rw [of_decide_eq_true one, of_decide_eq_true two]

theorem ties_sortByKey {R : A → A → Prop}
    (ties : entries.Pairwise fun first second => key first = key second → R first second) :
    (sortByKey key entries).Pairwise fun first second => key first = key second → R first second := by
  rw [List.pairwise_iff_forall_sublist] at ties ⊢
  intro first second pair tied
  refine ties ?_ tied
  have kept := pair.filter fun entry => key entry = key first
  rw [filter_key_sortByKey, List.filter_cons_of_pos (by simp),
    List.filter_cons_of_pos (by simp [tied]), List.filter_nil] at kept
  exact kept.trans List.filter_sublist

end SortByKey
