import MicroHermes.Pruning

set_option autoImplicit false

namespace MicroHermes

open Average

variable {W : Nat}

theorem level_mono {avg raised : Rat} (higher : avg ≤ raised) :
    avg + max (1 / 2 * avg) 1 ≤ raised + max (1 / 2 * raised) 1 := by
  gcongr

theorem level_rise {avg raised : Rat} (higher : avg ≤ raised) :
    raised + max (1 / 2 * raised) 1 ≤ avg + max (1 / 2 * avg) 1 + 3 / 2 * (raised - avg) := by
  have ratio := le_max_left (1 / 2 * avg) 1
  have floor := le_max_right (1 / 2 * avg) 1
  rcases max_choice (1 / 2 * raised) 1 with theta | theta <;> rw [theta] <;> linarith

section Raised

variable {candidates : List (Fin W)} {i : Fin W} {metric raised : Fin W → Int}

theorem mean_raised (distinct : candidates.Nodup) (inside : i ∈ candidates)
    (others : ∀ j, j ≠ i → raised j = metric j) :
    mean (candidates.map fun j => (raised j : Rat)) =
      mean (candidates.map fun j => (metric j : Rat)) +
        ((raised i : Rat) - metric i) / candidates.length :=
  mean_raise distinct inside fun j other => by rw [others j other]

theorem baseline_mono (distinct : candidates.Nodup) (inside : i ∈ candidates)
    (higher : metric i ≤ raised i) (others : ∀ j, j ≠ i → raised j = metric j) :
    baseline candidates metric ≤ baseline candidates raised := by
  have rise : (0 : Rat) ≤ (raised i : Rat) - metric i := by
    rw [sub_nonneg]
    exact_mod_cast higher
  refine level_mono ?_
  rw [mean_raised distinct inside others]
  exact le_add_of_nonneg_right (div_nonneg rise (Nat.cast_nonneg _))

theorem baseline_rise (distinct : candidates.Nodup) (inside : i ∈ candidates)
    (several : 2 ≤ candidates.length) (higher : metric i ≤ raised i)
    (others : ∀ j, j ≠ i → raised j = metric j) :
    baseline candidates raised ≤ baseline candidates metric + ((raised i : Rat) - metric i) := by
  have rise : (0 : Rat) ≤ (raised i : Rat) - metric i := by
    rw [sub_nonneg]
    exact_mod_cast higher
  have share : ((raised i : Rat) - metric i) / candidates.length ≤
      ((raised i : Rat) - metric i) / 2 :=
    div_le_div_of_nonneg_left rise two_pos (by exact_mod_cast several)
  have moved := mean_raised distinct inside others
  have above : mean (candidates.map fun j => (metric j : Rat)) ≤
      mean (candidates.map fun j => (raised j : Rat)) := by
    rw [moved]
    exact le_add_of_nonneg_right (div_nonneg rise (Nat.cast_nonneg _))
  have level := level_rise above
  simp only [baseline]
  linarith

theorem single_accepted (inside : i ∈ candidates) (single : candidates.length ≤ 1) :
    i ∈ filterBelowBaseline Rat candidates metric := by
  -- A candidate without a rival is its own average.
  refine filterBelowBaseline_of_least inside fun j among => ?_
  have same : i = j := by
    obtain ⟨only, rfl⟩ := List.length_eq_one_iff.1
      (le_antisymm single (List.length_pos_of_mem inside))
    rw [List.mem_singleton.1 inside, List.mem_singleton.1 among]
  rw [same]

theorem accepted_of_raised (distinct : candidates.Nodup) (inside : i ∈ candidates)
    (higher : metric i ≤ raised i) (others : ∀ j, j ≠ i → raised j = metric j)
    (accepted : i ∈ filterBelowBaseline Rat candidates raised) :
    i ∈ filterBelowBaseline Rat candidates metric := by
  rcases Nat.lt_or_ge 1 candidates.length with several | single
  · have below := ((mem_filterBelowBaseline candidates raised i).1 accepted).2
    have rise := baseline_rise distinct inside several higher others
    exact (mem_filterBelowBaseline candidates metric i).2 ⟨inside, by linarith⟩
  · exact single_accepted inside single

theorem other_accepted_raised (distinct : candidates.Nodup) (inside : i ∈ candidates)
    (higher : metric i ≤ raised i) (others : ∀ j, j ≠ i → raised j = metric j) {j : Fin W}
    (other : j ≠ i) (accepted : j ∈ filterBelowBaseline Rat candidates metric) :
    j ∈ filterBelowBaseline Rat candidates raised := by
  obtain ⟨candidate, below⟩ := (mem_filterBelowBaseline candidates metric j).1 accepted
  refine (mem_filterBelowBaseline candidates raised j).2 ⟨candidate, ?_⟩
  rw [others j other]
  exact below.trans_le (baseline_mono distinct inside higher others)

end Raised

theorem filter_responds_to_load {candidates : List (Fin W)} (distinct : candidates.Nodup)
    {i : Fin W} (inside : i ∈ candidates) (metric changed : Fin W → Int)
    (others : ∀ j, j ≠ i → changed j = metric j) :
    (metric i ≤ changed i →
      (i ∉ filterBelowBaseline Rat candidates metric →
        i ∉ filterBelowBaseline Rat candidates changed) ∧
      ∀ j, j ≠ i → j ∈ filterBelowBaseline Rat candidates metric →
        j ∈ filterBelowBaseline Rat candidates changed) ∧
    (changed i ≤ metric i →
      (i ∈ filterBelowBaseline Rat candidates metric →
        i ∈ filterBelowBaseline Rat candidates changed) ∧
      ∀ j, j ≠ i → j ∉ filterBelowBaseline Rat candidates metric →
        j ∉ filterBelowBaseline Rat candidates changed) := by
  have back : ∀ j, j ≠ i → metric j = changed j := fun j other => (others j other).symm
  refine ⟨fun higher => ⟨fun rejected accepted => ?_, fun j other accepted => ?_⟩,
    fun lower => ⟨fun accepted => ?_, fun j other rejected accepted => ?_⟩⟩
  · exact rejected (accepted_of_raised distinct inside higher others accepted)
  · exact other_accepted_raised distinct inside higher others other accepted
  · exact accepted_of_raised distinct inside lower back accepted
  · exact rejected (other_accepted_raised distinct inside lower back other accepted)

def firstLoaded (load : Int) : Fin 3 → Int := fun i => if i = 0 then load else i.val

theorem filter_responds_to_load_raised :
    (0 : Fin 3) ∉ filterBelowBaseline Rat (List.finRange 3) (firstLoaded 9) ∧
    (0 : Fin 3) ∉ filterBelowBaseline Rat (List.finRange 3) (firstLoaded 12) := by
  have rejected : (0 : Fin 3) ∉ filterBelowBaseline Rat (List.finRange 3) (firstLoaded 9) := by
    decide +kernel
  have raised := (filter_responds_to_load (List.nodup_finRange 3) (List.mem_finRange 0)
    (firstLoaded 9) (firstLoaded 12) (by decide)).1 (by decide)
  exact ⟨rejected, raised.1 rejected⟩

end MicroHermes
