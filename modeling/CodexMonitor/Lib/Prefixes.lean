import Mathlib.Data.List.Induction
import Mathlib.Data.List.Infix

namespace CodexMonitor

/-!
# What holds all along a list

* `prefixes_iff` — a property of every front part of a list, by what each further element needs.
* `prefixes_last_iff` — the same at the end of the list only.
-/

variable {α : Type*} {l : List α}

/-- **All along a list**: a property that holds of the empty list holds of every front part of `l`
    exactly if every element of `l` meets the condition under which it is kept. -/
theorem prefixes_iff {holds : List α → Prop} {keeps : List α → α → Prop} (hnil : holds [])
    (hstep : ∀ front x, front ++ [x] <+: l → holds front → (holds (front ++ [x]) ↔ keeps front x)) :
    (∀ front, front <+: l → holds front) ↔
      ∀ front x rest, l = front ++ x :: rest → keeps front x := by
  constructor
  · rintro h front x rest rfl
    have hlonger : front ++ [x] <+: front ++ x :: rest := ⟨rest, by simp⟩
    have hfront := h front ((List.prefix_append front [x]).trans hlonger)
    exact (hstep front x hlonger hfront).mp (h _ hlonger)
  · intro h front
    induction front using List.reverseRecOn with
    | nil => exact fun _ => hnil
    | append_singleton front x ih =>
      intro hprefix
      obtain ⟨rest, hrest⟩ := id hprefix
      have hfront := ih ((List.prefix_append front [x]).trans hprefix)
      refine (hstep front x hprefix hfront).mpr (h front x rest ?_)
      rw [← hrest, List.append_assoc]
      rfl

/-- **At the end of a list**, where the property cannot be had again once it is lost. -/
theorem prefixes_last_iff (holds lost : List α → Prop) {keeps : List α → α → Prop}
    (hnil : holds [])
    (hstep : ∀ front x, front ++ [x] <+: l → holds front → (holds (front ++ [x]) ↔ keeps front x))
    (hloses : ∀ front x, front ++ [x] <+: l → holds front → ¬ holds (front ++ [x]) →
      lost (front ++ [x]))
    (hlasts : ∀ front x, front ++ [x] <+: l → lost front → lost (front ++ [x]))
    (hlost : ∀ front, lost front → ¬ holds front) :
    holds l ↔ ∀ front x rest, l = front ++ x :: rest → keeps front x := by
  rw [← prefixes_iff hnil hstep]
  constructor
  · intro hl front hprefix
    by_contra hnot
    have hall : ∀ front, front <+: l → holds front ∨ lost front := by
      intro front
      induction front using List.reverseRecOn with
      | nil => exact fun _ => .inl hnil
      | append_singleton front x ih =>
        intro hlonger
        rcases ih ((List.prefix_append front [x]).trans hlonger) with hfront | hfront
        · by_cases hx : holds (front ++ [x])
          · exact .inl hx
          · exact .inr (hloses front x hlonger hfront hx)
        · exact .inr (hlasts front x hlonger hfront)
    have hrest : ∀ rest, front ++ rest <+: l → lost (front ++ rest) := by
      intro rest
      induction rest using List.reverseRecOn with
      | nil =>
        intro h
        rw [List.append_nil] at h ⊢
        exact (hall front h).resolve_left hnot
      | append_singleton rest x ih =>
        intro h
        rw [← List.append_assoc] at h ⊢
        exact hlasts _ x h (ih ((List.prefix_append _ [x]).trans h))
    obtain ⟨rest, rfl⟩ := hprefix
    exact hlost _ (hrest rest List.prefix_rfl) hl
  · exact fun h => h l List.prefix_rfl

end CodexMonitor
