import CodexMonitor.ApplyPatch.Checked

namespace CodexMonitor.ApplyPatch

/-!
# Apply patch — when the replacements do what they say

Replacements are applied from the last to the first.  The result ought to be the lines read once
from left to right, with the new lines in place of each region.

* `Separate` — two regions that share no line, of which none begins strictly inside the other.
* `spliced` — the lines from left to right.
* `applyReplacements_follows` — regions that follow one another.
* `Tie` — lines that are added where a region with lines begins, by a later replacement.
* `applyReplacements_iff` — with ties at the final empty line only, nothing goes wrong exactly if
  nothing but empty lines is added there.
-/

variable {lines pre post : List Text} {r a b t : Replacement} {rs front back : List Replacement}
  {pos : Nat}

namespace Replacement

/-- The regions share no line, and none of the two begins strictly inside the other. -/
def Separate (a b : Replacement) : Prop := a.stop ≤ b.startIndex ∨ b.stop ≤ a.startIndex

instance : DecidableRel Separate := fun a b =>
  inferInstanceAs (Decidable (a.stop ≤ b.startIndex ∨ b.stop ≤ a.startIndex))

/-- One region ends where the other begins, or before. -/
def Follows (a b : Replacement) : Prop := a.stop ≤ b.startIndex

/-- The second one adds lines where the first one begins to replace some. -/
def Tie (a b : Replacement) : Prop :=
  a.oldLen ≠ 0 ∧ b.oldLen = 0 ∧ a.startIndex = b.startIndex

theorem start_le_stop (r : Replacement) : r.startIndex ≤ r.stop := Nat.le_add_right _ _

end Replacement

open Replacement

/-- **The lines from left to right**: those before each region, the new lines in its place, and
    what is left behind the last one. -/
def spliced (lines : List Text) : Nat → List Replacement → List Text
  | pos, [] => lines.drop pos
  | pos, r :: rs =>
      (lines.take r.startIndex).drop pos ++ r.newLines ++ spliced lines (max pos r.stop) rs

/-! ### Regions that follow one another -/

theorem applyReplacements_append (lines : List Text) (front back : List Replacement) :
    applyReplacements lines (front ++ back) =
      applyReplacements (applyReplacements lines back) front := by
  unfold applyReplacements
  rw [List.reverse_append, List.foldl_append]

/-- **Regions that follow one another** in the first lines: each leaves the lines before it, and
    what is behind the first lines stays there. -/
theorem applyReplacements_from (hfollows : rs.Pairwise Follows)
    (hbounds : ∀ r ∈ rs, r.InBounds pre) (post : List Text) (hpos : pos ≤ pre.length)
    (hstart : ∀ r ∈ rs, pos ≤ r.startIndex) :
    applyReplacements (pre ++ post) rs = pre.take pos ++ (spliced pre pos rs ++ post) := by
  induction rs generalizing pos with
  | nil =>
    unfold spliced
    rw [← List.append_assoc, List.take_append_drop]
    rfl
  | cons r rs ih =>
    obtain ⟨hnext, hrest⟩ := List.pairwise_cons.mp hfollows
    have hstop : r.stop ≤ pre.length := hbounds r List.mem_cons_self
    have hle := start_le_stop r
    have hr := hstart r List.mem_cons_self
    have hlength : (pre.take r.stop).length = r.stop := by
      rw [List.length_take]
      omega
    rw [applyReplacements_cons, ih hrest (fun r' hr' => hbounds r' (List.mem_cons_of_mem r hr'))
      hstop hnext, applyReplacement, show r.startIndex + r.oldLen = r.stop from rfl]
    have htake : (pre.take r.stop ++ (spliced pre r.stop rs ++ post)).take r.startIndex =
        pre.take r.startIndex := by
      rw [List.take_append_of_le_length (by omega), List.take_take, Nat.min_eq_left hle]
    have hdrop : (pre.take r.stop ++ (spliced pre r.stop rs ++ post)).drop r.stop =
        spliced pre r.stop rs ++ post := List.drop_left' hlength
    have hsplit : pre.take pos ++ (pre.take r.startIndex).drop pos = pre.take r.startIndex := by
      conv_rhs => rw [← List.take_append_drop pos (pre.take r.startIndex)]
      rw [List.take_take, Nat.min_eq_left hr]
    rw [htake, hdrop, spliced, Nat.max_eq_right (by omega)]
    simp only [List.append_assoc]
    rw [← List.append_assoc (pre.take pos), hsplit]

theorem applyReplacements_prefix (hfollows : rs.Pairwise Follows)
    (hbounds : ∀ r ∈ rs, r.InBounds pre) (post : List Text) :
    applyReplacements (pre ++ post) rs = spliced pre 0 rs ++ post := by
  rw [applyReplacements_from hfollows hbounds post (Nat.zero_le _) fun r _ => Nat.zero_le _]
  rfl

/-- **Regions that follow one another** are replaced and nothing else. -/
theorem applyReplacements_follows (hfollows : rs.Pairwise Follows)
    (hbounds : ∀ r ∈ rs, r.InBounds lines) :
    applyReplacements lines rs = spliced lines 0 rs := by
  have happly := applyReplacements_prefix hfollows hbounds []
  rwa [List.append_nil, List.append_nil] at happly

/-- From a place that no region has reached yet. -/
theorem spliced_from (hpos : pos ≤ pre.length) (hstart : ∀ r ∈ rs, pre.length ≤ r.startIndex) :
    spliced (pre ++ post) pos rs = pre.drop pos ++ spliced (pre ++ post) pre.length rs := by
  cases rs with
  | nil =>
    unfold spliced
    rw [List.drop_append_of_le_length hpos, List.drop_left]
  | cons r rs =>
    have hr := hstart r List.mem_cons_self
    have hle := start_le_stop r
    unfold spliced
    rw [List.take_append, List.take_of_length_le hr, List.drop_append_of_le_length hpos,
      List.drop_left, Nat.max_eq_right (by omega), Nat.max_eq_right (by omega)]
    simp only [List.append_assoc]

/-- Regions in the first lines, and regions behind them. -/
theorem spliced_append (hfront : ∀ r ∈ front, r.InBounds pre)
    (hback : ∀ r ∈ back, pre.length ≤ r.startIndex) (hpos : pos ≤ pre.length) :
    spliced (pre ++ post) pos (front ++ back) =
      spliced pre pos front ++ spliced (pre ++ post) pre.length back := by
  induction front generalizing pos with
  | nil => exact spliced_from hpos hback
  | cons r front ih =>
    have hstop : r.stop ≤ pre.length := hfront r List.mem_cons_self
    have hle := start_le_stop r
    rw [List.cons_append, spliced, spliced,
      ih (fun r' hr' => hfront r' (List.mem_cons_of_mem r hr')) (Nat.max_le.mpr ⟨hpos, hstop⟩),
      List.take_append_of_le_length (by omega)]
    simp only [List.append_assoc]

/-! ### Lines that are added at the final empty line -/

/-- Lines that are added at the end. -/
theorem applyReplacements_end (h : ∀ r ∈ rs, r.oldLen = 0 ∧ r.startIndex = lines.length) :
    applyReplacements lines rs = lines ++ rs.flatMap (·.newLines) := by
  induction rs with
  | nil => exact (List.append_nil _).symm
  | cons r rs ih =>
    obtain ⟨hlen, hstart⟩ := h r List.mem_cons_self
    rw [applyReplacements_cons, ih fun r' hr' => h r' (List.mem_cons_of_mem r hr'),
      applyReplacement, hlen, hstart, Nat.add_zero, List.take_left, List.drop_left,
      List.flatMap_cons, List.append_assoc]

/-- Lines that are added at the end of the lines, read from there. -/
theorem spliced_end (h : ∀ r ∈ rs, r.stop ≤ lines.length) :
    spliced lines lines.length rs = rs.flatMap (·.newLines) := by
  induction rs with
  | nil => exact List.drop_length
  | cons r rs ih =>
    have hstop := h r List.mem_cons_self
    rw [spliced, Nat.max_eq_left hstop, ih fun r' hr' => h r' (List.mem_cons_of_mem r hr'),
      List.flatMap_cons, List.drop_eq_nil_of_le (by rw [List.length_take]; omega),
      List.nil_append]

/-- **Lines that are added before or behind a last line.** -/
theorem applyReplacements_around (last : Text) (hsorted : rs.Pairwise StartsBefore)
    (h : ∀ r ∈ rs, r.oldLen = 0 ∧
      (r.startIndex = pre.length ∨ r.startIndex = pre.length + 1)) :
    ∃ before after, applyReplacements (pre ++ [last]) rs = pre ++ (before ++ last :: after) ∧
      rs.flatMap (·.newLines) = before ++ after ∧
        ∀ line, line ∈ before ↔
          ∃ r ∈ rs, r.startIndex = pre.length ∧ line ∈ r.newLines := by
  induction rs with
  | nil =>
    refine ⟨[], [], rfl, rfl, ?_⟩
    intro line
    simp
  | cons r rs ih =>
    obtain ⟨hfirst, hrest⟩ := List.pairwise_cons.mp hsorted
    obtain ⟨hlen, hbefore | hbehind⟩ := h r List.mem_cons_self
    · obtain ⟨before, after, happly, hlines, hmem⟩ :=
        ih hrest fun r' hr' => h r' (List.mem_cons_of_mem r hr')
      refine ⟨r.newLines ++ before, after, ?_, ?_, ?_⟩
      · rw [applyReplacements_cons, happly, applyReplacement, hlen, hbefore, Nat.add_zero,
          List.take_left, List.drop_left]
        simp only [List.append_assoc]
      · rw [List.flatMap_cons, hlines, List.append_assoc]
      · intro line
        rw [List.mem_append, hmem]
        constructor
        · rintro (hline | ⟨r', hr', hstart, hline⟩)
          · exact ⟨r, List.mem_cons_self, hbefore, hline⟩
          · exact ⟨r', List.mem_cons_of_mem r hr', hstart, hline⟩
        · rintro ⟨r', hr', hstart, hline⟩
          rcases List.mem_cons.mp hr' with rfl | hr'
          · exact .inl hline
          · exact .inr ⟨r', hr', hstart, hline⟩
    · -- the regions are sorted, so all others lie behind the last line as well
      have hend : ∀ r' ∈ r :: rs, r'.oldLen = 0 ∧ r'.startIndex = (pre ++ [last]).length := by
        intro r' hr'
        have hstart : r.startIndex ≤ r'.startIndex := by
          rcases List.mem_cons.mp hr' with rfl | hr'
          · exact Nat.le_refl _
          · exact hfirst r' hr'
        obtain ⟨hlen', hplace⟩ := h r' hr'
        rw [List.length_append, List.length_singleton]
        refine ⟨hlen', ?_⟩
        omega
      refine ⟨[], (r :: rs).flatMap (·.newLines), ?_, rfl, ?_⟩
      · rw [applyReplacements_end hend, List.append_assoc]
        rfl
      · intro line
        constructor
        · intro hline
          exact absurd hline List.not_mem_nil
        · rintro ⟨r', hr', hstart, -⟩
          have hplace := (hend r' hr').2
          rw [List.length_append, List.length_singleton] at hplace
          omega

/-- A list that is moved by one place and does not change. -/
theorem append_singleton_eq_cons_iff {α : Type} {x e : α} {l : List α} :
    l ++ [e] = x :: l ↔ ∀ y ∈ x :: l, y = e := by
  induction l generalizing x with
  | nil =>
    rw [List.nil_append, List.cons.injEq, and_iff_left rfl, List.forall_mem_singleton]
    exact eq_comm
  | cons y l ih =>
    rw [List.cons_append, List.cons.injEq, ih, List.forall_mem_cons, List.forall_mem_cons,
      List.forall_mem_cons]
    constructor
    · rintro ⟨rfl, hy, hl⟩
      exact ⟨hy, hy, hl⟩
    · rintro ⟨hx, hy, hl⟩
      exact ⟨hy.trans hx.symm, hy, hl⟩

theorem drop_one_eq_iff {α : Type} {e : α} {before after : List α} :
    (before ++ e :: after).drop 1 = before ++ after ↔ ∀ y ∈ before, y = e := by
  cases before with
  | nil => simp
  | cons x before =>
    have hcut : (x :: before ++ e :: after).drop 1 = (before ++ [e]) ++ after := by
      rw [List.append_assoc]
      rfl
    rw [hcut, List.append_left_inj]
    exact append_singleton_eq_cons_iff

/-! ### When nothing goes wrong -/

/-- Lines that are added where an earlier replacement begins are empty. -/
def NoLoss (a b : Replacement) : Prop := Tie a b → ∀ line ∈ b.newLines, line = []

/-- Sorted regions that are separate follow one another, ties apart. -/
theorem follows_of_not_tie (hle : StartsBefore a b) (hseparate : Separate a b) (htie : ¬ Tie a b) :
    Follows a b := by
  unfold Follows
  unfold Tie at htie
  have hstart : a.startIndex ≤ b.startIndex := hle
  unfold Separate Replacement.stop at *
  omega

/-- **Sorted regions that are separate**, with ties at the final empty line only: the result is
    the lines from left to right exactly if nothing but empty lines is added at a tie. -/
theorem applyReplacements_iff (hsorted : rs.Pairwise StartsBefore)
    (hbounds : ∀ r ∈ rs, r.InBounds lines) (hseparate : rs.Pairwise Separate)
    (hties : rs.Pairwise fun a b => Tie a b → ∃ pre, lines = pre ++ [[]] ∧
      a.startIndex = pre.length) :
    applyReplacements lines rs = spliced lines 0 rs ↔ rs.Pairwise NoLoss := by
  by_cases hnone : rs.Pairwise fun a b => ¬ Tie a b
  · have hfollows : rs.Pairwise Follows :=
      ((hsorted.and hseparate).and hnone).imp fun h => follows_of_not_tie h.1.1 h.1.2 h.2
    refine iff_of_true (applyReplacements_follows hfollows hbounds) ?_
    exact hnone.imp fun h htie => absurd htie h
  -- the region of a tie, and what is before and behind it
  rw [List.pairwise_iff_forall_sublist] at hnone
  simp only [not_forall, not_not] at hnone
  obtain ⟨t, y, hsublist, htie⟩ := hnone
  obtain ⟨pre, rfl, hstart⟩ := List.pairwise_iff_forall_sublist.mp hties hsublist htie
  obtain ⟨front, back, rfl⟩ := List.append_of_mem (hsublist.subset List.mem_cons_self)
  have hlen : t.oldLen = 1 := by
    have hin : t.stop ≤ (pre ++ [[]]).length := hbounds t (by simp)
    have hsome := htie.1
    rw [List.length_append, List.length_singleton] at hin
    unfold Replacement.stop at hin
    omega
  have hstop : t.stop = pre.length + 1 := by
    unfold Replacement.stop
    rw [hstart, hlen]
  obtain ⟨hsortedFront, hsortedBack, hacross⟩ := List.pairwise_append.mp hsorted
  obtain ⟨hseparateFront, hseparateBack, hseparateAcross⟩ := List.pairwise_append.mp hseparate
  obtain ⟨htiesFront, -, -⟩ := List.pairwise_append.mp hties
  obtain ⟨hbackStart, hsortedRest⟩ := List.pairwise_cons.mp hsortedBack
  obtain ⟨hbackSeparate, -⟩ := List.pairwise_cons.mp hseparateBack
  have hfrontBounds : ∀ r ∈ front, r.InBounds pre := by
    intro r hr
    have hle : r.startIndex ≤ t.startIndex := hacross r hr t List.mem_cons_self
    have hapart : r.stop ≤ t.startIndex ∨ t.stop ≤ r.startIndex :=
      hseparateAcross r hr t List.mem_cons_self
    unfold Replacement.InBounds
    omega
  have hfrontFollows : front.Pairwise Follows := by
    rw [List.pairwise_iff_forall_sublist] at hsortedFront hseparateFront htiesFront ⊢
    intro a b hab
    refine follows_of_not_tie (hsortedFront hab) (hseparateFront hab) fun htie' => ?_
    obtain ⟨pre', heq, hstart'⟩ := htiesFront hab htie'
    have hsame : pre = pre' := (List.append_inj' heq rfl).1
    have hin : a.stop ≤ pre.length := hfrontBounds a (hab.subset List.mem_cons_self)
    have hsome := htie'.1
    unfold Replacement.stop at hin
    rw [← hsame] at hstart'
    omega
  have hback : ∀ r ∈ back, r.oldLen = 0 ∧
      (r.startIndex = pre.length ∨ r.startIndex = pre.length + 1) := by
    intro r hr
    have hle : t.startIndex ≤ r.startIndex := hbackStart r hr
    have hapart : t.stop ≤ r.startIndex ∨ r.stop ≤ t.startIndex := hbackSeparate r hr
    have hin : r.stop ≤ (pre ++ [[]]).length := hbounds r (by simp [hr])
    rw [List.length_append, List.length_singleton] at hin
    unfold Replacement.stop at hin hapart hstop
    omega
  obtain ⟨before, after, happly, hlines, hmem⟩ :=
    applyReplacements_around [] hsortedRest hback
  have hleft : applyReplacements (pre ++ [[]]) (front ++ t :: back) =
      spliced pre 0 front ++ (t.newLines ++ (before ++ [] :: after).drop 1) := by
    rw [applyReplacements_append, applyReplacements_cons, happly, applyReplacement, hstart, hlen,
      List.take_left, List.drop_append, List.drop_eq_nil_of_le (by omega), List.nil_append,
      Nat.add_sub_cancel_left, List.append_assoc,
      applyReplacements_prefix hfrontFollows hfrontBounds]
  have hright : spliced (pre ++ [[]]) 0 (front ++ t :: back) =
      spliced pre 0 front ++ (t.newLines ++ (before ++ after)) := by
    have hbehind : ∀ r ∈ t :: back, pre.length ≤ r.startIndex := by
      intro r hr
      rcases List.mem_cons.mp hr with rfl | hr
      · exact Nat.le_of_eq hstart.symm
      · have hplace := (hback r hr).2
        omega
    rw [spliced_append hfrontBounds hbehind (Nat.zero_le _), spliced, hstart, List.take_left,
      List.drop_length, List.nil_append, hstop, Nat.max_eq_right (Nat.le_succ _)]
    have hbackStop : ∀ r ∈ back, r.stop ≤ (pre ++ [[]]).length := by
      intro r hr
      obtain ⟨hzero, hplace⟩ := hback r hr
      rw [List.length_append, List.length_singleton]
      unfold Replacement.stop
      omega
    have hend := spliced_end hbackStop
    rw [List.length_append, List.length_singleton] at hend
    rw [hend, hlines]
  rw [hleft, hright, List.append_right_inj, List.append_right_inj, drop_one_eq_iff]
  constructor
  · intro hempty
    rw [List.pairwise_append, List.pairwise_cons]
    have hnoTie : ∀ a ∈ front, ∀ b : Replacement, pre.length ≤ b.startIndex → ¬ Tie a b := by
      intro a ha b hb htie'
      have hin : a.stop ≤ pre.length := hfrontBounds a ha
      obtain ⟨hsome, -, hsame⟩ := htie'
      unfold Replacement.stop at hin
      omega
    refine ⟨?_, ⟨?_, ?_⟩, ?_⟩
    · refine hfrontFollows.imp_of_mem fun {a b} _ _ hab htie' => ?_
      obtain ⟨hsome, -, hsame⟩ := htie'
      unfold Follows Replacement.stop at hab
      omega
    · intro r hr htie' line hline
      exact hempty line ((hmem line).mpr ⟨r, hr, htie'.2.2.symm.trans hstart, hline⟩)
    · refine hsortedRest.imp_of_mem fun {a b} ha _ _ htie' => ?_
      exact absurd (hback a ha).1 htie'.1
    · intro a ha b hb htie'
      refine absurd htie' (hnoTie a ha b ?_)
      rcases List.mem_cons.mp hb with rfl | hb
      · exact Nat.le_of_eq hstart.symm
      · have hplace := (hback b hb).2
        omega
  · intro hnoLoss line hline
    obtain ⟨r, hr, hplace, hin⟩ := (hmem line).mp hline
    obtain ⟨-, hcons, -⟩ := List.pairwise_append.mp hnoLoss
    refine (List.pairwise_cons.mp hcons).1 r hr ⟨htie.1, (hback r hr).1, ?_⟩ line hin
    exact hstart.trans hplace.symm

end CodexMonitor.ApplyPatch
