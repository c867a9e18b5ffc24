import CodexMonitor.Lib.Text
import Mathlib.Data.List.Chain

namespace CodexMonitor

/-!
# Runs — texts without two of one character in a row

* `NoRun` — the character never stands twice in a row.
* `nil_mem_splitOn_iff` — no piece of a text that is split at a character is empty exactly if the
  character, written in front and behind too, is never followed by itself.
* `prefix_word_iff` — what is in front of a text that begins with a word.
-/

namespace Text

variable {c d : Char} {t u : Text}

/-- The character never stands twice in a row. -/
def NoRun (c : Char) (t : Text) : Prop := t.IsChain fun x y => ¬ (x = c ∧ y = c)

instance : Decidable (NoRun c t) := inferInstanceAs (Decidable (t.IsChain _))

theorem noRun_nil : NoRun c [] := List.isChain_nil

theorem noRun_cons : NoRun c (d :: t) ↔ ¬ (d = c ∧ t.head? = some c) ∧ NoRun c t := by
  unfold NoRun
  rw [List.isChain_cons]
  apply and_congr_left'
  constructor
  · rintro h ⟨rfl, hhead⟩
    exact h d hhead ⟨rfl, rfl⟩
  · rintro h y hy ⟨rfl, rfl⟩
    exact h ⟨rfl, hy⟩

theorem noRun_cons_of_ne (h : d ≠ c) : NoRun c (d :: t) ↔ NoRun c t := by
  rw [noRun_cons, and_iff_right fun heq => h heq.1]

/-- A text without the character has no run of it. -/
theorem noRun_append_of_notMem (h : c ∉ t) : NoRun c (t ++ u) ↔ NoRun c u := by
  induction t with
  | nil => rfl
  | cons d t ih =>
    obtain ⟨hd, ht⟩ := not_or.mp (List.mem_cons.not.mp h)
    rw [List.cons_append, noRun_cons_of_ne (Ne.symm hd), ih ht]

theorem NoRun.of_append (h : NoRun c (t ++ u)) : NoRun c u := List.IsChain.right_of_append h

/-- A run is one that is there. -/
theorem noRun_iff_infix : NoRun c t ↔ ¬ [c, c] <:+: t := by
  unfold NoRun
  rw [List.isChain_iff_forall_rel_of_append_cons_cons]
  constructor
  · rintro h ⟨before, after, hsplit⟩
    have heq : t = before ++ c :: c :: after := by
      rw [← hsplit]
      simp
    exact h heq ⟨rfl, rfl⟩
  · rintro h a b before after rfl ⟨rfl, rfl⟩
    exact h ⟨before, after, by simp⟩

/-- The character behind the text ends no run, unless the text ends with it. -/
theorem noRun_concat (h : t.getLast? ≠ some c) : NoRun c (t ++ [c]) ↔ NoRun c t := by
  induction t with
  | nil => exact iff_of_true (List.isChain_singleton _) noRun_nil
  | cons d t ih =>
    cases t with
    | nil =>
      have hd : d ≠ c := fun heq => h (congrArg some heq)
      rw [List.singleton_append, noRun_cons_of_ne hd, noRun_cons_of_ne hd]
      exact iff_of_true (List.isChain_singleton _) noRun_nil
    | cons e t =>
      rw [List.cons_append, noRun_cons, noRun_cons, ih fun heq => h heq]
      rfl

/-- **The empty pieces of a split text** are the runs of the separator, once it is written in
    front of the text and behind it. -/
theorem nil_mem_splitOn_iff (c : Char) (t : Text) :
    [] ∈ splitOn c t ↔ ¬ NoRun c (c :: (t ++ [c])) := by
  -- the first piece, and the others
  suffices h : ((splitOn c t).head? = some [] ↔ (t ++ [c]).head? = some c) ∧
      ([] ∈ (splitOn c t).tail ↔ ¬ NoRun c (t ++ [c])) by
    rw [noRun_cons, ← List.cons_head?_tail (l := splitOn c t) (List.head?_eq_some_head
      (splitOn_ne_nil c t)), List.mem_cons, h.2]
    rw [List.head?_eq_some_head (splitOn_ne_nil c t), Option.some_inj] at h
    rw [eq_comm, h.1]
    tauto
  induction t with
  | nil =>
    refine ⟨iff_of_true rfl rfl, iff_of_false (by simp [splitOn]) ?_⟩
    exact not_not.mpr (List.isChain_singleton _)
  | cons d t ih =>
    by_cases hd : d = c
    · subst hd
      have hpieces : splitOn d (d :: t) = [] :: splitOn d t := by rw [splitOn, if_pos rfl]
      rw [hpieces, List.cons_append, noRun_cons]
      refine ⟨iff_of_true rfl rfl, ?_⟩
      rw [List.tail_cons, ← List.cons_head?_tail (l := splitOn d t) (List.head?_eq_some_head
        (splitOn_ne_nil d t)), List.mem_cons, ih.2]
      have hhead := ih.1
      rw [List.head?_eq_some_head (splitOn_ne_nil d t), Option.some_inj] at hhead
      rw [eq_comm, hhead]
      tauto
    · obtain ⟨piece, pieces, hsplit, hcons⟩ := splitOn_cons_of_ne hd t
      rw [hcons, List.cons_append, noRun_cons_of_ne hd]
      refine ⟨iff_of_false (by simp) (fun heq => hd (Option.some.inj heq)), ?_⟩
      rw [← ih.2, hsplit]
      rfl

/-- **What begins a text that begins with a word.** -/
theorem prefix_word_iff {p : Char → Bool} {word front rest : Text} {sep : Char}
    (hword : ∀ c ∈ word, p c = true) (hfront : ∀ c ∈ front, p c = true) (hsep : p sep = false)
    (hrest : ∀ c, rest.head? = some c → p c = false) :
    front ++ [sep] <+: word ++ rest ↔ front = word ∧ rest.head? = some sep := by
  constructor
  · rintro ⟨back, hback⟩
    rw [List.append_assoc, List.singleton_append] at hback
    have htakes : ∀ {a : Text} {b : Text}, (∀ c ∈ a, p c = true) →
        (∀ c, b.head? = some c → p c = false) → (a ++ b).takeWhile p = a := by
      intro a b ha hb
      rw [List.takeWhile_append_of_pos ha]
      cases b with
      | nil => rw [List.takeWhile_nil, List.append_nil]
      | cons c b =>
        rw [List.takeWhile_cons_of_neg (by rw [hb c rfl]; exact Bool.false_ne_true),
          List.append_nil]
    have hsame : front = word := by
      have hfirst : (front ++ sep :: back).takeWhile p = front := by
        apply htakes hfront
        intro c hc
        rw [← Option.some.inj hc]
        exact hsep
      rw [← hfirst, hback, htakes hword hrest]
    subst hsame
    refine ⟨rfl, ?_⟩
    rw [← List.append_cancel_left hback]
    rfl
  · rintro ⟨rfl, hhead⟩
    obtain ⟨back, rfl⟩ := List.head?_eq_some_iff.mp hhead
    exact ⟨back, by simp⟩

end Text

end CodexMonitor
