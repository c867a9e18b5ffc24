import Mathlib.Data.List.Infix

namespace CodexMonitor

/-!
# Wildcards — patterns of literals, single-letter and any-length wildcards

A pattern is a list of tokens over an alphabet: a letter, a wildcard for one letter, a
wildcard for any letters.

* `accepts` — whether a pattern matches a word; it runs by recursion on the pattern.
* `accepts_append` — a composed pattern matches the words that split accordingly.
* `accepts_nil_iff` — the patterns that match the empty word.
* `accepts_suffix` — a pattern of which only the last part is known still pins down the end.
-/

/-- A letter, one letter, or any number of letters. -/
inductive Wildcard (α : Type*) where
  | lit (a : α)
  | one
  | many
  deriving DecidableEq, Repr

namespace Wildcard

variable {α : Type*} [DecidableEq α] {p q : List (Wildcard α)} {word : List α} {a : α}

/-- The pattern matches the word. -/
def accepts : List (Wildcard α) → List α → Bool
  | [], word => word.isEmpty
  | .lit a :: p, word => word.head? = some a && accepts p word.tail
  | .one :: p, word => !word.isEmpty && accepts p word.tail
  | .many :: p, word => word.tails.any fun rest => accepts p rest

theorem accepts_nil : accepts ([] : List (Wildcard α)) word = true ↔ word = [] :=
  List.isEmpty_iff

theorem accepts_lit : accepts (.lit a :: p) word = true ↔
    ∃ rest, word = a :: rest ∧ accepts p rest = true := by
  cases word with
  | nil => simp [accepts]
  | cons b rest =>
    simp only [accepts, List.head?_cons, List.tail_cons, Bool.and_eq_true, decide_eq_true_eq,
      Option.some.injEq, List.cons.injEq]
    constructor
    · rintro ⟨rfl, h⟩
      exact ⟨rest, ⟨rfl, rfl⟩, h⟩
    · rintro ⟨rest', ⟨rfl, rfl⟩, h⟩
      exact ⟨rfl, h⟩

theorem accepts_one : accepts (.one :: p) word = true ↔
    ∃ b rest, word = b :: rest ∧ accepts p rest = true := by
  cases word with
  | nil => simp [accepts]
  | cons b rest => simp [accepts]

theorem accepts_many : accepts (.many :: p) word = true ↔
    ∃ front rest, word = front ++ rest ∧ accepts p rest = true := by
  simp only [accepts, List.any_eq_true, List.mem_tails]
  constructor
  · rintro ⟨rest, ⟨front, hsplit⟩, hrest⟩
    exact ⟨front, rest, hsplit.symm, hrest⟩
  · rintro ⟨front, rest, hsplit, hrest⟩
    exact ⟨rest, ⟨front, hsplit.symm⟩, hrest⟩

/-- **Composed patterns.** -/
theorem accepts_append : accepts (p ++ q) word = true ↔
    ∃ front back, word = front ++ back ∧ accepts p front = true ∧ accepts q back = true := by
  induction p generalizing word with
  | nil =>
    rw [List.nil_append]
    constructor
    · intro h
      exact ⟨[], word, rfl, rfl, h⟩
    · rintro ⟨front, back, rfl, hfront, hback⟩
      rw [accepts_nil.mp hfront, List.nil_append]
      exact hback
  | cons token p ih =>
    rw [List.cons_append]
    cases token with
    | lit a =>
      rw [accepts_lit]
      constructor
      · rintro ⟨rest, rfl, h⟩
        obtain ⟨front, back, rfl, hfront, hback⟩ := ih.mp h
        exact ⟨a :: front, back, rfl, accepts_lit.mpr ⟨front, rfl, hfront⟩, hback⟩
      · rintro ⟨front, back, rfl, hfront, hback⟩
        obtain ⟨rest, rfl, hrest⟩ := accepts_lit.mp hfront
        exact ⟨rest ++ back, rfl, ih.mpr ⟨rest, back, rfl, hrest, hback⟩⟩
    | one =>
      rw [accepts_one]
      constructor
      · rintro ⟨b, rest, rfl, h⟩
        obtain ⟨front, back, rfl, hfront, hback⟩ := ih.mp h
        exact ⟨b :: front, back, rfl, accepts_one.mpr ⟨b, front, rfl, hfront⟩, hback⟩
      · rintro ⟨front, back, rfl, hfront, hback⟩
        obtain ⟨b, rest, rfl, hrest⟩ := accepts_one.mp hfront
        exact ⟨b, rest ++ back, rfl, ih.mpr ⟨rest, back, rfl, hrest, hback⟩⟩
    | many =>
      rw [accepts_many]
      constructor
      · rintro ⟨skipped, rest, rfl, h⟩
        obtain ⟨front, back, rfl, hfront, hback⟩ := ih.mp h
        exact ⟨skipped ++ front, back, (List.append_assoc ..).symm,
          accepts_many.mpr ⟨skipped, front, rfl, hfront⟩, hback⟩
      · rintro ⟨front, back, rfl, hfront, hback⟩
        obtain ⟨skipped, rest, rfl, hrest⟩ := accepts_many.mp hfront
        exact ⟨skipped, rest ++ back, List.append_assoc .., ih.mpr ⟨rest, back, rfl, hrest, hback⟩⟩

/-- The empty word is matched by the patterns of any-length wildcards. -/
theorem accepts_nil_iff : accepts p [] = true ↔ ∀ token ∈ p, token = .many := by
  induction p with
  | nil => simp [accepts]
  | cons token p ih =>
    cases token with
    | lit a => simp [accepts]
    | one => simp [accepts]
    | many => simp [accepts, ih]

/-- Any word but the empty one. -/
theorem accepts_one_many : accepts [.one, .many] word = true ↔ word ≠ [] := by
  rw [accepts_one]
  constructor
  · rintro ⟨b, rest, rfl, -⟩
    exact List.cons_ne_nil b rest
  · intro hne
    obtain ⟨b, rest, rfl⟩ := List.exists_cons_of_ne_nil hne
    exact ⟨b, rest, rfl, accepts_many.mpr ⟨rest, [], (List.append_nil rest).symm, rfl⟩⟩

/-- **Known ends.** A pattern that matches some non-empty front and then `q` is within the
    pattern of any non-empty front and then `q`. -/
theorem accepts_suffix (hfront : ∃ token ∈ p, token ≠ .many)
    (h : accepts (p ++ q) word = true) : accepts (.one :: .many :: q) word = true := by
  obtain ⟨front, back, rfl, hp, hq⟩ := accepts_append.mp h
  have hne : front ≠ [] := by
    rintro rfl
    obtain ⟨token, hmem, htoken⟩ := hfront
    exact htoken (accepts_nil_iff.mp hp token hmem)
  exact accepts_append.mpr ⟨front, back, rfl, accepts_one_many.mpr hne, hq⟩

end Wildcard

end CodexMonitor
